/-
The types of filter expressions: what a field may be declared as, and what the
checker assigns to every node of an expression.
-/

set_option autoImplicit false

namespace RowFilter

/-- The declared type of a field, or the checked type of an expression. -/
inductive ValueType where
  | string
  | int
  | uint
  | double
  | bool
  | timestamp
  | duration
  | bytes
  | list (elem : ValueType)
  | map (key value : ValueType)
  /-- The type of the literal `null`. -/
  | null
  deriving DecidableEq, Repr, Inhabited

namespace ValueType

/-- Types on which arithmetic is defined. -/
def isNumeric : ValueType → Bool
  | .int | .uint | .double => true
  | _ => false

/-- Types that are compared by `<`, `<=`, `>` and `>=`. -/
def isOrdered : ValueType → Bool
  | .int | .uint | .double | .string | .bytes | .timestamp | .duration => true
  | _ => false

/-- Types whose literals are checked against the declared type of a field once
more when a predicate is built. -/
def isScalar : ValueType → Bool
  | .string | .int | .uint | .double | .bool => true
  | _ => false

/-- Types that have a size. -/
def isSized : ValueType → Bool
  | .string | .bytes | .list _ | .map _ _ => true
  | _ => false

/-- The written form: type constructors are applied in parentheses, with one
space behind the comma of a map. -/
def toText : ValueType → String
  | .string => "string"
  | .int => "int"
  | .uint => "uint"
  | .double => "double"
  | .bool => "bool"
  | .timestamp => "timestamp"
  | .duration => "duration"
  | .bytes => "bytes"
  | .list elem => "list(" ++ elem.toText ++ ")"
  | .map key value => "map(" ++ key.toText ++ ", " ++ value.toText ++ ")"
  | .null => "null_type"

end ValueType

end RowFilter
