/-
Values: what a literal of the expression language denotes, and what is bound to a
parameter of a query. The two are one type, so a literal reaches the query as the
very value it was read as.
-/
import RowFilter.Double.Text
import RowFilter.Text
import RowFilter.ValueType

set_option autoImplicit false

namespace RowFilter

/-- A literal value. -/
inductive Value where
  | int (value : Int64)
  | uint (value : UInt64)
  | float (value : Double)
  | string (value : String)
  | boolean (value : Bool)
  | bytes (value : List UInt8)
  | null
  deriving DecidableEq, Repr, Inhabited

namespace Value

/-- The type a value of this kind checks as. -/
def kind : Value → ValueType
  | .int _ => .int
  | .uint _ => .uint
  | .float _ => .double
  | .string _ => .string
  | .boolean _ => .bool
  | .bytes _ => .bytes
  | .null => .null

def isNull : Value → Bool
  | .null => true
  | _ => false

/-- One byte as an escape of the expression language. -/
def byteEscape (b : UInt8) : String := "\\x" ++ Text.hexPadded 2 b.toNat

/-- The spelling in diagnostics, close to that of the expression language. -/
def toText : Value → String
  | .int v => Text.decimal v.toInt
  | .uint v => Nat.repr v.toNat ++ "u"
  | .float v => v.spelled
  | .string v => Text.quoted v
  | .boolean v => if v then "true" else "false"
  | .bytes v => "b\"" ++ String.join (v.map byteEscape) ++ "\""
  | .null => "null"

end Value

end RowFilter
