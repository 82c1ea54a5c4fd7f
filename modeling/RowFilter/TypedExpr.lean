/-
Checked expressions: trees in which every node carries its type and operators have
become applications of named functions. Any compiler may hand such a tree to a
converter, so nothing here assumes that the types fit or the functions exist.
-/
import RowFilter.Value

set_option autoImplicit false

namespace RowFilter

/-- A typed expression. -/
inductive TypedExpr where
  | literal (type : ValueType) (value : Value)
  | ident (type : ValueType) (name : String)
  /-- `operand.field` -/
  | select (type : ValueType) (operand : TypedExpr) (field : String)
  /-- A function applied to arguments. -/
  | call (type : ValueType) (function : String) (arguments : List TypedExpr)
  /-- A function applied to a receiver and arguments, as in `name.contains("x")`. -/
  | method (type : ValueType) (receiver : TypedExpr) (function : String)
      (arguments : List TypedExpr)
  | list (type : ValueType) (elements : List TypedExpr)
  deriving Repr, Inhabited

namespace TypedExpr

def type : TypedExpr → ValueType
  | .literal t _ | .ident t _ | .select t _ _ | .call t _ _ | .method t _ _ _ | .list t _ => t

/-- The direct parts in order of evaluation, a receiver first. -/
def children : TypedExpr → List TypedExpr
  | .literal _ _ | .ident _ _ => []
  | .select _ operand _ => [operand]
  | .call _ _ arguments => arguments
  | .method _ receiver _ arguments => receiver :: arguments
  | .list _ elements => elements

/-- A literal has the type of its value. -/
def ofValue (v : Value) : TypedExpr := .literal v.kind v

/-! ## Depth -/

mutual

/-- The nesting of a tree: leaves count one, every other node one more than the
deepest of its parts. -/
def depth : TypedExpr → Nat
  | .literal _ _ => 1
  | .ident _ _ => 1
  | .select _ operand _ => 1 + operand.depth
  | .call _ _ arguments => 1 + deepest arguments
  | .method _ receiver _ arguments => 1 + max receiver.depth (deepest arguments)
  | .list _ elements => 1 + deepest elements

/-- The depth of the deepest of some trees, zero for none. -/
def deepest : List TypedExpr → Nat
  | [] => 0
  | e :: rest => max e.depth (deepest rest)

end

/-! ## Fields -/

mutual

/-- The field names of a tree from the root down, a node before its parts: the name
of every identifier and the selected name of every selection. -/
def mentions : TypedExpr → List String
  | .literal _ _ => []
  | .ident _ name => [name]
  | .select _ operand field => field :: operand.mentions
  | .call _ _ arguments => mentionsOfAll arguments
  | .method _ receiver _ arguments => receiver.mentions ++ mentionsOfAll arguments
  | .list _ elements => mentionsOfAll elements

/-- The field names of some trees, one tree after the other. -/
def mentionsOfAll : List TypedExpr → List String
  | [] => []
  | e :: rest => e.mentions ++ mentionsOfAll rest

end

/-- A list without the repetitions of what came earlier. -/
def firstOccurrences : List String → List String
  | [] => []
  | s :: rest => s :: (firstOccurrences rest).filter (· ≠ s)

/-- The distinct field names of a tree, in the order in which they first appear. -/
def referencedFields (e : TypedExpr) : List String := firstOccurrences e.mentions

end TypedExpr

end RowFilter
