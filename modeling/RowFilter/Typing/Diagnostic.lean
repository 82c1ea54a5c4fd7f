/-
What compiling an expression may complain about, and how complaints are written.
-/
import RowFilter.Expr.ParseError
import RowFilter.ValueType

set_option autoImplicit false

namespace RowFilter

/-! ## Complaints of the checker -/

/-- Why a node has no type. -/
inductive TypeIssue where
  | undeclared (name : String)
  /-- A selection on something that is no map with string keys. -/
  | noFields (type : ValueType)
  | noOverload (function : String) (types : List ValueType)
  /-- A function without its receiver. -/
  | needsReceiver (function : String)
  | mixedList (first other : ValueType)
  /-- Stands in where a node has no type and nothing says why. -/
  | untyped
  deriving DecidableEq, Repr

def TypeIssue.message : TypeIssue → String
  | .undeclared name => "undeclared reference to '" ++ name ++ "'"
  | .noFields type => "type '" ++ type.toText ++ "' does not support field selection"
  | .noOverload function types =>
    "found no matching overload for '" ++ function ++ "' applied to '("
      ++ ", ".intercalate (types.map ValueType.toText) ++ ")'"
  | .needsReceiver function => "'" ++ function ++ "' must be called as a method"
  | .mixedList first other =>
    "list elements must share one type, found '" ++ first.toText ++ "' and '"
      ++ other.toText ++ "'"
  | .untyped => "expression could not be typed"

/-- An issue and the node it was found at. -/
structure Finding where
  span : Span
  issue : TypeIssue
  deriving DecidableEq, Repr

/-! ## Diagnostics -/

/-- The stage a diagnostic comes from. -/
inductive Phase where
  | parsing
  | checking
  deriving DecidableEq, Repr, Inhabited

def Phase.name : Phase → String
  | .parsing => "syntax"
  | .checking => "type"

/-- A message with its stage and place. -/
structure Diagnostic where
  phase : Phase
  message : String
  line : Nat
  column : Nat
  deriving DecidableEq, Repr, Inhabited

namespace Diagnostic

def ofParseError (e : ParseError) : Diagnostic := ⟨.parsing, e.message, e.line, e.column⟩

def ofFinding (f : Finding) : Diagnostic :=
  ⟨.checking, f.issue.message, f.span.line, f.span.column⟩

def toText (d : Diagnostic) : String :=
  d.phase.name ++ " error at " ++ Nat.repr d.line ++ ":" ++ Nat.repr d.column ++ ": " ++ d.message

/-- Several diagnostics, a line each. -/
def listText (ds : List Diagnostic) : String := "\n".intercalate (ds.map toText)

end Diagnostic

end RowFilter
