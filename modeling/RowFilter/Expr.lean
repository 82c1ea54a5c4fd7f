/-
Parsed expressions, not yet checked. Every node knows the span of source text it
comes from and its depth, so that the bound on the depth of a tree costs one
comparison per node while the tree is built.
-/
import RowFilter.Expr.Operator
import RowFilter.Source.Span
import RowFilter.Value

set_option autoImplicit false

namespace RowFilter

/-- What every node of an expression carries. -/
structure NodeInfo where
  span : Span
  /-- The levels of the tree below and including the node; leaves have one. -/
  depth : Nat
  deriving DecidableEq, Repr, Inhabited

/-- An expression as it was written, up to brackets and layout. -/
inductive Expr where
  | literal (info : NodeInfo) (value : Value)
  | ident (info : NodeInfo) (name : String)
  | select (info : NodeInfo) (operand : Expr) (field : String)
  | binary (info : NodeInfo) (operator : BinaryOperator) (left right : Expr)
  | unary (info : NodeInfo) (operator : UnaryOperator) (operand : Expr)
  /-- A call such as `size(tags)`. -/
  | call (info : NodeInfo) (function : String) (arguments : List Expr)
  /-- A call on a receiver, such as `name.contains("x")`. -/
  | method (info : NodeInfo) (receiver : Expr) (function : String) (arguments : List Expr)
  | list (info : NodeInfo) (elements : List Expr)
  deriving Repr, Inhabited

namespace Expr

def info : Expr → NodeInfo
  | .literal i _ | .ident i _ | .select i _ _ | .binary i _ _ _ | .unary i _ _
  | .call i _ _ | .method i _ _ _ | .list i _ => i

def span (e : Expr) : Span := e.info.span

def depth (e : Expr) : Nat := e.info.depth

/-- The direct sub-expressions, a receiver before the arguments. -/
def children : Expr → List Expr
  | .literal _ _ | .ident _ _ => []
  | .select _ operand _ => [operand]
  | .binary _ _ left right => [left, right]
  | .unary _ _ operand => [operand]
  | .call _ _ arguments => arguments
  | .method _ receiver _ arguments => receiver :: arguments
  | .list _ elements => elements

/-- The dotted name that a chain of selections on a name spells, such as
`user.profile.name`. -/
def qualifiedName? : Expr → Option String
  | .ident _ name => some name
  | .select _ operand field => operand.qualifiedName?.map fun name => name ++ "." ++ field
  | _ => none

/-! ## Nodes with their depth -/

/-- The depth of a node over these children. -/
def depthOver (children : List Expr) : Nat :=
  1 + (children.map depth).foldr max 0

def literalAt (span : Span) (value : Value) : Expr := .literal ⟨span, 1⟩ value

def identAt (span : Span) (name : String) : Expr := .ident ⟨span, 1⟩ name

def selectAt (span : Span) (operand : Expr) (field : String) : Expr :=
  .select ⟨span, depthOver [operand]⟩ operand field

def binaryAt (span : Span) (operator : BinaryOperator) (left right : Expr) : Expr :=
  .binary ⟨span, depthOver [left, right]⟩ operator left right

def unaryAt (span : Span) (operator : UnaryOperator) (operand : Expr) : Expr :=
  .unary ⟨span, depthOver [operand]⟩ operator operand

def callAt (span : Span) (function : String) (arguments : List Expr) : Expr :=
  .call ⟨span, depthOver arguments⟩ function arguments

def methodAt (span : Span) (receiver : Expr) (function : String) (arguments : List Expr) :
    Expr :=
  .method ⟨span, depthOver (receiver :: arguments)⟩ receiver function arguments

def listAt (span : Span) (elements : List Expr) : Expr :=
  .list ⟨span, depthOver elements⟩ elements

end Expr

end RowFilter
