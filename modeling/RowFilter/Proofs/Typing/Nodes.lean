/-
The nodes of trees that come from the checker.

A typed tree that is handed to a converter may be anything. One that the checker has
made is not: each of its nodes is the result of one of the node functions, so its type
follows from the types of its parts, its names are declared and what is selected from
is a map. `Node` is the list of the possibilities, and `allNodes_of_check` says that there
are no others, at the root of a tree or anywhere inside it.
-/
import RowFilter.Proofs.Typing.Checker

set_option autoImplicit false

namespace RowFilter.Typing

open TypedExpr (Part)

/-- `Node env t`: the checker can make `t` at its root from the parts that it has. -/
inductive Node (env : Environment) : TypedExpr → Prop where
  | literal (value : Value) : Node env (.ofValue value)
  | ident {type : ValueType} {name : String} (hname : env.lookup? name = some type) :
      Node env (.ident type name)
  | select {type : ValueType} {operand : TypedExpr} (field : String)
      (htype : fieldType? operand.type = some type) : Node env (.select type operand field)
  | unary {type : ValueType} {operand : TypedExpr} (operator : UnaryOperator)
      (htype : unaryType? operator operand.type = some type) :
      Node env (.call type operator.function [operand])
  | binary {type : ValueType} {left right : TypedExpr} (operator : BinaryOperator)
      (htype : binaryType? operator left.type right.type = some type) :
      Node env (.call type operator.function [left, right])
  | call {type : ValueType} {function : String} {arguments : List TypedExpr}
      (htype : callType function none (arguments.map TypedExpr.type) = .ok type) :
      Node env (.call type function arguments)
  | method {type : ValueType} {receiver : TypedExpr} {function : String}
      {arguments : List TypedExpr}
      (htype : callType function (some receiver.type) (arguments.map TypedExpr.type) = .ok type) :
      Node env (.method type receiver function arguments)
  | list {type : ValueType} {elements : List TypedExpr}
      (htype : elementType .null (elements.map TypedExpr.type) = .ok type) :
      Node env (.list (.list type) elements)

/-- What the checker can make at every node. -/
def AllNodes (env : Environment) (t : TypedExpr) : Prop := ∀ n, Part n t → Node env n

variable {env : Environment}

/-- The root of a derived tree is made from its parts. -/
theorem Elaborates.node {e : Expr} {type : ValueType} {t : TypedExpr}
    (h : Elaborates env e type t) : Node env t := by
  -- each rule asks of the types of the parts what the node asks of its children
  cases h with
  | literal info value => exact Node.literal value
  | name hname hdeclared => exact Node.ident hdeclared
  | select hwhole hoperand =>
      exact Node.select _ (fieldType?_eq_some_iff.mpr hoperand.type_eq)
  | unary hoperand hrule =>
      rw [← hoperand.type_eq] at hrule
      exact Node.unary _ (unaryType?_eq_some_iff.mpr hrule)
  | binary hleft hright hrule =>
      rw [← hleft.type_eq, ← hright.type_eq] at hrule
      exact Node.binary _ (binaryType?_eq_some_iff.mpr hrule)
  | call harguments hrule =>
      rw [← harguments.types_eq] at hrule
      exact Node.call (callType_eq_ok_iff.mpr hrule)
  | method hreceiver harguments hrule =>
      rw [← hreceiver.type_eq, ← harguments.types_eq] at hrule
      exact Node.method (callType_eq_ok_iff.mpr hrule)
  | list helements hrule =>
      rw [← helements.types_eq] at hrule
      exact Node.list (elementType_null_eq_ok_iff.mpr hrule)

/-- **Checked trees.** Every node of a tree that the checker makes, at its root or
inside it, is one that it can make from the parts that the node has. -/
theorem allNodes_of_check {e : Expr} {t : TypedExpr} (h : check env e = .ok t) :
    AllNodes env t := by
  intro n hn
  obtain ⟨e', -, hderived⟩ := (elaborates_of_check h).of_part hn
  exact hderived.node

end RowFilter.Typing
