/-
What it means for an expression to have a type.

`Elaborates env e type t` is the judgement that `e` has the type `type` and that `t` is
the typed tree it stands for. Its rules follow the expressions, not the checker: there is
nothing in them about the order of checks, about problems that are collected on the way or
about results that are missing. A tree is put together by the same derivation that finds
the types, so the type at every node of it is the one derived there, `Elaborates.of_part`.
-/
import RowFilter.Proofs.Typing.Rules
import RowFilter.Proofs.TypedExpr.Parts

set_option autoImplicit false

namespace RowFilter

/-! ## Parts of expressions -/

/-- `SubExpr n e`: the expression `n` is `e` or stands inside it. -/
inductive Expr.SubExpr : Expr → Expr → Prop where
  | root (e : Expr) : SubExpr e e
  | inside {n c e : Expr} (hc : c ∈ e.children) (hn : SubExpr n c) : SubExpr n e

namespace Typing

open TypedExpr (Part)

/-! ## The judgement -/

mutual

/-- `Elaborates env e type t`: the expression has this type and is this typed tree. -/
inductive Elaborates (env : Environment) : Expr → ValueType → TypedExpr → Prop where
  | literal (info : NodeInfo) (value : Value) :
      Elaborates env (.literal info value) value.kind (.literal value.kind value)
  /-- A declared name, which may be dotted. -/
  | name {e : Expr} {name : String} {type : ValueType} (hname : e.qualifiedName? = some name)
      (hdeclared : env.lookup? name = some type) : Elaborates env e type (.ident type name)
  /-- A key selected from a map, unless the selection as a whole is a declared name. -/
  | select {info : NodeInfo} {operand : Expr} {field : String} {type : ValueType} {o : TypedExpr}
      (hwhole : ∀ name, (Expr.select info operand field).qualifiedName? = some name →
        env.lookup? name = none)
      (hoperand : Elaborates env operand (.map .string type) o) :
      Elaborates env (.select info operand field) type (.select type o field)
  | unary {info : NodeInfo} {operator : UnaryOperator} {operand : Expr} {inner type : ValueType}
      {o : TypedExpr} (hoperand : Elaborates env operand inner o)
      (hrule : UnaryRule operator inner type) :
      Elaborates env (.unary info operator operand) type (.call type operator.function [o])
  | binary {info : NodeInfo} {operator : BinaryOperator} {left right : Expr}
      {leftType rightType type : ValueType} {l r : TypedExpr}
      (hleft : Elaborates env left leftType l) (hright : Elaborates env right rightType r)
      (hrule : BinaryRule operator leftType rightType type) :
      Elaborates env (.binary info operator left right) type
        (.call type operator.function [l, r])
  | call {info : NodeInfo} {function : String} {arguments : List Expr} {types : List ValueType}
      {type : ValueType} {ts : List TypedExpr} (harguments : ElaboratesAll env arguments types ts)
      (hrule : CallRule function none types type) :
      Elaborates env (.call info function arguments) type (.call type function ts)
  | method {info : NodeInfo} {receiver : Expr} {function : String} {arguments : List Expr}
      {receiverType : ValueType} {types : List ValueType} {type : ValueType} {r : TypedExpr}
      {ts : List TypedExpr} (hreceiver : Elaborates env receiver receiverType r)
      (harguments : ElaboratesAll env arguments types ts)
      (hrule : CallRule function (some receiverType) types type) :
      Elaborates env (.method info receiver function arguments) type
        (.method type r function ts)
  | list {info : NodeInfo} {elements : List Expr} {types : List ValueType} {elem : ValueType}
      {ts : List TypedExpr} (helements : ElaboratesAll env elements types ts)
      (hrule : ElementRule types elem) :
      Elaborates env (.list info elements) (.list elem) (.list (.list elem) ts)

/-- The judgement for several expressions, one by one. -/
inductive ElaboratesAll (env : Environment) :
    List Expr → List ValueType → List TypedExpr → Prop where
  | nil : ElaboratesAll env [] [] []
  | cons {e : Expr} {es : List Expr} {type : ValueType} {types : List ValueType} {t : TypedExpr}
      {ts : List TypedExpr} (hhead : Elaborates env e type t)
      (htail : ElaboratesAll env es types ts) :
      ElaboratesAll env (e :: es) (type :: types) (t :: ts)

end

variable {env : Environment}

/-- The root of the tree carries the type that is derived. -/
theorem Elaborates.type_eq {e : Expr} {type : ValueType} {t : TypedExpr}
    (h : Elaborates env e type t) : t.type = type := by
  cases h <;> rfl

/-- A derivation is one of the type that the tree carries. -/
theorem Elaborates.carried {e : Expr} {type : ValueType} {t : TypedExpr}
    (h : Elaborates env e type t) : Elaborates env e t.type t := by
  rw [h.type_eq]
  exact h

/-- The trees of a list carry the types that have been derived. -/
theorem ElaboratesAll.types_eq {es : List Expr} {types : List ValueType} {ts : List TypedExpr}
    (h : ElaboratesAll env es types ts) : ts.map TypedExpr.type = types := by
  -- by the expressions: the derivation is one of two mutual families
  induction es generalizing types ts with
  | nil =>
      cases h
      rfl
  | cons e es ih =>
      cases h with
      | cons hhead htail => rw [List.map_cons, hhead.type_eq, ih htail]

/-! ### Derivations at inner nodes -/

/-- Each of them comes from an expression of the list. -/
theorem ElaboratesAll.exists_of_mem {es : List Expr} {types : List ValueType}
    {ts : List TypedExpr} (h : ElaboratesAll env es types ts) {t : TypedExpr} (ht : t ∈ ts) :
    ∃ e ∈ es, Elaborates env e t.type t := by
  induction es generalizing types ts with
  | nil =>
      cases h
      cases ht
  | cons e es ih =>
      cases h with
      | cons hhead htail =>
          rcases List.mem_cons.mp ht with rfl | ht
          · exact ⟨e, List.mem_cons_self, hhead.carried⟩
          · obtain ⟨e', he', helaborates⟩ := ih htail ht
            exact ⟨e', List.mem_cons_of_mem e he', helaborates⟩

/-- The direct parts of the tree come from direct parts of the expression. -/
theorem Elaborates.exists_of_child {e : Expr} {type : ValueType} {t c : TypedExpr}
    (h : Elaborates env e type t) (hc : c ∈ t.children) :
    ∃ e' ∈ e.children, Elaborates env e' c.type c := by
  cases h with
  -- a name has no parts, also if it was written as a path
  | literal | name => cases hc
  | select hwhole hoperand =>
      obtain rfl := List.mem_singleton.mp hc
      exact ⟨_, List.mem_cons_self, hoperand.carried⟩
  | unary hoperand hrule =>
      obtain rfl := List.mem_singleton.mp hc
      exact ⟨_, List.mem_cons_self, hoperand.carried⟩
  | binary hleft hright hrule =>
      rcases List.mem_cons.mp hc with rfl | hc
      · exact ⟨_, List.mem_cons_self, hleft.carried⟩
      · obtain rfl := List.mem_singleton.mp hc
        exact ⟨_, List.mem_cons_of_mem _ List.mem_cons_self, hright.carried⟩
  | call harguments hrule => exact harguments.exists_of_mem hc
  | method hreceiver harguments hrule =>
      rcases List.mem_cons.mp hc with rfl | hc
      · exact ⟨_, List.mem_cons_self, hreceiver.carried⟩
      · obtain ⟨e', he', helaborates⟩ := harguments.exists_of_mem hc
        exact ⟨e', List.mem_cons_of_mem _ he', helaborates⟩
  | list helements hrule => exact helements.exists_of_mem hc

/-- **Derived types at every node.** A node of the tree is what a part of the expression
stands for, and carries the type that is derived for this part. -/
theorem Elaborates.of_part {e : Expr} {type : ValueType} {t n : TypedExpr}
    (h : Elaborates env e type t) (hn : Part n t) :
    ∃ e', Expr.SubExpr e' e ∧ Elaborates env e' n.type n := by
  induction hn generalizing e type with
  | root => exact ⟨e, Expr.SubExpr.root e, h.carried⟩
  | inside hc _ ih =>
      obtain ⟨c, hce, hchild⟩ := h.exists_of_child hc
      obtain ⟨e', he', helaborates⟩ := ih hchild
      exact ⟨e', Expr.SubExpr.inside hce he', helaborates⟩

end Typing

end RowFilter
