/-
The checked tree is no deeper than the expression.

A checked tree repeats the expression node by node, with one exception: a selection that spells a
declared name as a whole, such as `user.name`, is a single leaf of the tree. So every part of the
tree comes from a part of the expression (`Elaborates.exists_of_child`), and the other way round
every part of the expression is found in the tree unless it stands in such a selection
(`Elaborates.child_cases`). The first bounds the depth from above, and the second, where nothing is
taken for a dotted name, from below.
-/
import RowFilter.Proofs.Conversion.Pipeline
import RowFilter.Proofs.Expr.Height
import RowFilter.Proofs.TypedExpr.Equality
import RowFilter.Proofs.Typing.Checker

set_option autoImplicit false

namespace RowFilter

/-! ## Levels of typed trees -/

namespace TypedExpr

/-- A typed tree is one level deeper than its parts. -/
theorem depth_eq (t : TypedExpr) : t.depth = 1 + deepest t.children := by
  cases t <;> simp [depth, children, deepest]

/-- A list is as deep as its bound if all elements are. -/
theorem deepest_le {ts : List TypedExpr} {m : Nat} (h : ∀ t ∈ ts, t.depth ≤ m) :
    deepest ts ≤ m := by
  induction ts with
  | nil => exact Nat.zero_le m
  | cons t rest ih =>
      obtain ⟨ht, hrest⟩ := List.forall_mem_cons.mp h
      rw [deepest]
      exact Nat.max_le.mpr ⟨ht, ih hrest⟩

end TypedExpr

namespace Typing

open RowFilter.Expr (SubExpr height_eq height_le_highest highest_le)
open TypedExpr (Part deepest depth_eq deepest_le depth_le_deepest mem_mentions)

/-! ## Dotted names -/

/-- The expression is a selection that spells a declared name as a whole. -/
inductive DottedName (env : Environment) : Expr → String → Prop where
  | select {info : NodeInfo} {operand : Expr} {field name : String}
      (hname : (Expr.select info operand field).qualifiedName? = some name)
      (hdeclared : env.lookup? name ≠ none) : DottedName env (.select info operand field) name

/-- In the tree of the expression, a selection is taken for a dotted name. -/
def ResolvesDotted (env : Environment) (e : Expr) (t : TypedExpr) : Prop :=
  ∃ n name type, SubExpr n e ∧ DottedName env n name ∧ Part (.ident type name) t

variable {env : Environment} {e c : Expr} {type : ValueType} {t c' : TypedExpr}

/-- The segments of a dotted name have dots between them. -/
theorem DottedName.dot_mem {name : String} (h : DottedName env e name) : '.' ∈ name.toList := by
  cases h with
  | select hname hdeclared =>
      obtain ⟨whole, -, rfl⟩ := Option.map_eq_some_iff.mp hname
      simp

/-- A tree that mentions no name with a dot has no dotted name in it. -/
theorem not_resolvesDotted (h : ∀ name ∈ t.mentions, '.' ∉ name.toList) :
    ¬ ResolvesDotted env e t := by
  rintro ⟨n, name, type, -, hname, hpart⟩
  exact h name (mem_mentions.mpr ⟨_, hpart, rfl⟩) hname.dot_mem

/-- A dotted name of a part is one of the whole. -/
theorem ResolvesDotted.of_child (hc : c ∈ e.children) (hc' : c' ∈ t.children)
    (h : ResolvesDotted env c c') : ResolvesDotted env e t := by
  obtain ⟨n, name, type, hn, hname, hpart⟩ := h
  exact ⟨n, name, type, SubExpr.inside hc hn, hname, Part.inside hc' hpart⟩

/-! ## Parts of the expression in the tree -/

/-- Each expression of a list has a tree in the other list. -/
theorem ElaboratesAll.exists_of_mem_left {es : List Expr} {types : List ValueType}
    {ts : List TypedExpr} (h : ElaboratesAll env es types ts) (hc : c ∈ es) :
    ∃ t ∈ ts, Elaborates env c t.type t := by
  induction es generalizing types ts with
  | nil => cases hc
  | cons e es ih =>
      cases h with
      | cons hhead htail =>
          rcases List.mem_cons.mp hc with rfl | hc
          · exact ⟨_, List.mem_cons_self, hhead.carried⟩
          · obtain ⟨t, ht, helaborates⟩ := ih htail hc
            exact ⟨t, List.mem_cons_of_mem _ ht, helaborates⟩

/-- A direct part of the expression stands for a direct part of the tree, unless the expression is
a dotted name and the tree is this name. -/
theorem Elaborates.child_cases (h : Elaborates env e type t) (hc : c ∈ e.children) :
    (∃ name, DottedName env e name ∧ t = .ident type name)
      ∨ ∃ c' ∈ t.children, Elaborates env c c'.type c' := by
  cases h with
  | literal => cases hc
  -- only here a child has no tree of its own: the dotted name stands for the whole path
  | name hname hdeclared =>
      cases e with
      | ident => cases hc
      | select info operand field =>
          refine Or.inl ⟨_, DottedName.select hname ?_, rfl⟩
          rw [hdeclared]
          exact Option.some_ne_none type
      | _ => cases hname
  | select hwhole hoperand =>
      obtain rfl := List.mem_singleton.mp hc
      exact Or.inr ⟨_, List.mem_cons_self, hoperand.carried⟩
  | unary hoperand hrule =>
      obtain rfl := List.mem_singleton.mp hc
      exact Or.inr ⟨_, List.mem_cons_self, hoperand.carried⟩
  | binary hleft hright hrule =>
      rcases List.mem_cons.mp hc with rfl | hc
      · exact Or.inr ⟨_, List.mem_cons_self, hleft.carried⟩
      · obtain rfl := List.mem_singleton.mp hc
        exact Or.inr ⟨_, List.mem_cons_of_mem _ List.mem_cons_self, hright.carried⟩
  | call harguments hrule => exact Or.inr (harguments.exists_of_mem_left hc)
  | method hreceiver harguments hrule =>
      rcases List.mem_cons.mp hc with rfl | hc
      · exact Or.inr ⟨_, List.mem_cons_self, hreceiver.carried⟩
      · obtain ⟨c', hc', helaborates⟩ := harguments.exists_of_mem_left hc
        exact Or.inr ⟨c', List.mem_cons_of_mem _ hc', helaborates⟩
  | list helements hrule => exact Or.inr (helements.exists_of_mem_left hc)

/-! ## Depth -/

/-- A tree has at most the levels of the expression it stands for. -/
theorem Elaborates.depth_le (h : Elaborates env e type t) : t.depth ≤ e.height := by
  -- on the tree, not on the expression: below a dotted name the expression goes on
  induction t using TypedExpr.children_induction generalizing e type with
  | step t ih =>
      have hparts : deepest t.children ≤ Expr.highest e.children := by
        refine deepest_le fun c hc => ?_
        obtain ⟨e', he', helaborates⟩ := h.exists_of_child hc
        exact Nat.le_trans (ih c hc helaborates) (height_le_highest he')
      rw [depth_eq, height_eq]
      omega

/-- It has all of them, unless a dotted name makes one leaf of several. -/
theorem Elaborates.height_le (h : Elaborates env e type t) (hplain : ¬ ResolvesDotted env e t) :
    e.height ≤ t.depth := by
  induction t using TypedExpr.children_induction generalizing e type with
  | step t ih =>
      have hparts : Expr.highest e.children ≤ deepest t.children := by
        refine highest_le fun c hc => ?_
        rcases h.child_cases hc with ⟨name, hname, rfl⟩ | ⟨c', hc', helaborates⟩
        · exact absurd ⟨e, name, type, SubExpr.root e, hname, Part.root _⟩ hplain
        · have hplain' : ¬ ResolvesDotted env c c' := fun hdotted =>
            hplain (hdotted.of_child hc hc')
          exact Nat.le_trans (ih c' hc' helaborates hplain') (depth_le_deepest hc')
      rw [depth_eq, height_eq]
      omega

/-- **Depth is bounded all the way down.** In what is parsed, every node carries the height of the
tree below it, and that of the root is within the bound. Wherever the expression checks, its tree
is at most as deep, and just as deep if no selection was taken for a dotted name. -/
theorem depth_bounded_of_parse {source : String} {e : Expr} (h : Expr.parse source = .ok e) :
    (∀ n, SubExpr n e → n.depth = n.height)
      ∧ e.depth ≤ Expr.maxTreeDepth
      ∧ ∀ (env : Environment) (t : TypedExpr), check env e = .ok t →
        t.depth ≤ e.depth ∧ (¬ ResolvesDotted env e t → t.depth = e.depth) := by
  have hmeasured := Expr.measured_of_parse h
  refine ⟨fun n hn => (hmeasured n hn).1, hmeasured.root.2, fun env t hcheck => ?_⟩
  have helaborates := elaborates_of_check hcheck
  rw [hmeasured.root.1]
  refine ⟨helaborates.depth_le, fun hplain => ?_⟩
  exact Nat.le_antisymm helaborates.depth_le (helaborates.height_le hplain)

/-- The tree of a comparison with a text. -/
def isMe (operand : TypedExpr) : TypedExpr :=
  .call .bool BinaryOperator.equal.function [operand, .ofValue (.string "me")]

/-- The key of a map keeps its level below the comparison, a dotted name does not. -/
theorem depth_bounded_of_parse_owner :
    (∃ e, Expr.parse "labels.owner == \"me\"" = .ok e ∧ e.depth = 3
        ∧ check ownerEnv e
          = .ok (isMe (.select .string (.ident (.map .string .string) "labels") "owner")))
      ∧ ∃ e, Expr.parse "user.name == \"me\"" = .ok e ∧ 2 ≤ e.depth
        ∧ check ownerEnv e = .ok (isMe (.ident .string "user.name")) := by
  have hkey : ownerEnv.compile "labels.owner == \"me\""
      = .ok (isMe (.select .string (.ident (.map .string .string) "labels") "owner")) :=
    Converter.eq_ok_of_toOption (by decide +kernel)
  have hname : ownerEnv.compile "user.name == \"me\"" = .ok (isMe (.ident .string "user.name")) :=
    Converter.eq_ok_of_toOption (by decide +kernel)
  obtain ⟨e, hparse, hcheck⟩ := Environment.compile_eq_ok_iff.mp hkey
  obtain ⟨e', hparse', hcheck'⟩ := Environment.compile_eq_ok_iff.mp hname
  obtain ⟨-, -, htree⟩ := depth_bounded_of_parse hparse
  obtain ⟨-, -, htree'⟩ := depth_bounded_of_parse hparse'
  -- in the first no dotted name is resolved, in the second one is
  have hequal := (htree ownerEnv _ hcheck).2 (not_resolvesDotted (by decide))
  exact ⟨⟨e, hparse, hequal.symm, hcheck⟩, e', hparse', (htree' ownerEnv _ hcheck').1, hcheck'⟩

end Typing

/-- Whatever is declared, no tree that is compiled is too deep. -/
theorem Environment.depth_le_of_compile {env : Environment} {source : String} {t : TypedExpr}
    (h : env.compile source = .ok t) : t.depth ≤ Expr.maxTreeDepth := by
  obtain ⟨e, hparse, hcheck⟩ := compile_eq_ok_iff.mp h
  obtain ⟨hdepth, hbounded⟩ := (Expr.measured_of_parse hparse).root
  calc t.depth ≤ e.height := (Typing.elaborates_of_check hcheck).depth_le
    _ = e.depth := hdepth.symm
    _ ≤ Expr.maxTreeDepth := hbounded

end RowFilter
