/-
Places do not decide what trees mean.

Two parse trees that are the same up to places mean expressions that are the same up to places, or
both mean nothing (`agree_meaning`), since nodes over expressions that are the same up to places are
so again, wherever they are put (`congruent_alike`). Nor do places matter to the brackets of a tree
(`brackets_unplaced`).
-/
import RowFilter.Proofs.Expr.Congruence
import RowFilter.Proofs.Expr.Printer
import RowFilter.Proofs.Grammar.Nesting

set_option autoImplicit false

namespace RowFilter.Expr

open Grammar (Rule Tree)
open List (Forall₂)

/-- Lists that are the same element by element are the same. -/
theorem allAlike_of_forall₂ {es es' : List Expr} (h : Forall₂ Alike es es') : AllAlike es es' := by
  induction h with
  | nil => exact allAlike_nil
  | cons h _ ih => exact h.cons ih

/-- **Nodes over expressions that are the same up to places** are the same up to places. -/
theorem congruent_alike : Congruent Alike where
  depth_eq h := h.depth_eq
  literalAt _ _ _ := rfl
  identAt _ _ _ := rfl
  selectAt _ _ field h := h.selectAt field
  binaryAt _ _ operator hleft hright := hleft.binaryAt hright operator
  unaryAt _ _ operator h := h.unaryAt operator
  callAt _ _ function h := (allAlike_of_forall₂ h).callAt function
  methodAt _ _ function h hall := h.methodAt (allAlike_of_forall₂ hall) function
  listAt _ _ h := (allAlike_of_forall₂ h).listAt

/-! ## Trees -/

mutual

/-- **Places do not matter to meanings.** -/
theorem agree_meaning (t t' : Tree) (h : t.unplaced = t'.unplaced) :
    Agree (Piece.Related Alike) (meaning t) (meaning t') := by
  -- a token is told by its rule and text, a node by its rule and its children
  cases t with
  | token rule span text =>
      cases t' with
      | node => cases h
      | token rule' span' text' =>
          obtain ⟨rfl, -, rfl⟩ := Tree.token.inj h
          exact congruent_alike.agree_ofToken rule text
  | node rule span children =>
      cases t' with
      | token => cases h
      | node rule' span' children' =>
          obtain ⟨rfl, -, hchildren⟩ := Tree.node.inj h
          rw [meaning, meaning]
          exact congruent_alike.agree_ofNode rule (related_meanings children children' hchildren)
termination_by structural t

/-- Trees that are the same up to places have related meanings. -/
theorem related_meanings (ts ts' : List Tree) (h : Tree.unplacedAll ts = Tree.unplacedAll ts') :
    Forall₂ (Part.Related Alike) (meanings ts) (meanings ts') := by
  cases ts with
  | nil =>
      cases ts' with
      | nil => exact .nil
      | cons => cases h
  | cons t ts =>
      cases ts' with
      | nil => cases h
      | cons t' ts' =>
          obtain ⟨ht, hts⟩ := List.cons.inj h
          rw [meanings, meanings]
          exact .cons ⟨ht, agree_meaning t t' ht⟩ (related_meanings ts ts' hts)
termination_by structural ts

end

/-- **Places do not matter to programs.** -/
theorem agree_ofTree {t t' : Tree} (h : t.unplaced = t'.unplaced) :
    Agree Alike (ofTree t) (ofTree t') := by
  have hrelated : Part.Related Alike ⟨t, meaning t⟩ ⟨t', meaning t'⟩ := ⟨h, agree_meaning t t' h⟩
  exact hrelated.agree_expr

end RowFilter.Expr

namespace RowFilter.Grammar.Tree

/-! ## Brackets -/

mutual

/-- The brackets of a tree do not depend on its places. -/
theorem brackets_unplaced (t : Tree) : t.unplaced.brackets = t.brackets := by
  cases t with
  | token => rfl
  | node rule span children =>
      rw [unplaced, brackets, brackets, bracketsBelow_unplaced rule children]
termination_by structural t

/-- The brackets of a tree do not depend on places. -/
theorem bracketsBelow_unplaced (parent : Rule) (ts : List Tree) :
    bracketsBelow parent (unplacedAll ts) = bracketsBelow parent ts := by
  cases ts with
  | nil => rfl
  | cons t ts =>
      rw [unplacedAll, bracketsBelow, bracketsBelow, brackets_unplaced t,
        bracketsBelow_unplaced parent ts, Expr.rule_unplaced]
termination_by structural ts

end

end RowFilter.Grammar.Tree
