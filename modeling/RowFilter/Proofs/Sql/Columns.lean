/-
The columns of a condition, as a set and in their order.

`columns` sorts and drops repetitions by inserting one name after the other; which
names come out does not depend on that. Statements about columns go through
`mem_columns` to the columns in the order in which they are mentioned. That the list
is strictly ascending is kept by every insertion, `pairwise_insertName`.
-/
import Mathlib.Data.String.Basic
import RowFilter.Sql.Predicate

set_option autoImplicit false

namespace RowFilter.Sql.Predicate

/-- Inserting a name adds that name. -/
theorem mem_insertName {name c : String} {names : List String} :
    c ∈ insertName name names ↔ c = name ∨ c ∈ names := by
  induction names with
  | nil => rw [insertName, List.mem_singleton, List.mem_nil_iff, or_false]
  | cons other rest ih =>
      rw [insertName]
      by_cases hlt : name < other
      · rw [if_pos hlt, List.mem_cons]
      · rw [if_neg hlt]
        by_cases heq : name = other
        · rw [if_pos heq, heq, List.mem_cons, or_self_left]
        · rw [if_neg heq, List.mem_cons, ih, List.mem_cons, or_left_comm]

/-- Inserting names one by one adds them all. -/
theorem mem_foldl_insertName {c : String} (mentioned names : List String) :
    c ∈ mentioned.foldl (fun names c => insertName c names) names ↔
      c ∈ mentioned ∨ c ∈ names := by
  induction mentioned generalizing names with
  | nil => rw [List.foldl_nil, List.mem_nil_iff, false_or]
  | cons m rest ih =>
      rw [List.foldl_cons, ih, mem_insertName, List.mem_cons, or_left_comm, or_assoc]

/-- The columns of a condition are those that it mentions. -/
theorem mem_columns {p : Predicate} {c : String} : c ∈ p.columns ↔ c ∈ p.mentions := by
  rw [columns, mem_foldl_insertName, List.mem_nil_iff, or_false]

/-! ## Order -/

/-- The list stays sorted, and has no name twice. -/
theorem pairwise_insertName {name : String} {names : List String}
    (h : names.Pairwise (· < ·)) : (insertName name names).Pairwise (· < ·) := by
  induction names with
  | nil => exact List.pairwise_singleton _ _
  | cons other rest ih =>
      -- the new name comes in front, is there already, or belongs further on
      obtain ⟨hother, hrest⟩ := List.pairwise_cons.mp h
      rw [insertName]
      by_cases hlt : name < other
      · -- what comes before the first comes before all
        rw [if_pos hlt]
        refine List.pairwise_cons.mpr ⟨fun c hc => ?_, h⟩
        rcases List.mem_cons.mp hc with rfl | hc
        · exact hlt
        · exact lt_trans hlt (hother c hc)
      · rw [if_neg hlt]
        by_cases heq : name = other
        · rw [if_pos heq]
          exact h
        · rw [if_neg heq]
          refine List.pairwise_cons.mpr ⟨fun c hc => ?_, ih hrest⟩
          rcases mem_insertName.mp hc with rfl | hc
          · exact lt_of_le_of_ne (not_lt.mp hlt) (Ne.symm heq)
          · exact hother c hc

/-- Columns are listed in strictly ascending order, since every insertion keeps it. -/
theorem pairwise_columns (p : Predicate) : p.columns.Pairwise (· < ·) := by
  have hfold : ∀ mentioned names : List String, names.Pairwise (· < ·) →
      (mentioned.foldl (fun names c => insertName c names) names).Pairwise (· < ·) := by
    intro mentioned
    induction mentioned with
    | nil => exact fun _ h => h
    | cons m rest ih => exact fun names h => ih _ (pairwise_insertName h)
  exact hfold p.mentions [] List.Pairwise.nil

end RowFilter.Sql.Predicate
