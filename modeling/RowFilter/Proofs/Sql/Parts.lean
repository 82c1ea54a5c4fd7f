/-
The parts of a condition.

A condition is put together by connectives from leaves. What it mentions and what it binds
is what its leaves mention and bind, one after the other, so whatever is found in one of
these lists can be traced to a single leaf, `exists_part_of_mem`.
-/
import RowFilter.Sql.Predicate

set_option autoImplicit false

namespace RowFilter.Sql.Predicate

/-- The conditions that a connective joins. -/
def children : Predicate → List Predicate
  | .and left right | .or left right => [left, right]
  | .not inner => [inner]
  | .compare _ _ _ | .nullCheck _ _ | .like _ _ | .isIn _ _ | .constant _ | .never => []

/-- The nesting of a condition; leaves count one. -/
def height : Predicate → Nat
  | .and left right | .or left right => 1 + max left.height right.height
  | .not inner => 1 + inner.height
  | .compare _ _ _ | .nullCheck _ _ | .like _ _ | .isIn _ _ | .constant _ | .never => 1

/-- `Part q p`: the condition `q` is `p` or stands in it below connectives. -/
inductive Part : Predicate → Predicate → Prop where
  | root (p : Predicate) : Part p p
  | inside {q c p : Predicate} (hc : c ∈ p.children) (hq : Part q c) : Part q p

/-- A property that passes from what a connective joins to the connective, and that the
leaves have, holds of every condition. -/
@[elab_as_elim]
theorem children_induction {motive : Predicate → Prop}
    (step : ∀ p : Predicate, (∀ c ∈ p.children, motive c) → motive p) (p : Predicate) :
    motive p := by
  induction p with
  | and left right ihleft ihright | or left right ihleft ihright =>
      exact step _ (by simpa [children] using ⟨ihleft, ihright⟩)
  | not inner ih => exact step _ (by simpa [children] using ih)
  | compare | nullCheck | like | isIn | constant | never => exact step _ (by simp [children])

/-- Where connectives collect from what they join, everything comes from a leaf. -/
theorem exists_part_of_mem {α : Type} {collect : Predicate → List α}
    (hcollect : ∀ p : Predicate, p.children ≠ [] → collect p = p.children.flatMap collect)
    {p : Predicate} {a : α} (ha : a ∈ collect p) :
    ∃ q, Part q p ∧ q.children = [] ∧ a ∈ collect q := by
  induction p using children_induction with
  | step p ih =>
      by_cases hleaf : p.children = []
      · exact ⟨p, Part.root p, hleaf, ha⟩
      · -- what a connective has collected was collected from one of what it joins
        rw [hcollect p hleaf] at ha
        obtain ⟨c, hc, hac⟩ := List.mem_flatMap.mp ha
        obtain ⟨q, hq, hfound⟩ := ih c hc hac
        exact ⟨q, Part.inside hc hq, hfound⟩

/-- A column that is mentioned is mentioned by a leaf. -/
theorem exists_part_of_mem_mentions {p : Predicate} {column : String} (h : column ∈ p.mentions) :
    ∃ q, Part q p ∧ q.children = [] ∧ column ∈ q.mentions := by
  refine exists_part_of_mem (fun p hp => ?_) h
  cases p <;> simp [children, mentions] at hp ⊢

/-- A value that is bound is bound by a leaf. -/
theorem exists_part_of_mem_boundValues {p : Predicate} {value : Value}
    (h : value ∈ p.boundValues) :
    ∃ q, Part q p ∧ q.children = [] ∧ value ∈ q.boundValues := by
  refine exists_part_of_mem (fun p hp => ?_) h
  cases p <;> simp [children, boundValues] at hp ⊢

end RowFilter.Sql.Predicate
