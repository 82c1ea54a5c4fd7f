/-
The parts of a typed tree, and the field names that its nodes refer to.

A typed tree nests through lists of trees, so the induction that Lean derives
speaks of trees and of lists of trees at once. `children_induction` hides the
lists: a property holds of every tree if it passes from the direct parts of a node
to the node. Everything below, and every walk over trees elsewhere, goes by it.

What a tree refers to is said twice. `mentions` collects names by recursion, and
that is what runs. `RefersTo` only says that somewhere in the tree, at whatever
depth and in whatever position, there stands a node with that name. `mem_mentions`
joins the two: the walk skips no node.
-/
import RowFilter.TypedExpr

set_option autoImplicit false

namespace RowFilter.TypedExpr

/-! ## Induction on direct parts -/

/-- A property that passes from the direct parts of a node to the node holds of
every tree. -/
@[elab_as_elim]
theorem children_induction {motive : TypedExpr → Prop}
    (step : ∀ e : TypedExpr, (∀ c ∈ e.children, motive c) → motive e) (e : TypedExpr) :
    motive e := by
  -- the second motive is the one for the lists that a node nests through
  refine @TypedExpr.rec motive (fun es => ∀ c ∈ es, motive c) ?_ ?_ ?_ ?_ ?_ ?_ ?_ ?_ e
  · intro type value
    exact step _ (by simp [children])
  · intro type name
    exact step _ (by simp [children])
  · intro type operand field ih
    exact step _ (by simpa [children] using ih)
  · intro type function arguments ih
    exact step _ (by simpa [children] using ih)
  · intro type receiver function arguments ih ihs
    exact step _ (by simpa [children] using ⟨ih, ihs⟩)
  · intro type elements ih
    exact step _ (by simpa [children] using ih)
  · simp
  · intro c rest ih ihs
    simpa using ⟨ih, ihs⟩

/-! ## Parts -/

/-- `Part n e`: the tree `n` stands in `e`, at its root or anywhere below it. -/
inductive Part : TypedExpr → TypedExpr → Prop where
  | root (e : TypedExpr) : Part e e
  | inside {n c e : TypedExpr} (hc : c ∈ e.children) (hn : Part n c) : Part n e

/-- A part is the whole tree or a part of one of its direct parts. -/
theorem part_iff {n e : TypedExpr} : Part n e ↔ n = e ∨ ∃ c ∈ e.children, Part n c := by
  constructor
  · intro h
    cases h with
    | root => exact Or.inl rfl
    | inside hc hn => exact Or.inr ⟨_, hc, hn⟩
  · rintro (rfl | ⟨c, hc, hn⟩)
    · exact Part.root n
    · exact Part.inside hc hn

/-- A part of a part is a part. -/
theorem Part.trans {m n e : TypedExpr} (hmn : Part m n) (hne : Part n e) : Part m e := by
  induction hne with
  | root => exact hmn
  | inside hc _ ih => exact Part.inside hc ih

/-! ## Names -/

/-- The field that a node itself names: an identifier its name, a selection the
selected name. -/
def fieldRef? : TypedExpr → Option String
  | .ident _ name => some name
  | .select _ _ field => some field
  | _ => none

/-- Some node of a tree names a field. -/
def RefersTo (e : TypedExpr) (name : String) : Prop :=
  ∃ n, Part n e ∧ n.fieldRef? = some name

/-- A tree refers to what its root names and to what its direct parts refer to. -/
theorem refersTo_iff {e : TypedExpr} {name : String} :
    e.RefersTo name ↔ e.fieldRef? = some name ∨ ∃ c ∈ e.children, c.RefersTo name := by
  constructor
  · rintro ⟨n, hn, hname⟩
    rcases part_iff.mp hn with rfl | ⟨c, hc, hnc⟩
    · exact Or.inl hname
    · exact Or.inr ⟨c, hc, n, hnc, hname⟩
  · rintro (hname | ⟨c, hc, n, hn, hname⟩)
    · exact ⟨e, Part.root e, hname⟩
    · exact ⟨n, Part.inside hc hn, hname⟩

/-- A list mentions what its elements mention, in their order. -/
theorem mentionsOfAll_eq_flatMap (es : List TypedExpr) :
    mentionsOfAll es = es.flatMap mentions := by
  induction es with
  | nil => rw [mentionsOfAll, List.flatMap_nil]
  | cons e rest ih => rw [mentionsOfAll, List.flatMap_cons, ih]

/-- The walk lists a node before its direct parts, and these in their order. -/
theorem mentions_eq (e : TypedExpr) :
    e.mentions = e.fieldRef?.toList ++ e.children.flatMap mentions := by
  cases e <;> simp [mentions, fieldRef?, children, mentionsOfAll_eq_flatMap]

/-- The walk lists exactly the names that some node of the tree has. -/
theorem mem_mentions {e : TypedExpr} {name : String} :
    name ∈ e.mentions ↔ e.RefersTo name := by
  induction e using children_induction with
  | step e ih =>
      rw [mentions_eq, refersTo_iff, List.mem_append, List.mem_flatMap, Option.mem_toList]
      constructor
      · rintro (hname | ⟨c, hc, hname⟩)
        · exact Or.inl hname
        · exact Or.inr ⟨c, hc, (ih c hc).mp hname⟩
      · rintro (hname | ⟨c, hc, hname⟩)
        · exact Or.inl hname
        · exact Or.inr ⟨c, hc, (ih c hc).mpr hname⟩

/-- No name is lost. -/
theorem mem_firstOccurrences {name : String} {names : List String} :
    name ∈ firstOccurrences names ↔ name ∈ names := by
  induction names with
  | nil => rw [firstOccurrences]
  | cons s rest ih =>
      rw [firstOccurrences, List.mem_cons, List.mem_cons, List.mem_filter, ih]
      by_cases hs : name = s
      · simp [hs]
      · simp [hs]

/-- The fields of a tree are the names that occur in it. -/
theorem mem_referencedFields {e : TypedExpr} {name : String} :
    name ∈ e.referencedFields ↔ e.RefersTo name := by
  rw [referencedFields, mem_firstOccurrences, mem_mentions]

/-! ## Depth -/

/-- A tree has a root. -/
theorem depth_pos (e : TypedExpr) : 0 < e.depth := by
  cases e <;> simp only [depth] <;> omega

/-- No element is deeper than the deepest one. -/
theorem depth_le_deepest {c : TypedExpr} {es : List TypedExpr} (hc : c ∈ es) :
    c.depth ≤ deepest es := by
  induction es with
  | nil => cases hc
  | cons e rest ih =>
      rw [deepest]
      rcases List.mem_cons.mp hc with rfl | hrest
      · exact Nat.le_max_left _ _
      · exact Nat.le_trans (ih hrest) (Nat.le_max_right _ _)

/-- A node is deeper than its direct parts. -/
theorem depth_lt_of_mem_children {c e : TypedExpr} (hc : c ∈ e.children) :
    c.depth < e.depth := by
  cases e with
  | literal | ident => cases hc
  | select type operand field =>
      obtain rfl := List.mem_singleton.mp hc
      rw [depth]
      omega
  | call type function arguments =>
      have h : c.depth ≤ deepest arguments := depth_le_deepest hc
      rw [depth]
      omega
  -- the receiver is one more child in front of the arguments
  | method type receiver function arguments =>
      rw [depth]
      rcases List.mem_cons.mp hc with rfl | hc
      · omega
      · have h := depth_le_deepest hc
        omega
  | list type elements =>
      have h : c.depth ≤ deepest elements := depth_le_deepest hc
      rw [depth]
      omega

end RowFilter.TypedExpr
