/-
Conversions respect their limits.

Limits are checked in four places: the length of the source, the depth of the typed tree,
the size of a list and the kind of a literal. Only the first two are about the whole of
what is converted. The others are met by leaves one at a time, so what they say of a condition
is said of its parts: every part of a derived condition is derived itself, and what is asked
of lists and values is read off the leaf. The height of the condition is bounded along the
derivation, in which every connective of the condition takes a node of the tree.
-/
import RowFilter.Proofs.Condition.Columns
import RowFilter.Proofs.Conversion.Pipeline

set_option autoImplicit false

namespace RowFilter

/-! ## Bounds -/

namespace Sql.Predicate

/-- What a condition is within: its nesting, the sizes of its lists and the kinds of
values that are bound. -/
structure Bounded (maxHeight maxInSize : Nat) (p : Predicate) : Prop where
  height_le : p.height ≤ maxHeight
  inSize : ∀ column values, Part (.isIn column values) p →
    1 ≤ values.length ∧ values.length ≤ maxInSize
  values : ∀ v ∈ p.boundValues, v ≠ .null ∧ ∀ bs, v ≠ .bytes bs

end Sql.Predicate

open Sql (Predicate)
open Sql.Predicate (Bounded Part)

/-! ## Derived conditions -/

namespace Condition

variable {schema : Schema} {limits : Limits} {e : TypedExpr} {p : Predicate}

/-- A leaf is one level high. -/
theorem Leaf.height_eq (h : Leaf schema limits e p) : p.height = 1 := by
  cases h <;> rfl

/-- A condition is not higher than its tree is deep. -/
theorem Derives.height_le (h : Derives schema limits e p) : p.height ≤ e.depth := by
  induction h with
  | leaf h =>
      rw [h.height_eq]
      exact TypedExpr.depth_pos _
  | both happ _ _ ihleft ihright | either happ _ _ ihleft ihright =>
      -- the node of the tree is above both sides, as the connective is
      have hleft := TypedExpr.depth_lt_of_mem_children (happ.arguments_subset _ List.mem_cons_self)
      have hright := TypedExpr.depth_lt_of_mem_children
        (happ.arguments_subset _ (List.mem_cons_of_mem _ List.mem_cons_self))
      simp only [Predicate.height]
      omega
  -- one level more on both sides
  | negation happ _ ih =>
      have hinner := TypedExpr.depth_lt_of_mem_children (happ.arguments_subset _ List.mem_cons_self)
      simp only [Predicate.height]
      omega

/-- A membership has a value for each element of a list that is neither empty nor too
long. -/
theorem Leaf.inSize {column : String} {values : List Value}
    (h : Leaf schema limits e (.isIn column values)) :
    1 ≤ values.length ∧ values.length ≤ limits.maxInSize := by
  cases h with
  | membership happ hfield hne hsize hes hvalues =>
      -- there is a value for every element
      have hlength := congrArg List.length hes
      rw [List.length_map, List.length_map] at hlength
      rw [← hlength]
      exact ⟨List.length_pos_iff.mpr hne, hsize⟩

/-- What a leaf binds is neither `null` nor bytes. -/
theorem Leaf.values {v : Value} (h : Leaf schema limits e p) (hv : v ∈ p.boundValues) :
    v ≠ .null ∧ ∀ bs, v ≠ .bytes bs := by
  cases h with
  | constant | nullCheck | never => cases hv
  | field type name =>
      -- a field by itself is compared with a truth value
      obtain rfl := List.mem_singleton.mp hv
      simp
  | comparison happ hfield hright hvalue =>
      obtain rfl := List.mem_singleton.mp hv
      exact ⟨hvalue.notNull, hvalue.notBytes⟩
  | membership happ hfield hne hsize hes hvalues =>
      exact ⟨(hvalues v hv).notNull, (hvalues v hv).notBytes⟩
  | test =>
      obtain rfl := List.mem_singleton.mp hv
      simp

/-- **Derived conditions are bounded** by the depth of their trees and the limit on
lists. -/
theorem Derives.bounded (h : Derives schema limits e p) :
    p.Bounded e.depth limits.maxInSize where
  height_le := h.height_le
  inSize column values hpart := by
    -- a membership joins nothing, so it was derived from a leaf of the tree
    obtain ⟨n, -, hn⟩ := h.of_part hpart
    exact (hn.leaf_of_children_eq rfl).inSize
  values v hv := by
    obtain ⟨q, hpart, hchildren, hvq⟩ := Predicate.exists_part_of_mem_boundValues hv
    obtain ⟨n, -, hn⟩ := h.of_part hpart
    exact (hn.leaf_of_children_eq hchildren).values hvq

end Condition

/-! ## Conversions -/

namespace Converter

/-- **Conversions respect every limit**, whatever compiler is brought along. The source is
not too long; the depth that is reported is that of the typed tree, and is not too great;
and the condition is bounded by this depth and the limit on lists. -/
theorem run_respects_limits {c : Converter} {source : String} {roles : Option (List String)}
    {conversion : Conversion} (h : (c.run source roles).result = .ok conversion) :
    source.length ≤ c.limits.maxLength
      ∧ (∃ tree, c.compiler.compile source = .ok tree ∧ conversion.depth = tree.depth)
      ∧ conversion.depth ≤ c.limits.maxDepth
      ∧ conversion.predicate.Bounded conversion.depth c.limits.maxInSize := by
  obtain ⟨tree, hadmits, -, hcompile, hdepth⟩ := run_eq_ok_iff.mp h
  refine ⟨hadmits.length_le, ⟨tree, hadmits.compiles, hdepth⟩, ?_, ?_⟩
  · rw [hdepth]
    exact hadmits.depth_le
  · rw [hdepth]
    exact (Condition.derives_of_compile hcompile).bounded

/-! ### Limits that are just met -/

/-- A converter with one field and limits that leave no room. -/
def tightConverter : Converter :=
  withCompiler
    { Config.empty with
      fields := [⟨"n", .int, none⟩]
      maxExpressionLength := 14
      maxExpressionDepth := 4
      maxInClauseSize := 2 }
    (.environment ⟨[("n", .int)]⟩)

/-- The length, the depth and the size of the list are what is allowed and no less. -/
theorem run_respects_limits_tight :
    tightConverter.limits = ⟨"!(n in [1, 2])".length, 4, 2⟩
      ∧ (tightConverter.run "!(n in [1, 2])" none).result
          = .ok ⟨.not (.isIn "n" [.int 1, .int 2]), 4⟩
      ∧ (∃ tree, tightConverter.compiler.compile "!(n in [1, 2])" = .ok tree ∧ tree.depth = 4)
      ∧ (Predicate.not (.isIn "n" [.int 1, .int 2])).Bounded 4 2 := by
  -- nothing is left over: the source is as long and the tree as deep as is allowed
  have hlimits : tightConverter.limits = ⟨"!(n in [1, 2])".length, 4, 2⟩ := by decide
  have hconverts : (tightConverter.run "!(n in [1, 2])" none).result
      = .ok ⟨.not (.isIn "n" [.int 1, .int 2]), 4⟩ :=
    eq_ok_of_toOption (by decide +kernel)
  obtain ⟨-, ⟨tree, htree, hdepth⟩, -, hbounded⟩ := run_respects_limits hconverts
  exact ⟨hlimits, hconverts, ⟨tree, htree, hdepth.symm⟩, hbounded⟩

end Converter

end RowFilter
