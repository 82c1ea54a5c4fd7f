/-
Names and the columns behind them.

Names come to a schema from two sides. The name of a declared field stands for the
column that is configured for it; any other name stands for itself. As long as no two
fields share a name or a column, two names of one kind have one column only if they are
one name. Across the two kinds columns can meet, in exactly one way: a name that is not
declared may be spelled like the column of a field.
-/
import Mathlib.Data.List.Nodup
import RowFilter.Schema

set_option autoImplicit false

namespace RowFilter.Schema

/-- No field has this name. -/
def Undeclared (s : Schema) (name : String) : Prop := ∀ f ∈ s.fields, f.name ≠ name

/-- `s.Spells key name`: the name `key`, which is not declared, is spelled like the
column of the field `name`. -/
def Spells (s : Schema) (key name : String) : Prop :=
  s.Undeclared key ∧ ∃ f ∈ s.fields, f.name = name ∧ f.column = key

/-- No two fields have the same name, and no two have the same column. -/
structure Distinct (s : Schema) : Prop where
  names : (s.fields.map Field.name).Nodup
  columns : (s.fields.map Field.column).Nodup

variable {s : Schema}

/-! ## Looking up names -/

/-- What is found is a field of the name that was asked for. -/
theorem mem_of_find? {name : String} {f : Field} (h : s.find? name = some f) :
    f ∈ s.fields ∧ f.name = name := by
  have hmem := List.mem_of_find?_eq_some h
  have hname := List.find?_some h
  exact ⟨List.mem_reverse.mp hmem, of_decide_eq_true hname⟩

/-- Nothing is found exactly if no field has the name. -/
theorem find?_eq_none_iff {name : String} : s.find? name = none ↔ s.Undeclared name := by
  simp [find?, Undeclared]

/-- A declared name is found if no other field has it. -/
theorem find?_of_mem (h : (s.fields.map Field.name).Nodup) {f : Field} (hf : f ∈ s.fields) :
    s.find? f.name = some f := by
  -- the last field of the name is found, and there is one only
  rcases hfind : s.find? f.name with _ | g
  · exact absurd rfl (find?_eq_none_iff.mp hfind f hf)
  · obtain ⟨hg, hname⟩ := mem_of_find? hfind
    rw [List.inj_on_of_nodup_map h hg hf hname]

/-! ## Columns -/

/-- A name stands for the column of its field, or is not declared and stands for
itself. -/
theorem resolveColumn_cases (s : Schema) (name : String) :
    (∃ f ∈ s.fields, f.name = name ∧ s.resolveColumn name = f.column)
      ∨ (s.Undeclared name ∧ s.resolveColumn name = name) := by
  rcases hfind : s.find? name with _ | f
  · exact Or.inr ⟨find?_eq_none_iff.mp hfind, by rw [resolveColumn, hfind]⟩
  · obtain ⟨hf, hname⟩ := mem_of_find? hfind
    exact Or.inl ⟨f, hf, hname, by rw [resolveColumn, hfind]⟩

/-- With distinct names no field hides another one, so each name leads to its own column. -/
theorem resolveColumn_of_mem (h : (s.fields.map Field.name).Nodup) {f : Field}
    (hf : f ∈ s.fields) : s.resolveColumn f.name = f.column := by
  rw [resolveColumn, find?_of_mem h hf]

/-- A name of no field is taken for a column. -/
theorem resolveColumn_of_undeclared {name : String} (h : s.Undeclared name) :
    s.resolveColumn name = name := by
  rw [resolveColumn, find?_eq_none_iff.mpr h]

/-- A name that spells the column of a field has that column. -/
theorem Spells.resolveColumn_eq (h : (s.fields.map Field.name).Nodup) {key name : String}
    (hspells : s.Spells key name) : s.resolveColumn key = s.resolveColumn name := by
  obtain ⟨hkey, f, hf, rfl, hcolumn⟩ := hspells
  rw [resolveColumn_of_undeclared hkey, resolveColumn_of_mem h hf, hcolumn]

/-- **When names share a column.** Where no two fields share a name or a column, two
names have one column exactly if they are one name or one of them spells the column of
the other. -/
theorem resolveColumn_eq_iff (h : s.Distinct) {a b : String} :
    s.resolveColumn a = s.resolveColumn b ↔ a = b ∨ s.Spells a b ∨ s.Spells b a := by
  constructor
  · intro hab
    -- each name is declared or stands for itself
    rcases s.resolveColumn_cases a with ⟨f, hf, hfa, hca⟩ | ⟨ha, hca⟩ <;>
      rcases s.resolveColumn_cases b with ⟨g, hg, hgb, hcb⟩ | ⟨hb, hcb⟩ <;>
      rw [hca, hcb] at hab
    · -- two fields with one column are one field
      have hfg := List.inj_on_of_nodup_map h.columns hf hg hab
      exact Or.inl (by rw [← hfa, ← hgb, hfg])
    · exact Or.inr (Or.inr ⟨hb, f, hf, hfa, hab⟩)
    · exact Or.inr (Or.inl ⟨ha, g, hg, hgb, hab.symm⟩)
    · exact Or.inl hab
  · rintro (rfl | hspells | hspells)
    · rfl
    · exact hspells.resolveColumn_eq h.names
    · exact (hspells.resolveColumn_eq h.names).symm

end RowFilter.Schema
