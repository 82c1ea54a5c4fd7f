/-
The stages of a conversion, seen from its outcome.

A converter checks length, compilation, type and depth, then the roles, and only
then builds a condition. `Admits` puts the four checks that do not depend on roles
into one statement about the source and its tree. What a conversion returns is then
decided by two questions about this tree: whether a field of it is restricted, and
what it is as a condition.
-/
import RowFilter.Conversion.Converter

set_option autoImplicit false

namespace RowFilter.Converter

/-- `c.Admits source tree`: the source passes the checks that do not depend on roles,
and `tree` is its typed tree. -/
structure Admits (c : Converter) (source : String) (tree : TypedExpr) : Prop where
  length_le : source.length ≤ c.limits.maxLength
  compiles : c.compiler.compile source = .ok tree
  boolean : tree.type = .bool
  depth_le : tree.depth ≤ c.limits.maxDepth

variable {c : Converter} {source : String}

/-- A result whose value is known is a success. -/
theorem eq_ok_of_toOption {ε α : Type} {r : Except ε α} {a : α} (h : r.toOption = some a) :
    r = .ok a := by
  rcases r with e | b
  · cases h
  · rw [Option.some.inj h]

/-- The length of a source is taken if it is not above the limit. -/
theorem checkLength_eq_ok_iff {l : Limits} {length : Nat} :
    l.checkLength source = .ok length ↔ source.length ≤ l.maxLength ∧ length = source.length := by
  unfold Limits.checkLength
  by_cases h : l.maxLength < source.length
  · simp [h, Nat.not_le_of_lt h]
  · simp [h, Nat.le_of_not_lt h, eq_comm]

theorem checkDepth_eq_ok_iff {l : Limits} {depth : Nat} :
    l.checkDepth depth = .ok () ↔ depth ≤ l.maxDepth := by
  unfold Limits.checkDepth
  by_cases h : l.maxDepth < depth
  · simp [h]
  · simp [h, Nat.le_of_not_lt h]

/-- The checks succeed on the sources that are admitted, with their trees. -/
theorem check_eq_ok_iff {checked : Checked} :
    c.check source = .ok checked ↔
      c.Admits source checked.tree
        ∧ checked.length = source.length ∧ checked.depth = checked.tree.depth := by
  unfold check
  constructor
  · intro h
    -- one check after the other; where one fails there is nothing left to show
    rcases hlength : c.limits.checkLength source with why | length
    · simp [hlength] at h
    · obtain ⟨hle, rfl⟩ := checkLength_eq_ok_iff.mp hlength
      rcases htree : c.compiler.compile source with diagnostics | tree
      · simp [hlength, htree] at h
      · simp only [hlength, htree] at h
        by_cases htype : tree.type = .bool
        · rw [if_neg (by simpa using htype)] at h
          rcases hdepth : c.limits.checkDepth tree.depth with why | u
          · simp [hdepth] at h
          · simp only [hdepth, Except.ok.injEq] at h
            subst h
            exact ⟨⟨hle, htree, htype, checkDepth_eq_ok_iff.mp hdepth⟩, rfl, rfl⟩
        · simp [htype] at h
  · obtain ⟨tree, length, depth⟩ := checked
    rintro ⟨hadmits, hlength, hdepth⟩
    dsimp only at hadmits hlength hdepth
    rw [hlength, hdepth, checkLength_eq_ok_iff.mpr ⟨hadmits.length_le, rfl⟩]
    simp [hadmits.compiles, hadmits.boolean, checkDepth_eq_ok_iff.mpr hadmits.depth_le]

/-- An admitted source passes the checks. -/
theorem Admits.check_eq {tree : TypedExpr} (h : c.Admits source tree) :
    c.check source = .ok ⟨tree, source.length, tree.depth⟩ :=
  check_eq_ok_iff.mpr ⟨h, rfl, rfl⟩

/-! ## Stages -/

variable {roles : Option (List String)} {tree : TypedExpr}

/-- Behind a check that fails nothing is done and nothing is told. -/
theorem attempt_of_check_eq_error {why : Rejection} (h : c.check source = .error why) :
    c.attempt source roles = .quiet (.error (.rejected why)) := by
  simp only [attempt, h]

/-- The conversion of an admitted source ends at a restricted field, if its tree has one. -/
theorem Admits.attempt_of_restricted {rs : List String} {field : String}
    (hadmits : c.Admits source tree) (hrestricted : c.restricted? tree roles = some (rs, field)) :
    c.attempt source roles
      = ⟨.error (.rejected (.restrictedField rs field)),
          c.complexity ⟨tree, source.length, tree.depth⟩ ++ [.unauthorized field rs]⟩ := by
  simp only [attempt, hadmits.check_eq, authorize, hrestricted]
  rfl

/-- Otherwise what it comes to, and what else is told, is settled by building the condition. -/
theorem Admits.attempt_of_unrestricted (hadmits : c.Admits source tree)
    (hrestricted : c.restricted? tree roles = none) :
    c.attempt source roles
      = ⟨(Condition.compile c.schema c.limits tree).map fun predicate => ⟨predicate, tree.depth⟩,
          c.complexity ⟨tree, source.length, tree.depth⟩
            ++ (Condition.build c.schema c.limits tree).events⟩ := by
  simp only [attempt, hadmits.check_eq, authorize, hrestricted]
  rfl

/-! ## Outcomes -/

/-- A conversion succeeds if the source is admitted, no field of its tree is
restricted and the tree is a condition; it returns this condition. -/
theorem run_eq_ok_iff {conversion : Conversion} :
    (c.run source roles).result = .ok conversion ↔
      ∃ tree, c.Admits source tree ∧ c.restricted? tree roles = none
        ∧ Condition.compile c.schema c.limits tree = .ok conversion.predicate
        ∧ conversion.depth = tree.depth := by
  rw [run]
  constructor
  · intro h
    -- each stage that fails ends the conversion without a result
    rcases hcheck : c.check source with why | checked
    · rw [attempt_of_check_eq_error hcheck] at h
      cases h
    · have hadmits := (check_eq_ok_iff.mp hcheck).1
      rcases hrestricted : c.restricted? checked.tree roles with _ | ⟨rs, field⟩
      · rw [hadmits.attempt_of_unrestricted hrestricted] at h
        -- what is left is the building of the condition, and its success is that of the conversion
        rcases hcompile : Condition.compile c.schema c.limits checked.tree with e | p
        · simp [hcompile, Except.map] at h
        · simp only [hcompile, Except.map, Except.ok.injEq] at h
          subst h
          exact ⟨checked.tree, hadmits, hrestricted, hcompile, rfl⟩
      · rw [hadmits.attempt_of_restricted hrestricted] at h
        cases h
  · rintro ⟨tree, hadmits, hrestricted, hcompile, hdepth⟩
    rw [hadmits.attempt_of_unrestricted hrestricted, hcompile, ← hdepth]
    rfl

/-- A restricted field of an admitted source decides the outcome. -/
theorem run_of_restricted {rs : List String} {field : String}
    (hadmits : c.Admits source tree) (hrestricted : c.restricted? tree roles = some (rs, field)) :
    (c.run source roles).result = .error (.rejected (.restrictedField rs field)) := by
  rw [run, hadmits.attempt_of_restricted hrestricted]

end RowFilter.Converter
