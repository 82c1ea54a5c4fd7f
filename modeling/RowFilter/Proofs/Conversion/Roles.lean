/-
What roles change about a conversion.

Roles are looked at in one place only, between the checks of the source and the condition that
is built from its tree, and all they can do there is to stop the conversion. So whatever the
roles are, a conversion either comes out as it does without any, or it fails for a restricted
field. Which of the two it is depends on the roles as a set, and a field that some roles may use
may be used by more roles as well. Both facts are read off `failsWith_unauthorizedField_iff`,
which says when the roles stop a conversion; everything else is about conversions that are not
stopped, and these do not depend on roles at all.

That nothing else is reported as a restricted field is seen from the codes. The checks of the
source have codes of their own, and so have the refusals of conditions.
-/
import RowFilter.Proofs.Condition.Refusals
import RowFilter.Proofs.Conversion.Authorization
import RowFilter.Proofs.Conversion.Pipeline

set_option autoImplicit false

namespace RowFilter

/-! ## More roles -/

namespace Policy

variable {p : Policy} {roles more : List String}

/-- Who may use a field may use it with more roles too. -/
theorem isAuthorized_mono {field : String} (hmore : roles ⊆ more)
    (h : p.isAuthorized field roles = true) : p.isAuthorized field more = true := by
  unfold isAuthorized at h ⊢
  rw [Bool.or_eq_true] at h ⊢
  -- a public field is open to everybody, another one to the roles of its list
  rcases h with hpublic | hroles
  · exact Or.inl hpublic
  · refine Or.inr ?_
    rcases hallowed : p.rolesFor? field with _ | allowed
    · simp [hallowed] at hroles
    · simp only [hallowed, List.any_eq_true] at hroles ⊢
      obtain ⟨role, hrole, hmem⟩ := hroles
      exact ⟨role, hmore hrole, hmem⟩

/-- Where the policy finds nothing, it finds nothing for more roles. -/
theorem firstUnauthorized?_mono {e : TypedExpr} (hmore : roles ⊆ more)
    (h : p.firstUnauthorized? e roles = none) : p.firstUnauthorized? e more = none := by
  rw [firstUnauthorized?_eq_none_iff] at h ⊢
  intro field hfield
  exact isAuthorized_mono hmore (h field hfield)

end Policy

namespace Converter

variable {c : Converter} {source : String} {tree : TypedExpr} {roles more : List String}

/-- No field is restricted by a policy that is switched off. -/
theorem restricted?_of_disabled (h : c.policy.isEnabled = false) :
    c.restricted? tree (some roles) = none := by
  simp [restricted?, h]

/-- What some roles are let through with, more roles are too. -/
theorem restricted?_mono (hmore : roles ⊆ more) (h : c.restricted? tree (some roles) = none) :
    c.restricted? tree (some more) = none := by
  by_cases henabled : c.policy.isEnabled = true
  · rw [restricted?_of_isEnabled henabled, Option.map_eq_none_iff] at h ⊢
    exact Policy.firstUnauthorized?_mono hmore h
  · exact restricted?_of_disabled (by simpa using henabled)

/-! ## Codes of failures -/

/-- A conversion fails with a code. -/
def FailsWith (code : ErrorCode) (result : Except ConvertError Conversion) : Prop :=
  ∃ failure, result = .error failure ∧ failure.code? = some code

/-- The codes of the checks that come before the roles: of length, compilation, type and
depth. -/
def checkCodes : List ErrorCode := [.tooLong, .invalidSyntax, .invalidType, .tooComplex]

/-- What is told of a result to the outside, a failure by its code. -/
def outcome (result : Except ConvertError Conversion) : Except (Option ErrorCode) Conversion :=
  result.mapError ConvertError.code?

/-- A failure is told to the outside by its code alone. -/
theorem FailsWith.outcome_eq {code : ErrorCode} {result : Except ConvertError Conversion}
    (h : FailsWith code result) : outcome result = .error (some code) := by
  obtain ⟨failure, rfl, hcode⟩ := h
  have houtcome : outcome (.error failure) = .error failure.code? := rfl
  rw [houtcome, hcode]

/-- The check of the length has one code. -/
theorem code_eq_of_checkLength {l : Limits} {why : Rejection}
    (h : l.checkLength source = .error why) : why.code = .tooLong := by
  unfold Limits.checkLength at h
  split at h
  · obtain rfl := Except.error.inj h
    rfl
  · cases h

theorem code_eq_of_checkDepth {l : Limits} {depth : Nat} {why : Rejection}
    (h : l.checkDepth depth = .error why) : why.code = .tooComplex := by
  unfold Limits.checkDepth at h
  split at h
  · obtain rfl := Except.error.inj h
    rfl
  · cases h

/-- A source that does not pass the checks has the code of one of them. -/
theorem code_mem_of_check {why : Rejection} (h : c.check source = .error why) :
    why.code ∈ checkCodes := by
  unfold check at h
  rcases hlength : c.limits.checkLength source with why' | length
  · simp only [hlength, Except.error.injEq] at h
    subst h
    rw [code_eq_of_checkLength hlength]
    decide
  · simp only [hlength] at h
    rcases hcompile : c.compiler.compile source with diagnostics | t
    · simp only [hcompile, Except.error.injEq] at h
      subst h
      rw [Rejection.code]
      decide
    · simp only [hcompile] at h
      -- the checks in their order, each with its own code
      by_cases htype : t.type ≠ .bool
      · rw [if_pos htype] at h
        obtain rfl := Except.error.inj h
        rw [Rejection.code]
        decide
      · rw [if_neg htype] at h
        rcases hdepth : c.limits.checkDepth t.depth with why' | u
        · simp only [hdepth, Except.error.injEq] at h
          subst h
          rw [code_eq_of_checkDepth hdepth]
          decide
        · simp [hdepth] at h

/-! ## Stopped and not stopped -/

/-- A source is admitted, or it fails in the same way for all roles and without any. -/
theorem admits_or_fails (c : Converter) (source : String) :
    (∃ tree, c.Admits source tree)
      ∨ ∃ why, why.code ∈ checkCodes
          ∧ ∀ roles, (c.run source roles).result = .error (.rejected why) := by
  rcases hcheck : c.check source with why | checked
  · refine Or.inr ⟨why, code_mem_of_check hcheck, fun roles => ?_⟩
    rw [run, attempt_of_check_eq_error hcheck]
    rfl
  · exact Or.inl ⟨checked.tree, (check_eq_ok_iff.mp hcheck).1⟩

/-- Roles that no field of the tree is closed to make no difference. -/
theorem run_of_unrestricted {roles : Option (List String)} (hadmits : c.Admits source tree)
    (h : c.restricted? tree roles = none) :
    (c.run source roles).result = (c.run source none).result := by
  have hnone : c.restricted? tree none = none := rfl
  rw [run, run, hadmits.attempt_of_unrestricted h, hadmits.attempt_of_unrestricted hnone]

/-- An admitted source that fails without roles fails as a condition. -/
theorem compile_of_convert {failure : ConvertError} (hadmits : c.Admits source tree)
    (h : c.convert source = .error failure) :
    Condition.compile c.schema c.limits tree = .error failure := by
  have hnone : c.restricted? tree none = none := rfl
  rw [convert, run, hadmits.attempt_of_unrestricted hnone] at h
  rcases hcompile : Condition.compile c.schema c.limits tree with e | p
  · simp only [hcompile, Except.map, Except.error.injEq] at h
    rw [h]
  · simp [hcompile, Except.map] at h

/-- So it fails with the code of a refused condition, if with any. -/
theorem code_mem_of_admits {failure : ConvertError} {code : ErrorCode}
    (hadmits : c.Admits source tree) (h : c.convert source = .error failure)
    (hcode : failure.code? = some code) : code ∈ Condition.refusalCodes :=
  Condition.code_mem_of_compile (compile_of_convert hadmits h) hcode

/-- Without roles, the code of a check is the code of a source that is not admitted. -/
theorem failsWith_checkCodes_iff :
    (∃ code ∈ checkCodes, FailsWith code (c.convert source)) ↔ ∀ tree, ¬ c.Admits source tree := by
  constructor
  · rintro ⟨code, hmem, failure, hfailure, hcode⟩ tree hadmits
    -- the codes of refused conditions are none of these
    have hrefusal := code_mem_of_admits hadmits hfailure hcode
    revert hmem hrefusal
    cases code <;> decide
  · intro hnone
    rcases c.admits_or_fails source with ⟨tree, hadmits⟩ | ⟨why, hmem, hfails⟩
    · exact absurd hadmits (hnone tree)
    · exact ⟨why.code, hmem, .rejected why, hfails none, rfl⟩

/-- Without roles no field is restricted. -/
theorem not_failsWith_convert : ¬ FailsWith .unauthorizedField (c.convert source) := by
  rintro ⟨failure, hfailure, hcode⟩
  rcases c.admits_or_fails source with ⟨tree, hadmits⟩ | ⟨why, hmem, hfails⟩
  · exact absurd (code_mem_of_admits hadmits hfailure hcode) (by decide)
  · obtain rfl := Except.error.inj ((hfails none).symm.trans hfailure)
    rw [Option.some.inj hcode] at hmem
    exact absurd hmem (by decide)

/-- A conversion that is not stopped by a restricted field is the one without roles. -/
theorem convertWithRoles_of_not_failsWith
    (h : ¬ FailsWith .unauthorizedField (c.convertWithRoles source roles)) :
    c.convertWithRoles source roles = c.convert source := by
  rcases c.admits_or_fails source with ⟨tree, hadmits⟩ | ⟨why, -, hfails⟩
  · -- a restricted field would be the failure that is excluded
    rcases hrestricted : c.restricted? tree (some roles) with _ | ⟨rs, field⟩
    · exact run_of_unrestricted hadmits hrestricted
    · exact absurd ⟨_, run_of_restricted hadmits hrestricted, rfl⟩ h
  · exact (hfails (some roles)).trans (hfails none).symm

/-- **When roles stop a conversion.** A conversion fails for a restricted field exactly if the
source passes all checks and its tree has a field that these roles may not use. -/
theorem failsWith_unauthorizedField_iff :
    FailsWith .unauthorizedField (c.convertWithRoles source roles) ↔
      ∃ tree, c.Admits source tree ∧ c.restricted? tree (some roles) ≠ none := by
  constructor
  · intro h
    rcases c.admits_or_fails source with ⟨tree, hadmits⟩ | ⟨why, -, hfails⟩
    · -- were nothing restricted, the result would be the one without roles
      refine ⟨tree, hadmits, fun hnone => ?_⟩
      rw [convertWithRoles, run_of_unrestricted hadmits hnone] at h
      exact not_failsWith_convert h
    · rw [convertWithRoles, (hfails (some roles)).trans (hfails none).symm] at h
      exact absurd h not_failsWith_convert
  · rintro ⟨tree, hadmits, hrestricted⟩
    obtain ⟨⟨rs, field⟩, hfound⟩ := Option.ne_none_iff_exists'.mp hrestricted
    exact ⟨_, run_of_restricted hadmits hfound, rfl⟩

/-- What stops more roles stops fewer. -/
theorem failsWith_antitone (hmore : roles ⊆ more)
    (h : FailsWith .unauthorizedField (c.convertWithRoles source more)) :
    FailsWith .unauthorizedField (c.convertWithRoles source roles) := by
  rw [failsWith_unauthorizedField_iff] at h ⊢
  obtain ⟨tree, hadmits, hrestricted⟩ := h
  exact ⟨tree, hadmits, fun hnone => hrestricted (restricted?_mono hmore hnone)⟩

/-! ## Roles only remove results -/

/-- **Roles only remove results, and more roles remove no more.** A policy that is switched off
leaves every result as it is without roles. One that is enabled leaves it, or the conversion
fails for a restricted field, which it never does where the source fails one of the checks
before. What does not fail for a restricted field comes out the same with more roles; and roles
that are the same up to order and repetition have the same outcome. -/
theorem convertWithRoles_only_removes (c : Converter) (source : String)
    (roles more : List String) (hmore : roles ⊆ more) :
    (c.policy.isEnabled = false → c.convertWithRoles source roles = c.convert source)
      ∧ (c.policy.isEnabled = true →
          c.convertWithRoles source roles = c.convert source
            ∨ FailsWith .unauthorizedField (c.convertWithRoles source roles))
      ∧ ((∃ code ∈ checkCodes, FailsWith code (c.convert source)) →
          ¬ FailsWith .unauthorizedField (c.convertWithRoles source roles))
      ∧ (¬ FailsWith .unauthorizedField (c.convertWithRoles source roles) →
          c.convertWithRoles source more = c.convertWithRoles source roles)
      ∧ (more ⊆ roles →
          outcome (c.convertWithRoles source more)
            = outcome (c.convertWithRoles source roles)) := by
  have hsame : ¬ FailsWith .unauthorizedField (c.convertWithRoles source roles) →
      c.convertWithRoles source more = c.convertWithRoles source roles := by
    intro h
    -- what does not stop the roles does not stop more of them
    have hfree : ¬ FailsWith .unauthorizedField (c.convertWithRoles source more) :=
      fun hstopped => h (failsWith_antitone hmore hstopped)
    rw [convertWithRoles_of_not_failsWith hfree, convertWithRoles_of_not_failsWith h]
  refine ⟨?_, ?_, ?_, hsame, ?_⟩
  · intro hdisabled
    apply convertWithRoles_of_not_failsWith
    rw [failsWith_unauthorizedField_iff]
    rintro ⟨tree, -, hrestricted⟩
    exact hrestricted (restricted?_of_disabled hdisabled)
  · intro _
    by_cases hstopped : FailsWith .unauthorizedField (c.convertWithRoles source roles)
    · exact Or.inr hstopped
    · exact Or.inl (convertWithRoles_of_not_failsWith hstopped)
  · intro hcheck
    rw [failsWith_unauthorizedField_iff]
    rintro ⟨tree, hadmits, -⟩
    exact failsWith_checkCodes_iff.mp hcheck tree hadmits
  · intro hback
    by_cases hstopped : FailsWith .unauthorizedField (c.convertWithRoles source roles)
    · -- both fail with the code, though their reasons name different roles
      have hmoreStopped := failsWith_antitone hback hstopped
      rw [hmoreStopped.outcome_eq, hstopped.outcome_eq]
    · rw [hsame hstopped]

/-- A converter like `payConverter`, with other text to compile or another policy. -/
def payConverterWith (compile : String → Except (List Diagnostic) TypedExpr) (policy : Policy) :
    Converter :=
  { payConverter with compiler := .custom compile, policy := policy }

/-- The pay may be filtered by with one role among several, and not without; a text that does
not compile fails in its own way for everybody; and with the policy switched off nobody needs a
role. -/
theorem convertWithRoles_only_removes_pay :
    ["hr"] ⊆ ["ops", "hr", "ops"] ∧ ["ops", "hr", "ops"] ⊆ ["hr", "ops"]
      ∧ payConverter.policy.isEnabled = true
      ∧ (payConverter.convertWithRoles "" [] = payConverter.convert ""
          ∨ FailsWith .unauthorizedField (payConverter.convertWithRoles "" []))
      ∧ ¬ FailsWith .unauthorizedField (payConverter.convertWithRoles "" ["hr"])
      ∧ payConverter.convertWithRoles "" ["ops", "hr", "ops"]
          = payConverter.convertWithRoles "" ["hr"]
      ∧ outcome (payConverter.convertWithRoles "" ["ops", "hr", "ops"])
          = outcome (payConverter.convertWithRoles "" ["hr", "ops"])
      ∧ ¬ FailsWith .unauthorizedField
          ((payConverterWith (fun _ => .error []) payConverter.policy).convertWithRoles "" [])
      ∧ (payConverterWith (fun _ => .ok payFilter) ⟨[], []⟩).convertWithRoles "" []
          = (payConverterWith (fun _ => .ok payFilter) ⟨[], []⟩).convert "" := by
  have hmore : ["hr"] ⊆ ["ops", "hr", "ops"] := by decide
  have hback : ["ops", "hr", "ops"] ⊆ ["hr", "ops"] := by decide
  have hfree : ¬ FailsWith .unauthorizedField (payConverter.convertWithRoles "" ["hr"]) := by
    rintro ⟨failure, hfailure, -⟩
    cases hfailure
  obtain ⟨-, hremoves, -, -, -⟩ := convertWithRoles_only_removes payConverter "" [] [] (by simp)
  obtain ⟨-, -, -, hmono, -⟩ := convertWithRoles_only_removes payConverter "" _ _ hmore
  obtain ⟨-, -, -, -, hsame⟩ :=
    convertWithRoles_only_removes payConverter "" ["hr", "ops"] ["ops", "hr", "ops"] (by decide)
  obtain ⟨-, -, hcheck, -, -⟩ := convertWithRoles_only_removes
    (payConverterWith (fun _ => .error []) payConverter.policy) "" [] [] (by simp)
  obtain ⟨hdisabled, -, -, -, -⟩ := convertWithRoles_only_removes
    (payConverterWith (fun _ => .ok payFilter) ⟨[], []⟩) "" [] [] (by simp)
  exact ⟨hmore, hback, rfl, hremoves rfl, hfree, hmono hfree, hsame hback,
    hcheck ⟨.invalidSyntax, by decide, _, rfl, rfl⟩, hdisabled rfl⟩

end Converter

end RowFilter
