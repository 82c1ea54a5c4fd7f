/-
What an observer is told of one conversion.

A conversion has three places that tell something on the way: the report on large expressions
behind the checks, the look at the roles, and the building of the condition; and the end of it is
always told. Between these places the conversion may come to its end in many ways. What is told
is nevertheless fixed by what the conversion comes to, and each of the three can be read off the
source, its tree and the outcome: nothing is left out, told twice, or told although an earlier
stage has failed. That is `run_events_exact`.

For the first restricted name there is a walk over distinct names and for the first function
that is not known a walk over conditions. Both are stated here by what comes before the
name or the node in the order of the tree, without these walks.
-/
import RowFilter.Proofs.Condition.Telling
import RowFilter.Proofs.Conversion.Roles

set_option autoImplicit false

namespace RowFilter

/-! ## The first name that is denied -/

/-- Repetitions are never what is found first. -/
theorem TypedExpr.find?_firstOccurrences (q : String → Bool) (names : List String) :
    (firstOccurrences names).find? q = names.find? q := by
  induction names with
  | nil => rw [firstOccurrences]
  | cons s rest ih =>
      rw [firstOccurrences]
      -- the first name settles both searches if it has the property, and neither if it has not
      rcases hs : q s with _ | _
      · rw [List.find?_cons_of_neg (by simp [hs]), List.find?_cons_of_neg (by simp [hs]),
          List.find?_filter, ← ih]
        -- what is found is no repetition of a name that was not
        congr 1
        funext name
        by_cases hname : name = s
        · simp [hname, hs]
        · simp [hname]
      · rw [List.find?_cons_of_pos hs, List.find?_cons_of_pos hs]

namespace Policy

variable {p : Policy} {roles : List String} {e : TypedExpr} {field : String}

/-- `p.FirstDenied roles e field`: of the names in `e`, from the root down and from left to
right, `field` is the first that the roles may not use. -/
def FirstDenied (p : Policy) (roles : List String) (e : TypedExpr) (field : String) : Prop :=
  ∃ before after, e.mentions = before ++ field :: after
    ∧ (∀ name ∈ before, p.isAuthorized name roles = true) ∧ p.isAuthorized field roles = false

/-- The field that a policy reports is the first one that it denies, in the order of the tree. -/
theorem firstUnauthorized?_eq_some_iff :
    p.firstUnauthorized? e roles = some field ↔ p.FirstDenied roles e field := by
  rw [firstUnauthorized?, TypedExpr.referencedFields, TypedExpr.find?_firstOccurrences,
    List.find?_eq_some_iff_append]
  constructor
  · rintro ⟨hfield, before, after, hlist, hbefore⟩
    exact ⟨before, after, hlist, by simpa using hbefore, by simpa using hfield⟩
  · rintro ⟨before, after, hlist, hbefore, hfield⟩
    exact ⟨by simpa using hfield, before, after, hlist, by simpa using hbefore⟩

end Policy

namespace Converter

variable {c : Converter} {source : String} {roles : Option (List String)} {tree : TypedExpr}

/-- The first field of a tree that some roles may not use, if there are roles and the policy
is enabled. -/
theorem restricted?_eq_some_iff {rs : List String} {field : String} :
    c.restricted? tree roles = some (rs, field) ↔
      roles = some rs ∧ c.policy.isEnabled = true ∧ c.policy.FirstDenied rs tree field := by
  rcases roles with _ | given
  · simp [restricted?]
  · -- a policy that is switched off restricts nothing
    by_cases henabled : c.policy.isEnabled = true
    · rw [restricted?_of_isEnabled henabled, Option.map_eq_some_iff]
      constructor
      · rintro ⟨found, hfound, hpair⟩
        obtain ⟨rfl, rfl⟩ := Prod.mk.inj hpair
        exact ⟨rfl, henabled, Policy.firstUnauthorized?_eq_some_iff.mp hfound⟩
      · rintro ⟨hroles, -, hdenied⟩
        obtain rfl := Option.some.inj hroles
        exact ⟨field, Policy.firstUnauthorized?_eq_some_iff.mpr hdenied, rfl⟩
    · simp [restricted?, henabled]

/-- A conversion fails for a restricted field exactly if its source passes the checks and its
tree has such a field. -/
theorem failsWith_unauthorizedField_run_iff :
    FailsWith .unauthorizedField (c.run source roles).result ↔
      ∃ tree, c.Admits source tree ∧ c.restricted? tree roles ≠ none := by
  rcases roles with _ | rs
  · constructor
    · intro h
      exact absurd h not_failsWith_convert
    · rintro ⟨tree, -, hrestricted⟩
      exact absurd rfl hrestricted
  · exact failsWith_unauthorizedField_iff

/-! ## Large expressions -/

/-- More than half of one of the two limits is what counts as large. -/
theorem isComplex_eq_true_iff {l : Limits} {depth length : Nat} :
    l.isComplex depth length = true ↔ l.maxDepth < 2 * depth ∨ l.maxLength < 2 * length := by
  rw [Limits.isComplex, Bool.or_eq_true, decide_eq_true_iff, decide_eq_true_iff]
  omega

/-- The report on an admitted source, if there is one. -/
def largeness (c : Converter) (source : String) (tree : TypedExpr) : Option Event :=
  if c.limits.isComplex tree.depth source.length then some (.complex tree.depth source.length)
  else none

/-- The report is due exactly if more than half of a limit is taken up, and it says how much. -/
theorem largeness_eq_some_iff {event : Event} :
    c.largeness source tree = some event ↔
      (c.limits.maxDepth < 2 * tree.depth ∨ c.limits.maxLength < 2 * source.length)
        ∧ event = .complex tree.depth source.length := by
  rw [← isComplex_eq_true_iff, largeness]
  by_cases h : c.limits.isComplex tree.depth source.length = true
  · simp [h, eq_comm]
  · simp [h]

/-! ## Trouble -/

/-- What is told of an admitted source behind its size: the field that the roles may not use, or
else what is told first while the condition is built. -/
def trouble (c : Converter) (tree : TypedExpr) (roles : Option (List String)) : Option Event :=
  match c.restricted? tree roles with
  | some (rs, field) => some (.unauthorized field rs)
  | none => (Condition.build c.schema c.limits tree).events.head?

/-- Where the roles stop the conversion, the field is told. -/
theorem trouble_of_restricted {rs : List String} {field : String}
    (h : c.restricted? tree roles = some (rs, field)) :
    c.trouble tree roles = some (.unauthorized field rs) := by
  simp only [trouble, h]

/-- Otherwise it is told what building the condition tells. -/
theorem trouble_of_unrestricted (h : c.restricted? tree roles = none) :
    c.trouble tree roles = (Condition.build c.schema c.limits tree).events.head? := by
  simp only [trouble, h]

/-- Trouble is told of one field or of one function. -/
theorem trouble_cases {event : Event} (h : c.trouble tree roles = some event) :
    (∃ field rs, event = .unauthorized field rs) ∨ ∃ function, event = .unsupported function := by
  rcases hrestricted : c.restricted? tree roles with _ | ⟨rs, field⟩
  · rw [trouble_of_unrestricted hrestricted] at h
    rcases (Condition.faithful_build _ _ tree).events_cases with hevents | ⟨function, hevents⟩
    · rw [hevents] at h
      cases h
    · rw [hevents, List.head?_cons] at h
      exact Or.inr ⟨function, (Option.some.inj h).symm⟩
  · rw [trouble_of_restricted hrestricted] at h
    exact Or.inl ⟨field, rs, (Option.some.inj h).symm⟩

/-- A field is told exactly if the roles are stopped at it. -/
theorem trouble_eq_unauthorized_iff {field : String} {rs : List String} :
    c.trouble tree roles = some (.unauthorized field rs) ↔
      c.restricted? tree roles = some (rs, field) := by
  rcases hrestricted : c.restricted? tree roles with _ | ⟨given, found⟩
  · -- no field is told while a condition is built
    rw [trouble_of_unrestricted hrestricted]
    rcases (Condition.faithful_build c.schema c.limits tree).events_cases
      with hevents | ⟨function, hevents⟩ <;> simp [hevents]
  · rw [trouble_of_restricted hrestricted]
    simp [and_comm]

/-- A function is told exactly if the roles stop nothing and building the condition tells it. -/
theorem trouble_eq_unsupported_iff {function : String} :
    c.trouble tree roles = some (.unsupported function) ↔
      c.restricted? tree roles = none
        ∧ (Condition.build c.schema c.limits tree).events = [.unsupported function] := by
  rcases hrestricted : c.restricted? tree roles with _ | ⟨given, found⟩
  · rw [trouble_of_unrestricted hrestricted]
    rcases (Condition.faithful_build c.schema c.limits tree).events_cases
      with hevents | ⟨g, hevents⟩ <;> simp [hevents]
  · simp [trouble_of_restricted hrestricted]

/-! ## Everything that is told -/

/-- Of a source that does not pass the checks only the attempt is told. -/
theorem events_of_not_admits (h : ∀ tree, ¬ c.Admits source tree) :
    (c.run source roles).events = [.attempt (failure? (c.run source roles).result)] := by
  rcases hcheck : c.check source with why | checked
  · rw [run, attempt_of_check_eq_error hcheck]
    rfl
  · exact absurd (check_eq_ok_iff.mp hcheck).1 (h checked.tree)

/-- Of an admitted source it is told whether it is large, then whether there was trouble, then
the attempt. -/
theorem Admits.events_eq (h : c.Admits source tree) :
    (c.run source roles).events
      = (c.largeness source tree).toList ++ (c.trouble tree roles).toList
        ++ [.attempt (failure? (c.run source roles).result)] := by
  -- the two say the same, one as a list and one as an option
  have hlarge : c.complexity ⟨tree, source.length, tree.depth⟩
      = (c.largeness source tree).toList := by
    unfold complexity largeness
    split <;> rfl
  rcases hrestricted : c.restricted? tree roles with _ | ⟨rs, field⟩
  · -- the condition is built, and that tells one thing at most
    have htrouble : (c.trouble tree roles).toList
        = (Condition.build c.schema c.limits tree).events := by
      rw [trouble_of_unrestricted hrestricted]
      rcases (Condition.faithful_build c.schema c.limits tree).events_cases
        with hevents | ⟨function, hevents⟩ <;> rw [hevents] <;> rfl
    simp only [run, h.attempt_of_unrestricted hrestricted, hlarge, htrouble]
  · simp only [run, h.attempt_of_restricted hrestricted, hlarge, trouble_of_restricted hrestricted,
      Option.toList_some]

/-- A source is compiled to one tree. -/
theorem Admits.unique {tree' : TypedExpr} (h : c.Admits source tree)
    (h' : c.Admits source tree') : tree = tree' :=
  Except.ok.inj (h.compiles.symm.trans h'.compiles)

/-! ### What is told of an admitted source -/

/-- It fails for a restricted field exactly if its tree has one. -/
theorem Admits.failsWith_unauthorizedField_iff (h : c.Admits source tree) :
    FailsWith .unauthorizedField (c.run source roles).result ↔ c.restricted? tree roles ≠ none := by
  rw [failsWith_unauthorizedField_run_iff]
  constructor
  · rintro ⟨tree', hadmits, hrestricted⟩
    rwa [h.unique hadmits]
  · exact fun hrestricted => ⟨tree, h, hrestricted⟩

/-- The report on an admitted source, said without naming its tree beforehand. -/
theorem Admits.told_large_iff (h : c.Admits source tree) (event : Event) :
    c.largeness source tree = some event ↔ ∃ tree, c.Admits source tree
      ∧ (c.limits.maxDepth < 2 * tree.depth ∨ c.limits.maxLength < 2 * source.length)
      ∧ event = .complex tree.depth source.length := by
  rw [largeness_eq_some_iff]
  constructor
  · exact fun hlarge => ⟨tree, h, hlarge⟩
  · rintro ⟨tree', hadmits, hlarge⟩
    rwa [h.unique hadmits]

/-- The field that is told is the first denied one, and then the conversion fails for it. -/
theorem Admits.told_restricted_iff (h : c.Admits source tree) (field : String) (rs : List String) :
    c.trouble tree roles = some (.unauthorized field rs) ↔
      FailsWith .unauthorizedField (c.run source roles).result ∧ roles = some rs
        ∧ ∃ tree, c.compiler.compile source = .ok tree ∧ c.policy.FirstDenied rs tree field := by
  rw [trouble_eq_unauthorized_iff, h.failsWith_unauthorizedField_iff]
  constructor
  · intro hfound
    obtain ⟨hroles, -, hdenied⟩ := restricted?_eq_some_iff.mp hfound
    exact ⟨by simp [hfound], hroles, tree, h.compiles, hdenied⟩
  · rintro ⟨hrestricted, hroles, tree', htree', hdenied⟩
    obtain rfl := Except.ok.inj (h.compiles.symm.trans htree')
    -- some field is restricted, so the policy is enabled
    obtain ⟨⟨given, found⟩, hfound⟩ := Option.ne_none_iff_exists'.mp hrestricted
    obtain ⟨-, henabled, -⟩ := restricted?_eq_some_iff.mp hfound
    exact restricted?_eq_some_iff.mpr ⟨hroles, henabled, hdenied⟩

/-- The function that is told is applied where building stops, unless the roles have stopped it
before. -/
theorem Admits.told_unknown_iff (h : c.Admits source tree) (function : String) :
    c.trouble tree roles = some (.unsupported function) ↔
      ¬ FailsWith .unauthorizedField (c.run source roles).result
        ∧ ∃ tree n arguments, c.Admits source tree
            ∧ Condition.StopsAt c.schema c.limits tree n ∧ n.Applies function arguments
            ∧ Condition.Unsupported function := by
  rw [trouble_eq_unsupported_iff, h.failsWith_unauthorizedField_iff, Classical.not_not,
    Condition.build_events_iff]
  constructor
  · rintro ⟨hnone, n, arguments, hstop⟩
    exact ⟨hnone, tree, n, arguments, h, hstop⟩
  · rintro ⟨hnone, tree', n, arguments, hadmits, hstop⟩
    obtain rfl := h.unique hadmits
    exact ⟨hnone, n, arguments, hstop⟩

/-- A function is told only if the conversion fails for it. -/
theorem Admits.failsWith_of_told_unknown (h : c.Admits source tree) {function : String}
    (htold : c.trouble tree roles = some (.unsupported function)) :
    FailsWith .unsupportedOperation (c.run source roles).result := by
  obtain ⟨hnone, hevents⟩ := trouble_eq_unsupported_iff.mp htold
  have hcompile : Condition.compile c.schema c.limits tree
      = .error (.rejected (.unsupportedFunction function)) :=
    (Condition.faithful_build _ _ tree).events_eq_iff.mp hevents
  refine ⟨.rejected (.unsupportedFunction function), ?_, rfl⟩
  rw [run, h.attempt_of_unrestricted hnone, hcompile]
  rfl

/-- **The trace is exact.** One conversion tells at most three things, in this order. First, that
the expression is large: exactly if the source passes all checks and takes up more than half of
the depth or of the length that is allowed. Then one kind of trouble: a field with the
roles, exactly if the conversion fails for a restricted field and this is the first in the order
of the tree that the roles may not use; or a function, exactly if no restricted field has stopped
the conversion and the first node that is no condition, in the order of compiling, applies
this function, which conditions do not know; and then the conversion fails with the code for
this. Last, always and only once, the attempt with the failure that the caller receives, if
any. -/
theorem run_events_exact (c : Converter) (source : String) (roles : Option (List String)) :
    ∃ large stop : Option Event,
      (c.run source roles).events
          = large.toList ++ stop.toList ++ [.attempt (failure? (c.run source roles).result)]
      ∧ (∀ event, large = some event ↔ ∃ tree, c.Admits source tree
          ∧ (c.limits.maxDepth < 2 * tree.depth ∨ c.limits.maxLength < 2 * source.length)
          ∧ event = .complex tree.depth source.length)
      ∧ (∀ event, stop = some event →
          (∃ field rs, event = .unauthorized field rs)
            ∨ ∃ function, event = .unsupported function)
      ∧ (FailsWith .unauthorizedField (c.run source roles).result →
          ∃ field rs, stop = some (.unauthorized field rs))
      ∧ (∀ field rs, stop = some (.unauthorized field rs) ↔
          FailsWith .unauthorizedField (c.run source roles).result ∧ roles = some rs
            ∧ ∃ tree, c.compiler.compile source = .ok tree
                ∧ c.policy.FirstDenied rs tree field)
      ∧ (∀ function, stop = some (.unsupported function) ↔
          ¬ FailsWith .unauthorizedField (c.run source roles).result
            ∧ ∃ tree n arguments, c.Admits source tree
                ∧ Condition.StopsAt c.schema c.limits tree n ∧ n.Applies function arguments
                ∧ Condition.Unsupported function)
      ∧ ∀ function, stop = some (.unsupported function) →
          FailsWith .unsupportedOperation (c.run source roles).result := by
  -- only an admitted source has anything to be told of but its attempt
  by_cases hadmitted : ∃ tree, c.Admits source tree
  · obtain ⟨tree, hadmits⟩ := hadmitted
    refine ⟨c.largeness source tree, c.trouble tree roles, hadmits.events_eq,
      hadmits.told_large_iff, fun event => trouble_cases, ?_, hadmits.told_restricted_iff,
      hadmits.told_unknown_iff, fun function => hadmits.failsWith_of_told_unknown⟩
    intro h
    obtain ⟨⟨rs, field⟩, hfound⟩ :=
      Option.ne_none_iff_exists'.mp (hadmits.failsWith_unauthorizedField_iff.mp h)
    exact ⟨field, rs, trouble_eq_unauthorized_iff.mpr hfound⟩
  · -- nothing but the attempt is told, and there is nothing else to be told
    have hnot := not_exists.mp hadmitted
    have hfails : ¬ FailsWith .unauthorizedField (c.run source roles).result := by
      rw [failsWith_unauthorizedField_run_iff]
      rintro ⟨tree, hadmits, -⟩
      exact hnot tree hadmits
    refine ⟨none, none, events_of_not_admits hnot, ?_, ?_, ?_, ?_, ?_, ?_⟩
    · intro event
      simp [hnot]
    · intro event h
      cases h
    · intro h
      exact absurd h hfails
    · intro field rs
      simp [hfails]
    · intro function
      simp [hnot]
    · intro function h
      cases h

/-- A test that conditions do not know, behind a flag and before another such test. -/
def twoUnknown : TypedExpr :=
  .call .bool "_&&_"
    [.ident .bool "active",
     .call .bool "_||_"
       [.method .bool (.ident .string "name") "matches" [.ofValue (.string "^a")],
        .call .bool "exists" [.ident .string "mail"]]]

/-- The expression is as deep as the limit allows, and the first of the two functions is the one
that is told. -/
example :
    (run ⟨.custom fun _ => .ok twoUnknown, ⟨[]⟩, ⟨[], []⟩, ⟨10, 4, 10⟩⟩ "" none).events
      = [.complex 4 0, .unsupported "matches",
         .attempt (some (.rejected (.unsupportedFunction "matches")))] := by
  decide +kernel

end Converter

end RowFilter
