/-
What is told while a condition is built.

An observer hears of a function that conditions do not know at the node that applies it, in the
middle of the recursion and before it is settled what becomes of the tree. Whether it hears of
such a function twice, or of one although the tree fails for something else, depends on all that
is done afterwards. `Told.Faithful` is what every step of the recursion keeps: either nothing has
been told and the step does not fail for a function, or one function has been told and this is
what the step fails for. A step behind another one starts only if nothing has been told so far, so
two faithful steps in a row are a faithful one. From this, `build_events_iff`: a function is told
exactly if building stops at an application of it.
-/
import RowFilter.Proofs.Condition.Order

set_option autoImplicit false

namespace RowFilter

/-! ## Steps that tell what they fail for -/

namespace Told

variable {α β : Type}

/-- A step tells of a function exactly if this is what it fails for, and of nothing else. -/
inductive Faithful : Told α → Prop where
  | silent {step : Told α} (hevents : step.events = [])
      (hresult : ∀ function, step.result ≠ .error (.rejected (.unsupportedFunction function))) :
      Faithful step
  | unknown {step : Told α} (function : String) (hevents : step.events = [.unsupported function])
      (hresult : step.result = .error (.rejected (.unsupportedFunction function))) :
      Faithful step

variable {step : Told α}

/-- What a step that succeeds is made into has nothing to do with what is told. -/
theorem Faithful.map (h : step.Faithful) (f : α → β) : (step.map f).Faithful := by
  cases h with
  | silent hevents hresult =>
      refine Faithful.silent hevents fun function hmap => hresult function ?_
      -- a success of the new step comes from one of the old
      rcases hstep : step.result with e | a
      · simpa only [Told.map, hstep, Except.map, Except.error.injEq] using hmap
      · simp [Told.map, hstep, Except.map] at hmap
  | unknown function hevents hresult =>
      refine Faithful.unknown function hevents ?_
      rw [Told.map, hresult]
      rfl

/-- The second of two steps starts from a success of the first, which has told nothing then. -/
theorem Faithful.andThen {next : α → Told β} (h : step.Faithful)
    (hnext : ∀ a, step.result = .ok a → (next a).Faithful) : (step.andThen next).Faithful := by
  -- a failure ends both steps; after a success nothing has been told yet
  rcases hstep : step.result with e | a
  · rw [andThen_of_error hstep]
    cases h with
    | silent hevents hresult =>
        refine Faithful.silent hevents fun function hfails => hresult function ?_
        rw [hstep, Except.error.inj hfails]
    | unknown function hevents hresult =>
        refine Faithful.unknown function hevents ?_
        rw [Except.error.inj (hstep.symm.trans hresult)]
  · rw [andThen_of_ok hstep]
    cases h with
    | silent hevents =>
        rw [hevents, List.nil_append]
        exact hnext a hstep
    | unknown function hevents hresult => cases hstep.symm.trans hresult

/-- A function is told if and only if the step fails for it. -/
theorem Faithful.events_eq_iff (h : step.Faithful) {function : String} :
    step.events = [.unsupported function]
      ↔ step.result = .error (.rejected (.unsupportedFunction function)) := by
  cases h with
  | silent hevents hresult => simp [hevents, hresult function]
  | unknown g hevents hresult => simp [hevents, hresult]

/-- Nothing is told twice. -/
theorem Faithful.events_cases (h : step.Faithful) :
    step.events = [] ∨ ∃ function, step.events = [.unsupported function] := by
  cases h with
  | silent hevents => exact Or.inl hevents
  | unknown function hevents => exact Or.inr ⟨function, hevents⟩

end Told

namespace Condition

open Sql (Predicate)

variable {schema : Schema} {limits : Limits} {e : TypedExpr} {arguments : List TypedExpr}

/-! ## Conditions -/

/-- A node whose function has a form is not refused for its function. -/
theorem Refused.ne_unsupported {form : Form} {why : Rejection} (h : Refused schema limits e why)
    (happ : e.Applies form.function arguments) (function : String) :
    why ≠ .unsupportedFunction function := by
  rintro rfl
  obtain ⟨⟨more, hmore⟩, hunsupported⟩ := h.unsupported
  exact hunsupported form (hmore.unique happ).1

/-- Leaves tell nothing, and functions are nothing that a leaf can fail for. -/
theorem faithful_leaf (limits : Limits) {form : Form} {r : Except Rejection Predicate}
    (happ : e.Applies form.function arguments)
    (h : ∀ why, r = .error why → Refused schema limits e why) :
    (Told.quiet (rejecting r)).Faithful := by
  refine Told.Faithful.silent rfl fun function hr => ?_
  exact (h _ (rejecting_eq_error hr)).ne_unsupported happ function rfl

/-- **Every step tells what it fails for.** Building a condition tells of a function exactly if it
fails for it. -/
theorem faithful_build (schema : Schema) (limits : Limits) (e : TypedExpr) :
    (build schema limits e).Faithful := by
  induction e using TypedExpr.children_induction with
  | step e ih =>
      have hbuilds := builds schema limits e
      generalize build schema limits e = step at hbuilds ⊢
      cases hbuilds with
      | @joined e left right form combine hform happ =>
          -- the right condition is built if the left one has come out, and then silently so far
          have hleft := ih left (happ.arguments_subset left (by simp))
          have hright := ih right (happ.arguments_subset right (by simp))
          exact hleft.andThen fun l _ => hright.map (combine l)
      | @negation e inner happ =>
          exact (ih inner (happ.arguments_subset inner (by simp))).map Predicate.not
      | comparison happ => exact faithful_leaf limits happ fun why => refused_of_comparison happ
      | membership happ => exact faithful_leaf limits happ fun why => refused_of_membership happ
      | test type which receiver argument =>
          exact faithful_leaf limits (.method type receiver _ _) fun why => refused_of_stringTest
      -- here alone something is told, and this is what the step fails for
      | unsupported => exact Told.Faithful.unknown _ rfl rfl
      | truth | literal | field | selection | list | breach =>
          exact Told.Faithful.silent rfl (by simp [Told.quiet])

/-- **What is told is where building stops.** While a condition is built, a function is told
exactly if the first node that does not pass, in the order of compiling, applies this function and
conditions do not know it; then nothing else is told, and the tree fails for it. -/
theorem build_events_iff {function : String} :
    (build schema limits e).events = [.unsupported function] ↔
      ∃ n arguments, StopsAt schema limits e n ∧ n.Applies function arguments
        ∧ Unsupported function := by
  rw [(faithful_build schema limits e).events_eq_iff, ← compile_unsupported_iff, compile]

end Condition

end RowFilter
