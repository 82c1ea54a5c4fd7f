/-
What an observer of conversions is told.

An observer is told while the work goes on, by whatever part of it has something to tell. So a step
comes to a result and to a list of events beside it, in the order in which they are told (`Told`).
Steps are put one behind the other by `andThen`: what has been told by the first stays told, also if
it fails, and a step behind one that fails is neither made nor told of.
-/
import RowFilter.Conversion.Error

set_option autoImplicit false

namespace RowFilter

/-- One thing that happened during a conversion. -/
inductive Event where
  /-- The end of a conversion, with the error if it failed. -/
  | attempt (failure : Option ConvertError)
  /-- An expression that takes up more than half of a limit. -/
  | complex (depth length : Nat)
  /-- A field that the roles may not use. -/
  | unauthorized (field : String) (roles : List String)
  /-- A function outside of what conditions can express. -/
  | unsupported (function : String)
  deriving DecidableEq, Repr

/-- What a step comes to, with everything that is told on the way. -/
structure Told (α : Type) where
  result : Except ConvertError α
  events : List Event

namespace Told

variable {α β : Type}

/-- A step that tells nothing. -/
def quiet (result : Except ConvertError α) : Told α := ⟨result, []⟩

/-- A step that only tells something. -/
def tell (events : List Event) : Told Unit := ⟨.ok (), events⟩

/-- A step that makes something else of what another one comes to. -/
def map (f : α → β) (step : Told α) : Told β := ⟨step.result.map f, step.events⟩

/-- One step and, if it succeeds, another one that starts from its result. -/
def andThen (step : Told α) (next : α → Told β) : Told β :=
  match step.result with
  | .error e => ⟨.error e, step.events⟩
  | .ok a => ⟨(next a).result, step.events ++ (next a).events⟩

variable {step : Told α} {next : α → Told β}

/-- A step that fails is the last one. -/
theorem andThen_of_error {e : ConvertError} (h : step.result = .error e) :
    step.andThen next = ⟨.error e, step.events⟩ := by
  simp only [andThen, h]

/-- A step that succeeds hands on its value, and what the next one tells is told behind it. -/
theorem andThen_of_ok {a : α} (h : step.result = .ok a) :
    step.andThen next = ⟨(next a).result, step.events ++ (next a).events⟩ := by
  simp only [andThen, h]

/-- What is told has no influence on what steps come to. -/
theorem andThen_result : (step.andThen next).result = step.result.bind fun a => (next a).result := by
  rcases h : step.result with e | a
  · rw [andThen_of_error h]
    rfl
  · rw [andThen_of_ok h]
    rfl

end Told

end RowFilter
