/-
What building does at one node.

A node answers by itself, or it has its parts checked as operands, or it has its arguments built;
or it is no condition, and then nothing in it is looked at. `Builds` has one rule for each of these,
with the step that is made and all that is known of the node where it is made. Every node is of one
of them (`builds`). What a step does to an invariant is then a matter of these rules, and after this
module `build` and `application` are not opened again.
-/
import Mathlib.Data.List.Basic
import RowFilter.Proofs.Condition.Leaves

set_option autoImplicit false

namespace RowFilter.Condition

open Sql (CompareOp Predicate StringTest)

variable {schema : Schema} {limits : Limits}

/-! ## Applications -/

section Applications

variable {form : Form} {receiver : Option TypedExpr} {arguments : List TypedExpr}

/-- A form that joins two conditions has both built and joins them. -/
theorem application_joined {combine : Predicate → Predicate → Predicate}
    (hform : form.combine? = some combine) (left right : TypedExpr) :
    application schema limits form.function receiver [left, right]
      = joined combine (build schema limits left) (build schema limits right) := by
  cases form with
  | both | either =>
      obtain rfl := Option.some.inj hform
      simp only [application, ofFunction?_function]
  | _ => cases hform

/-- A negation has the one condition built that it is of. -/
theorem application_negation (inner : TypedExpr) :
    application schema limits Form.negation.function receiver [inner]
      = (build schema limits inner).map .not := by
  simp only [application, ofFunction?_function]

/-- A comparison looks at its two arguments itself, without building any of them. -/
theorem application_comparison (op : CompareOp) (left right : TypedExpr) :
    application schema limits (Form.comparison op).function receiver [left, right]
      = .quiet (rejecting (comparison schema op left right)) := by
  simp only [application, ofFunction?_function]

theorem application_membership (left right : TypedExpr) :
    application schema limits Form.membership.function receiver [left, right]
      = .quiet (rejecting (membership schema limits left right)) := by
  simp only [application, ofFunction?_function]

/-- A test looks at its receiver and its argument. -/
theorem application_test (which : StringTest) (r argument : TypedExpr) :
    application schema limits (Form.test which).function (some r) [argument]
      = .quiet (rejecting (stringTest schema which (Form.test which).function r argument)) := by
  simp only [application, ofFunction?_function]

/-- An application that is not as its form asks is a breach of contract, and none of its arguments
is built. -/
theorem application_breach (h : ¬ form.Takes receiver arguments) :
    application schema limits form.function receiver arguments
      = .quiet (.error (.contract (form.breach receiver arguments.length))) := by
  have hcount : ∀ {n : Nat}, form.arity = n → (form.isTest = true → receiver.isSome = true) →
      arguments.length ≠ n := by
    rintro n rfl hreceiver hlength
    exact h ⟨hlength, hreceiver⟩
  cases form with
  | both | either | comparison | membership =>
      simp only [application.eq_def, ofFunction?_function]
      -- lists of another length than two are refused alike
      rcases arguments with _ | ⟨left, _ | ⟨right, _ | ⟨more, rest⟩⟩⟩
      · rfl
      · rfl
      · exact absurd rfl (hcount rfl (by simp [Form.isTest]))
      · rfl
  | negation =>
      simp only [application.eq_def, ofFunction?_function]
      rcases arguments with _ | ⟨inner, _ | ⟨more, rest⟩⟩
      · rfl
      · exact absurd rfl (hcount rfl (by simp [Form.isTest]))
      · rfl
  | test which =>
      simp only [application.eq_def, ofFunction?_function]
      -- the receiver is looked for before the arguments are counted
      rcases receiver with _ | r
      · rfl
      · rcases arguments with _ | ⟨argument, _ | ⟨more, rest⟩⟩
        · rfl
        · exact absurd rfl (hcount rfl (fun _ => rfl))
        · rfl

/-- A function of no form is told of, and then it is refused. -/
theorem application_unsupported {function : String} (hform : Form.ofFunction? function = none) :
    application schema limits function receiver arguments
      = ⟨.error (.rejected (.unsupportedFunction function)), [.unsupported function]⟩ := by
  simp only [application.eq_def, hform]
  rfl

/-- To an operator that is no test a receiver makes no difference. -/
theorem application_receiver (htest : form.isTest = false) :
    application schema limits form.function receiver arguments
      = application schema limits form.function none arguments := by
  -- only the branch of tests looks at the receiver
  cases form with
  | test => cases htest
  | _ => simp only [application.eq_def, ofFunction?_function]

end Applications

/-- Calls with a receiver and calls without one are built in the same way. -/
theorem build_of_applies {e : TypedExpr} {function : String} {arguments : List TypedExpr}
    (happ : e.Applies function arguments) :
    build schema limits e = application schema limits function e.receiver? arguments := by
  cases happ with
  | call type => rfl
  | method type receiver => rfl

/-- What an application comes to depends on its function, its receiver and its arguments only. -/
theorem compile_of_applies {e : TypedExpr} {function : String} {arguments : List TypedExpr}
    (happ : e.Applies function arguments) :
    compile schema limits e
      = (application schema limits function e.receiver? arguments).result :=
  congrArg Told.result (build_of_applies happ)

/-- An application that compiles is as its form asks. -/
theorem takes_of_compile {e : TypedExpr} {form : Form} {arguments : List TypedExpr} {p : Predicate}
    (happ : e.Applies form.function arguments) (h : compile schema limits e = .ok p) :
    form.Takes e.receiver? arguments := by
  by_contra htakes
  rw [compile_of_applies happ, application_breach htakes] at h
  cases h

/-! ## Results of steps -/

/-- Turning a rejection into a failure leaves a success as it is. -/
theorem rejecting_eq_ok_iff {α : Type} {r : Except Rejection α} {a : α} :
    rejecting r = .ok a ↔ r = .ok a := by
  cases r <;> simp [rejecting]

/-- A leaf that fails for a rejection was refused for it. -/
theorem rejecting_eq_error {α : Type} {r : Except Rejection α} {why : Rejection}
    (h : rejecting r = .error (.rejected why)) : r = .error why := by
  rcases r with why' | a
  · simp only [rejecting, Except.error.injEq, ConvertError.rejected.injEq] at h
    rw [h]
  · cases h

/-- Two conditions are joined if both are built. -/
theorem joined_eq_ok_iff {combine : Predicate → Predicate → Predicate} {left right : Told Predicate}
    {p : Predicate} :
    (joined combine left right).result = .ok p ↔
      ∃ l r, left.result = .ok l ∧ right.result = .ok r ∧ p = combine l r := by
  rw [joined, Told.andThen_result]
  -- the right side is looked at only if the left one is a success
  rcases left.result with e | l <;> rcases hright : right.result with e' | r <;>
    simp [Except.bind, Told.map, Except.map, hright, eq_comm]

/-- Two conditions that are joined fail as the left one does, or, if that is built, as the right
one. -/
theorem joined_eq_error {combine : Predicate → Predicate → Predicate} {left right : Told Predicate}
    {failure : ConvertError} (h : (joined combine left right).result = .error failure) :
    left.result = .error failure
      ∨ (∃ l, left.result = .ok l) ∧ right.result = .error failure := by
  rw [joined, Told.andThen_result] at h
  rcases hleft : left.result with e | l
  · rw [hleft] at h
    exact Or.inl h
  · rw [hleft] at h
    rcases hright : right.result with e | r
    · simp only [Except.bind, Told.map, hright, Except.map] at h
      exact Or.inr ⟨⟨l, rfl⟩, h⟩
    · simp [Except.bind, Told.map, hright, Except.map] at h

/-- A condition is negated if it is built. -/
theorem negated_eq_ok_iff {inner : Told Predicate} {p : Predicate} :
    (inner.map Predicate.not).result = .ok p ↔ ∃ q, inner.result = .ok q ∧ p = .not q := by
  rcases hinner : inner.result with e | q <;> simp [Told.map, Except.map, hinner, eq_comm]

/-- A condition that is negated fails as it does by itself. -/
theorem negated_eq_error {inner : Told Predicate} {failure : ConvertError}
    (h : (inner.map Predicate.not).result = .error failure) : inner.result = .error failure := by
  rcases hinner : inner.result with e | p
  · simp only [Told.map, hinner, Except.map] at h
    exact h
  · simp [Told.map, hinner, Except.map] at h

/-! ## Nodes -/

/-- `Builds schema limits e step`: building the condition of `e` is this step. -/
inductive Builds (schema : Schema) (limits : Limits) : TypedExpr → Told Predicate → Prop where
  | truth (type : ValueType) (value : Bool) :
      Builds schema limits (.literal type (.boolean value)) (.quiet (.ok (.constant value)))
  | literal (type : ValueType) {value : Value} (hkind : value.kind ≠ .bool) :
      Builds schema limits (.literal type value)
        (.quiet (.error (.contract (.nonBooleanLiteral value.kind))))
  | field (type : ValueType) (name : String) :
      Builds schema limits (.ident type name)
        (.quiet (.ok (.compare (schema.resolveColumn name) .eq (.boolean true))))
  | selection (type : ValueType) (operand : TypedExpr) (field : String) :
      Builds schema limits (.select type operand field) (.quiet (.error (.rejected .notACondition)))
  | list (type : ValueType) (elements : List TypedExpr) :
      Builds schema limits (.list type elements) (.quiet (.error (.rejected .notACondition)))
  | joined {e left right : TypedExpr} {form : Form}
      {combine : Predicate → Predicate → Predicate} (hform : form.combine? = some combine)
      (happ : e.Applies form.function [left, right]) :
      Builds schema limits e
        (Condition.joined combine (build schema limits left) (build schema limits right))
  | negation {e inner : TypedExpr} (happ : e.Applies Form.negation.function [inner]) :
      Builds schema limits e ((build schema limits inner).map .not)
  | comparison {e left right : TypedExpr} {op : CompareOp}
      (happ : e.Applies (Form.comparison op).function [left, right]) :
      Builds schema limits e (.quiet (rejecting (Condition.comparison schema op left right)))
  | membership {e left right : TypedExpr} (happ : e.Applies Form.membership.function [left, right]) :
      Builds schema limits e (.quiet (rejecting (Condition.membership schema limits left right)))
  | test (type : ValueType) (which : StringTest) (receiver argument : TypedExpr) :
      Builds schema limits (.method type receiver (Form.test which).function [argument])
        (.quiet (rejecting (stringTest schema which (Form.test which).function receiver argument)))
  /-- None of the parts is looked at. -/
  | breach {e : TypedExpr} {form : Form} {arguments : List TypedExpr}
      (happ : e.Applies form.function arguments) (htakes : ¬ form.Takes e.receiver? arguments) :
      Builds schema limits e
        (.quiet (.error (.contract (form.breach e.receiver? arguments.length))))
  /-- The one step that tells something by itself. -/
  | unsupported {e : TypedExpr} {function : String} {arguments : List TypedExpr}
      (happ : e.Applies function arguments) (hform : Form.ofFunction? function = none) :
      Builds schema limits e
        ⟨.error (.rejected (.unsupportedFunction function)), [.unsupported function]⟩

/-- An application is built by its form, if it has one and is as the form asks. -/
theorem builds_of_applies {e : TypedExpr} {function : String} {arguments : List TypedExpr}
    (happ : e.Applies function arguments) :
    Builds schema limits e (build schema limits e) := by
  rw [build_of_applies happ]
  rcases hform : Form.ofFunction? function with _ | form
  · rw [application_unsupported hform]
    exact Builds.unsupported happ hform
  · obtain rfl := ofFunction?_eq_some_iff.mp hform
    by_cases htakes : form.Takes e.receiver? arguments
    · -- the number of arguments is known now, and a test has its receiver
      cases form with
      | both | either =>
          obtain ⟨left, right, rfl⟩ := List.length_eq_two.mp htakes.length_eq
          rw [application_joined rfl]
          exact Builds.joined rfl happ
      | negation =>
          obtain ⟨inner, rfl⟩ := List.length_eq_one_iff.mp htakes.length_eq
          rw [application_negation]
          exact Builds.negation happ
      | comparison op =>
          obtain ⟨left, right, rfl⟩ := List.length_eq_two.mp htakes.length_eq
          rw [application_comparison]
          exact Builds.comparison happ
      | membership =>
          obtain ⟨left, right, rfl⟩ := List.length_eq_two.mp htakes.length_eq
          rw [application_membership]
          exact Builds.membership happ
      | test which =>
          obtain ⟨argument, rfl⟩ := List.length_eq_one_iff.mp htakes.length_eq
          cases happ with
          | call => cases htakes.receiver rfl
          | method type receiver =>
              rw [TypedExpr.receiver?, application_test]
              exact Builds.test type which receiver argument
    · rw [application_breach htakes]
      exact Builds.breach happ htakes

/-- **One rule for every node.** -/
theorem builds (schema : Schema) (limits : Limits) (e : TypedExpr) :
    Builds schema limits e (build schema limits e) := by
  cases e with
  | literal type value =>
      cases value with
      | boolean value => exact Builds.truth type value
      | _ => exact Builds.literal type (by simp [Value.kind])
  | ident type name => exact Builds.field type name
  | select type operand field => exact Builds.selection type operand field
  | call type function arguments => exact builds_of_applies (.call type function arguments)
  | method type receiver function arguments =>
      exact builds_of_applies (.method type receiver function arguments)
  | list type elements => exact Builds.list type elements

end RowFilter.Condition
