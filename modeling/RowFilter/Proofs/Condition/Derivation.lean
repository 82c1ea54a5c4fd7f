/-
Derivations of conditions.

`Derives schema limits e p` says which trees are conditions and which conditions
they are, by rules: a leaf is what `Leaf` says, and a connective is a condition if
each of its arguments is. `compile_eq_ok_iff` is the statement that carries the
rest: compiling succeeds with `p` exactly if there is a derivation of `p`. What
holds of every successful compilation is then shown by induction on derivations, in
which no check that has failed and no malformed application occurs.

A connective may come with a receiver; the rules say of it what compiling does with
it, which is nothing.
-/
import RowFilter.Proofs.Condition.Building

set_option autoImplicit false

namespace RowFilter.Condition

open Sql (CompareOp Predicate StringTest)

/-- `Derives schema limits e p`: the tree `e` is the condition `p`. -/
inductive Derives (schema : Schema) (limits : Limits) : TypedExpr → Predicate → Prop where
  | leaf {e : TypedExpr} {p : Predicate} (h : Leaf schema limits e p) : Derives schema limits e p
  | both {e left right : TypedExpr} {p q : Predicate}
      (happ : e.Applies Form.both.function [left, right])
      (hleft : Derives schema limits left p) (hright : Derives schema limits right q) :
      Derives schema limits e (.and p q)
  | either {e left right : TypedExpr} {p q : Predicate}
      (happ : e.Applies Form.either.function [left, right])
      (hleft : Derives schema limits left p) (hright : Derives schema limits right q) :
      Derives schema limits e (.or p q)
  | negation {e inner : TypedExpr} {p : Predicate}
      (happ : e.Applies Form.negation.function [inner])
      (hinner : Derives schema limits inner p) :
      Derives schema limits e (.not p)

variable {schema : Schema} {limits : Limits}

/-! ## Applications that compile -/

section Forms

variable {e left right : TypedExpr} {p : Predicate}

/-- A connective of two conditions compiles if both do. -/
theorem compile_joined_iff {form : Form} {combine : Predicate → Predicate → Predicate}
    (hform : form.combine? = some combine) (happ : e.Applies form.function [left, right]) :
    compile schema limits e = .ok p ↔
      ∃ l r, compile schema limits left = .ok l ∧ compile schema limits right = .ok r
        ∧ p = combine l r := by
  rw [compile_of_applies happ, application_joined hform]
  exact joined_eq_ok_iff

/-- A negation compiles if what it negates does. -/
theorem compile_negation_iff {inner : TypedExpr}
    (happ : e.Applies Form.negation.function [inner]) :
    compile schema limits e = .ok p ↔ ∃ q, compile schema limits inner = .ok q ∧ p = .not q := by
  rw [compile_of_applies happ, application_negation]
  exact negated_eq_ok_iff

/-- A comparison compiles if it is one of a field with a literal that may be compared. -/
theorem compile_comparison_iff {op : CompareOp}
    (happ : e.Applies (Form.comparison op).function [left, right]) :
    compile schema limits e = .ok p ↔ comparison schema op left right = .ok p := by
  rw [compile_of_applies happ, application_comparison]
  exact rejecting_eq_ok_iff

/-- A membership compiles if it is one of a field in a list of literals. -/
theorem compile_membership_iff (happ : e.Applies Form.membership.function [left, right]) :
    compile schema limits e = .ok p ↔ membership schema limits left right = .ok p := by
  rw [compile_of_applies happ, application_membership]
  exact rejecting_eq_ok_iff

/-- A test compiles if its receiver is a field and its argument a text. -/
theorem compile_test_iff {type : ValueType} {which : StringTest} {receiver argument : TypedExpr} :
    compile schema limits (.method type receiver (Form.test which).function [argument]) = .ok p ↔
      stringTest schema which (Form.test which).function receiver argument = .ok p := by
  rw [compile_of_applies (.method _ _ _ _), TypedExpr.receiver?, application_test]
  exact rejecting_eq_ok_iff

end Forms

/-! ## Compiling and deriving -/

/-- A leaf compiles to its condition. -/
theorem Leaf.compile_eq {e : TypedExpr} {p : Predicate} (h : Leaf schema limits e p) :
    compile schema limits e = .ok p := by
  -- each rule of `Leaf` has been read off the function that builds it
  cases h with
  | constant type value => rfl
  | field type name => rfl
  | nullCheck isNull happ hfield hright =>
      exact (compile_comparison_iff happ).mpr (comparison_eq_ok_iff.mpr
        ⟨_, _, hfield, hright, Or.inl ⟨rfl, isNull, rfl, rfl⟩⟩)
  | comparison happ hfield hright hvalue =>
      exact (compile_comparison_iff happ).mpr (comparison_eq_ok_iff.mpr
        ⟨_, _, hfield, hright, Or.inr ⟨hvalue, rfl⟩⟩)
  | never happ hfield =>
      exact (compile_membership_iff happ).mpr (membership_eq_ok_iff.mpr
        ⟨_, _, _, hfield, rfl, Or.inl ⟨rfl, rfl⟩⟩)
  | membership happ hfield hne hsize hes hvalues =>
      exact (compile_membership_iff happ).mpr (membership_eq_ok_iff.mpr
        ⟨_, _, _, hfield, rfl, Or.inr ⟨hne, hsize, _, hes, hvalues, rfl⟩⟩)
  | test which hfield hstring hargument =>
      exact compile_test_iff.mpr (stringTest_eq_ok_iff.mpr
        ⟨_, _, hfield, hstring, hargument, rfl⟩)

/-- A derivation is found by compiling. -/
theorem Derives.compile_eq {e : TypedExpr} {p : Predicate} (h : Derives schema limits e p) :
    compile schema limits e = .ok p := by
  induction h with
  | leaf h => exact h.compile_eq
  | both happ _ _ ihleft ihright =>
      exact (compile_joined_iff rfl happ).mpr ⟨_, _, ihleft, ihright, rfl⟩
  | either happ _ _ ihleft ihright =>
      exact (compile_joined_iff rfl happ).mpr ⟨_, _, ihleft, ihright, rfl⟩
  | negation happ _ ih => exact (compile_negation_iff happ).mpr ⟨_, ih, rfl⟩

/-- The rules for the two connectives that join conditions are one. -/
theorem Derives.joined {e left right : TypedExpr} {form : Form} {p q : Predicate}
    {combine : Predicate → Predicate → Predicate} (hform : form.combine? = some combine)
    (happ : e.Applies form.function [left, right]) (hleft : Derives schema limits left p)
    (hright : Derives schema limits right q) : Derives schema limits e (combine p q) := by
  cases form with
  | both =>
      obtain rfl := Option.some.inj hform
      exact Derives.both happ hleft hright
  | either =>
      obtain rfl := Option.some.inj hform
      exact Derives.either happ hleft hright
  | _ => cases hform

/-- What compiles has a derivation. -/
theorem derives_of_compile {e : TypedExpr} {p : Predicate}
    (h : compile schema limits e = .ok p) : Derives schema limits e p := by
  induction e using TypedExpr.children_induction generalizing p with
  | step e ih =>
      -- the arguments that have been built have derivations, and leaves have passed their checks
      rw [compile] at h
      have hbuilds := builds schema limits e
      generalize build schema limits e = step at hbuilds h
      cases hbuilds with
      | truth type value =>
          obtain rfl := Except.ok.inj h
          exact Derives.leaf (Leaf.constant type value)
      | field type name =>
          obtain rfl := Except.ok.inj h
          exact Derives.leaf (Leaf.field type name)
      | joined hform happ =>
          obtain ⟨l, r, hl, hr, rfl⟩ := joined_eq_ok_iff.mp h
          have hleft := ih _ (happ.arguments_subset _ (by simp)) hl
          have hright := ih _ (happ.arguments_subset _ (by simp)) hr
          exact Derives.joined hform happ hleft hright
      | negation happ =>
          obtain ⟨q, hq, rfl⟩ := negated_eq_ok_iff.mp h
          exact Derives.negation happ (ih _ (happ.arguments_subset _ (by simp)) hq)
      | comparison happ =>
          obtain ⟨field, value, hfield, hright, ⟨rfl, isNull, rfl, rfl⟩ | ⟨hvalue, rfl⟩⟩ :=
            comparison_eq_ok_iff.mp (rejecting_eq_ok_iff.mp h)
          · exact Derives.leaf (Leaf.nullCheck isNull happ hfield hright)
          · exact Derives.leaf (Leaf.comparison happ hfield hright hvalue)
      | membership happ =>
          obtain ⟨field, type, es, hfield, rfl,
            ⟨rfl, rfl⟩ | ⟨hne, hsize, values, hes, hvalues, rfl⟩⟩ :=
            membership_eq_ok_iff.mp (rejecting_eq_ok_iff.mp h)
          · exact Derives.leaf (Leaf.never happ hfield)
          · exact Derives.leaf (Leaf.membership happ hfield hne hsize hes hvalues)
      | test type which receiver argument =>
          obtain ⟨field, text, hfield, hstring, hargument, rfl⟩ :=
            stringTest_eq_ok_iff.mp (rejecting_eq_ok_iff.mp h)
          exact Derives.leaf (Leaf.test which hfield hstring hargument)
      | literal | selection | list | breach | unsupported => cases h

/-- **Compiling is deriving.** A tree compiles to a condition exactly if the rules
derive this condition from it. -/
theorem compile_eq_ok_iff {e : TypedExpr} {p : Predicate} :
    compile schema limits e = .ok p ↔ Derives schema limits e p :=
  ⟨derives_of_compile, Derives.compile_eq⟩

end RowFilter.Condition
