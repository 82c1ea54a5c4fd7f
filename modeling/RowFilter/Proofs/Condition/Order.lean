/-
Where compiling stops.

A tree is compiled from its root down and from left to right: a connective is entered if it has
the arguments it takes, and its right side is looked at once the left one has become a condition.
`conditions` lists the nodes that are come by on this way, as they would be if none of them made
any trouble. Each node passes or it does not, whatever stands around it, and the way ends at the
first that does not pass. What that node is refused for is what the whole tree is refused for,
`exists_stopsAt_of_compile`.

One kind of trouble is told to an observer, a function that conditions do not know. It is told
for the node where the way ends and for no other, so a tree with several such functions names
the first of them, and names none if something else comes first.
-/
import RowFilter.Proofs.Condition.Arity
import RowFilter.Proofs.Condition.Language
import RowFilter.Proofs.Condition.Refusals

set_option autoImplicit false

namespace RowFilter.Condition

open Sql (CompareOp Predicate StringTest)

/-! ## The nodes on the way -/

/-- Whether a function joins this number of conditions. -/
def joins (function : String) (count : Nat) : Bool :=
  match Form.ofFunction? function with
  | some form => form.isConnective && count == form.arity
  | none => false

mutual

/-- The conditions that a tree is made of, in the order in which they are compiled: a node
before what it joins, and arguments from left to right. -/
def conditions : TypedExpr → List TypedExpr
  | .call type function arguments =>
    .call type function arguments ::
      if joins function arguments.length then conditionsOfAll arguments else []
  | .method type receiver function arguments =>
    .method type receiver function arguments ::
      if joins function arguments.length then conditionsOfAll arguments else []
  | e => [e]

/-- The conditions of some trees, one tree after the other. -/
def conditionsOfAll : List TypedExpr → List TypedExpr
  | [] => []
  | e :: rest => conditions e ++ conditionsOfAll rest

end

/-- A tree joins conditions, as many as its function takes. -/
def Joins (e : TypedExpr) (arguments : List TypedExpr) : Prop :=
  ∃ form : Form, form.isConnective = true ∧ e.Applies form.function arguments
    ∧ arguments.length = form.arity

/-- A node that is passed on the way: a connective, whatever it joins, or a condition. -/
def Passes (schema : Schema) (limits : Limits) (n : TypedExpr) : Prop :=
  (∃ arguments, Joins n arguments) ∨ Convertible schema limits n

/-- `StopsAt schema limits e n`: of the nodes of `e`, in the order in which they are compiled,
`n` is the first that does not pass. -/
def StopsAt (schema : Schema) (limits : Limits) (e n : TypedExpr) : Prop :=
  ∃ before after, conditions e = before ++ n :: after ∧ (∀ m ∈ before, Passes schema limits m)
    ∧ ¬ Passes schema limits n

variable {schema : Schema} {limits : Limits} {e n : TypedExpr} {arguments : List TypedExpr}

/-- Joining is a matter of the form and of the number of arguments. -/
theorem joins_eq_true_iff {function : String} {count : Nat} :
    joins function count = true ↔
      ∃ form : Form, form.isConnective = true ∧ function = form.function
        ∧ count = form.arity := by
  unfold joins
  constructor
  · intro h
    rcases hform : Form.ofFunction? function with _ | form
    · simp [hform] at h
    · simp only [hform, Bool.and_eq_true, beq_iff_eq] at h
      exact ⟨form, h.1, ofFunction?_eq_some_iff.mp hform, h.2⟩
  · rintro ⟨form, hconnective, rfl, rfl⟩
    simp [ofFunction?_function, hconnective]

/-- The test on function and count decides whether a tree joins its arguments. -/
theorem joins_iff_of_applies {function : String} (happ : e.Applies function arguments) :
    joins function arguments.length = true ↔ Joins e arguments := by
  rw [joins_eq_true_iff]
  constructor
  · rintro ⟨form, hconnective, rfl, hcount⟩
    exact ⟨form, hconnective, happ, hcount⟩
  · rintro ⟨form, hconnective, happ', hcount⟩
    exact ⟨form, hconnective, (happ.unique happ').1, hcount⟩

/-- Several trees are gone through one after the other. -/
theorem conditionsOfAll_eq_flatMap (es : List TypedExpr) :
    conditionsOfAll es = es.flatMap conditions := by
  induction es with
  | nil => rw [conditionsOfAll, List.flatMap_nil]
  | cons e rest ih => rw [conditionsOfAll, List.flatMap_cons, ih]

/-- A connective comes before what it joins. -/
theorem Joins.conditions_eq (h : Joins e arguments) :
    conditions e = e :: arguments.flatMap conditions := by
  obtain ⟨form, hconnective, happ, hcount⟩ := h
  have hjoins := (joins_iff_of_applies happ).mpr ⟨form, hconnective, happ, hcount⟩
  -- with or without a receiver, which is not entered
  cases happ <;> simp only [conditions, hjoins, if_true, conditionsOfAll_eq_flatMap]

/-- At a node that joins nothing there is nothing behind it. -/
theorem conditions_eq_singleton (h : ∀ arguments, ¬ Joins e arguments) : conditions e = [e] := by
  have hnot : ∀ {function : String} {arguments : List TypedExpr}, e.Applies function arguments →
      ¬ joins function arguments.length = true :=
    fun happ hjoins => h _ ((joins_iff_of_applies happ).mp hjoins)
  cases e with
  | call type function arguments =>
      rw [conditions, if_neg (hnot (.call type function arguments))]
  | method type receiver function arguments =>
      rw [conditions, if_neg (hnot (.method type receiver function arguments))]
  | literal | ident | select | list => simp only [conditions]

/-- The nodes on the way are conditions inside the tree. -/
theorem within_of_mem_conditions (h : n ∈ conditions e) : Within n e := by
  induction e using TypedExpr.children_induction with
  | step e ih =>
      by_cases hjoins : ∃ arguments, Joins e arguments
      · obtain ⟨arguments, hjoins⟩ := hjoins
        rw [hjoins.conditions_eq, List.mem_cons, List.mem_flatMap] at h
        obtain ⟨form, hconnective, happ, -⟩ := hjoins
        -- the node itself, or one on the way through an argument
        rcases h with rfl | ⟨a, ha, hn⟩
        · exact Within.root n
        · exact Within.argument form hconnective happ ha
            (ih a (happ.arguments_subset a ha) hn)
      · rw [conditions_eq_singleton (not_exists.mp hjoins), List.mem_singleton] at h
        subst h
        exact Within.root n

/-- Only one node is the first that does not pass. -/
theorem StopsAt.unique {m : TypedExpr} (h : StopsAt schema limits e n)
    (h' : StopsAt schema limits e m) : n = m := by
  classical
  have first : ∀ {x}, StopsAt schema limits e x →
      (conditions e).find? (fun y => ¬ Passes schema limits y) = some x := by
    rintro x ⟨before, after, hlist, hbefore, hx⟩
    rw [List.find?_eq_some_iff_append]
    refine ⟨by simpa using hx, before, after, hlist, fun y hy => ?_⟩
    simpa using hbefore y hy
  exact Option.some.inj ((first h).symm.trans (first h'))

/-! ## Left before right -/

/-- A connective with the arguments it takes fails for the first of them that fails. -/
theorem Joins.exists_first_error {failure : ConvertError} (hjoins : Joins e arguments)
    (h : compile schema limits e = .error failure) :
    ∃ before a after, arguments = before ++ a :: after
      ∧ (∀ b ∈ before, ∃ p, compile schema limits b = .ok p)
      ∧ compile schema limits a = .error failure := by
  obtain ⟨form, hconnective, happ, hcount⟩ := hjoins
  rw [compile_of_applies happ] at h
  cases form with
  | both | either =>
      obtain ⟨left, right, rfl⟩ := List.length_eq_two.mp hcount
      rw [application_joined rfl] at h
      -- the left one fails, or it has been built and the right one fails
      rcases joined_eq_error h with hleft | ⟨⟨l, hleft⟩, hright⟩
      · exact ⟨[], left, [right], rfl, by simp, hleft⟩
      · exact ⟨[left], right, [], rfl, by simpa using ⟨l, hleft⟩, hright⟩
  | negation =>
      obtain ⟨inner, rfl⟩ := List.length_eq_one_iff.mp hcount
      rw [application_negation] at h
      exact ⟨[], inner, [], rfl, by simp, negated_eq_error h⟩
  -- the other forms join nothing
  | _ => cases hconnective

/-! ## The end of the way -/

/-- In a tree that compiles all nodes pass. -/
theorem passes_of_compile {p : Predicate} (h : compile schema limits e = .ok p) :
    ∀ m ∈ conditions e, Passes schema limits m := by
  intro m hm
  -- the nodes on the way are conditions inside the tree, and those have been derived
  obtain ⟨q, -, hq⟩ := (derives_of_compile h).of_within (within_of_mem_conditions hm)
  exact Or.inr hq.convertible

/-- **Compiling stops at the first node that does not pass.** A tree that fails has such a node,
and this node fails by itself for the same reason. -/
theorem exists_stopsAt_of_compile {failure : ConvertError}
    (h : compile schema limits e = .error failure) :
    ∃ n, StopsAt schema limits e n ∧ compile schema limits n = .error failure := by
  induction e using TypedExpr.children_induction with
  | step e ih =>
      by_cases hjoins : ∃ arguments, Joins e arguments
      · obtain ⟨arguments, hjoins⟩ := hjoins
        obtain ⟨before, a, after, rfl, hbefore, ha⟩ := hjoins.exists_first_error h
        have hchild : a ∈ e.children := by
          obtain ⟨form, -, happ, -⟩ := hjoins
          exact happ.arguments_subset a (by simp)
        obtain ⟨n, ⟨passed, rest, hlist, hpassed, hstop⟩, hn⟩ := ih a hchild ha
        refine ⟨n, ⟨e :: before.flatMap conditions ++ passed,
          rest ++ after.flatMap conditions, ?_, ?_, hstop⟩, hn⟩
        · rw [hjoins.conditions_eq, List.flatMap_append, List.flatMap_cons, hlist]
          simp
        · intro m hm
          simp only [List.cons_append, List.mem_cons, List.mem_append, List.mem_flatMap] at hm
          rcases hm with rfl | ⟨b, hb, hm⟩ | hm
          · exact Or.inl ⟨_, hjoins⟩
          · -- what stands to the left of the failing argument has been compiled
            obtain ⟨p, hp⟩ := hbefore b hb
            exact passes_of_compile hp m hm
          · exact hpassed m hm
      · refine ⟨e, ⟨[], [], conditions_eq_singleton (not_exists.mp hjoins), by simp, ?_⟩, h⟩
        rintro (hconnective | hconvertible)
        · exact hjoins hconnective
        · obtain ⟨p, hp⟩ := exists_compile_iff.mpr hconvertible
          rw [hp] at h
          cases h

/-- The node where compiling stops decides. -/
theorem StopsAt.compile_eq {failure : ConvertError} (h : StopsAt schema limits e n)
    (hn : compile schema limits n = .error failure) :
    compile schema limits e = .error failure := by
  rcases hcompile : compile schema limits e with why | p
  · obtain ⟨m, hm, hwhy⟩ := exists_stopsAt_of_compile hcompile
    -- the tree fails at its first node that does not pass, and there is one such node
    obtain rfl := h.unique hm
    exact hwhy.symm.trans hn
  · obtain ⟨before, after, hlist, -, hstop⟩ := h
    exact absurd (passes_of_compile hcompile n (by simp [hlist])) hstop

/-! ## Functions that conditions do not know -/

/-- A function of no form. -/
def Unsupported (function : String) : Prop := ∀ form : Form, function ≠ form.function

/-- A node that is refused for its function applies it, and conditions do not know it. -/
theorem Refused.unsupported {function : String}
    (h : Refused schema limits n (.unsupportedFunction function)) :
    (∃ arguments, n.Applies function arguments) ∧ Unsupported function := by
  cases h with
  | function happ hform => exact ⟨⟨_, happ⟩, hform⟩
  | compared _ _ hunfit | element _ _ _ hunfit => cases hunfit with | noConstant h => cases h
  | testConstant _ hconstant => cases hconstant

/-- A function of no form is nowhere among those of the forms. -/
theorem Unsupported.ofFunction?_eq {function : String} (h : Unsupported function) :
    Form.ofFunction? function = none := by
  rw [Option.eq_none_iff_forall_not_mem]
  intro form hsome
  exact h form (ofFunction?_eq_some_iff.mp hsome)

/-- An application of a function that conditions do not know fails for it, whatever its arguments
are. -/
theorem compile_of_unsupported {function : String} (happ : n.Applies function arguments)
    (hfunction : Unsupported function) :
    compile schema limits n = .error (.rejected (.unsupportedFunction function)) := by
  rw [compile_of_applies happ, application_unsupported hfunction.ofFunction?_eq]

/-- **Which function is reported.** A tree is refused for a function exactly if compiling stops
at an application of it and conditions do not know it. -/
theorem compile_unsupported_iff {function : String} :
    compile schema limits e = .error (.rejected (.unsupportedFunction function)) ↔
      ∃ n arguments, StopsAt schema limits e n ∧ n.Applies function arguments
        ∧ Unsupported function := by
  constructor
  · intro h
    obtain ⟨n, hstop, hn⟩ := exists_stopsAt_of_compile h
    have hpasses : ¬ Passes schema limits n := by
      obtain ⟨before, after, -, -, hnot⟩ := hstop
      exact hnot
    rcases refused_or_handed_on hn with hrefused | ⟨form, arguments, hconnective, happ, hlength, -⟩
    · obtain ⟨⟨arguments, happ⟩, hfunction⟩ := hrefused.unsupported
      exact ⟨n, arguments, hstop, happ, hfunction⟩
    · -- a connective passes, whatever it joins
      exact absurd (Or.inl ⟨arguments, form, hconnective, happ, hlength⟩) hpasses
  · rintro ⟨n, arguments, hstop, happ, hfunction⟩
    exact hstop.compile_eq (compile_of_unsupported happ hfunction)

end RowFilter.Condition
