/-
Source text is never the cause of a breach of contract.

A converter that is made of settings compiles with the checker, and the checker keeps the
contract that conditions ask for. What a node of a checked tree applies is an operator with
its operands or a call that the rules allow; either way the number of its arguments is the
one that the form of the function asks for, and a test on a string has its receiver. That
literals are truth values follows from the type: a tree of type `bool` has conditions of
type `bool` only, since the connectives take nothing else.
-/
import RowFilter.Proofs.Condition.Contract
import RowFilter.Proofs.Conversion.Pipeline
import RowFilter.Proofs.Conversion.Settings
import RowFilter.Proofs.TypedExpr.Equality

set_option autoImplicit false

namespace RowFilter

open Condition (Form KeepsContract Settled Within)
open TypedExpr (Part)

/-! ## Applications in checked trees -/

namespace Typing

variable {env : Environment} {e : TypedExpr}

/-- What a checked tree applies: an operator to its operands, or a function to what its
rule asks for. -/
inductive Application (e : TypedExpr) : String → List TypedExpr → Prop where
  | unary {operator : UnaryOperator} {operand : TypedExpr}
      (hrule : UnaryRule operator operand.type e.type) :
      Application e operator.function [operand]
  | binary {operator : BinaryOperator} {left right : TypedExpr}
      (hrule : BinaryRule operator left.type right.type e.type) :
      Application e operator.function [left, right]
  | call {function : String} {arguments : List TypedExpr}
      (hrule : CallRule function (e.receiver?.map TypedExpr.type)
        (arguments.map TypedExpr.type) e.type) :
      Application e function arguments

/-- A node that applies something has been checked by the rule for what it applies. -/
theorem Node.application {function : String} {arguments : List TypedExpr} (hnode : Node env e)
    (happ : e.Applies function arguments) : Application e function arguments := by
  cases hnode with
  | unary operator htype =>
      cases happ
      exact Application.unary (unaryType?_eq_some_iff.mp htype)
  | binary operator htype =>
      cases happ
      exact Application.binary (binaryType?_eq_some_iff.mp htype)
  | call htype =>
      cases happ
      exact Application.call (callType_eq_ok_iff.mp htype)
  | method htype =>
      cases happ
      exact Application.call (callType_eq_ok_iff.mp htype)
  | literal | ident | select | list => cases happ

/-! ### Forms and operators -/

/-- Of the operators with one operand only `!` makes conditions. -/
theorem form_of_unary {operator : UnaryOperator} {form : Form}
    (h : form.function = operator.function) : form = .negation ∧ operator = .not := by
  have hform := Condition.ofFunction?_function form
  rw [h] at hform
  -- no form is written with the minus sign
  cases operator <;> cases hform
  exact ⟨rfl, rfl⟩

/-- The forms that are written with operators of two operands. -/
theorem form_of_binary {operator : BinaryOperator} {form : Form}
    (h : form.function = operator.function) :
    form.arity = 2 ∧ (∀ which, form ≠ .test which)
      ∧ (form.isConnective = true → operator ∈ [.and, .or]) := by
  -- operators that are no conditions have no form, and the equation is absurd
  have hform := Condition.ofFunction?_function form
  rw [h] at hform
  cases operator <;> cases hform <;> simp [Form.arity, Form.isConnective]

/-- The forms that are written as calls are the tests on strings. -/
theorem form_of_call {form : Form} {receiver : Option ValueType} {arguments : List ValueType}
    {type : ValueType} (h : CallRule form.function receiver arguments type) :
    (∃ which, form = .test which) ∧ arguments.length = 1 ∧ ∃ r, receiver = some r := by
  have hform := Condition.ofFunction?_function form
  generalize form.function = function at h hform
  cases h with
  | stringTest hfunction =>
      refine ⟨?_, rfl, _, rfl⟩
      simp only [stringTests, List.mem_cons, List.not_mem_nil, or_false] at hfunction
      -- one of the four text functions is no test that conditions know
      rcases hfunction with rfl | rfl | rfl | rfl <;> cases hform <;> exact ⟨_, rfl⟩
  | size | sizeOfReceiver => cases hform

/-- The operands of `!` are truth values. -/
theorem bool_of_not {operand type : ValueType} (h : UnaryRule .not operand type) :
    operand = .bool := by
  cases h
  rfl

/-- The operands of the other connectives are truth values. -/
theorem bool_of_logical {operator : BinaryOperator} {left right type : ValueType}
    (h : BinaryRule operator left right type) (hlogical : operator ∈ [.and, .or]) :
    left = .bool ∧ right = .bool := by
  cases h with
  | logical => exact ⟨rfl, rfl⟩
  | equality hoperator | ordering hoperator | arithmetic hoperator =>
      simp only [List.mem_cons, List.not_mem_nil, or_false] at hlogical
      -- the other rules are those of other operators
      rcases hlogical with rfl | rfl <;> simp at hoperator
  | inList | inMap => simp at hlogical

/-! ### Conditions in checked trees -/

/-- The arguments of a form are as many as it asks for, and those of a connective are
truth values; a test on a string has its receiver. -/
theorem Application.keeps {form : Form} {arguments : List TypedExpr}
    (h : Application e form.function arguments) :
    arguments.length = form.arity
      ∧ (form.isConnective = true → ∀ a ∈ arguments, a.type = .bool)
      ∧ ∀ which, form = .test which → ∃ r, e.receiver? = some r := by
  -- an operator of one side, of two sides, or a call: each has forms of its own
  generalize hfunction : form.function = function at h
  cases h with
  | unary hrule =>
      obtain ⟨rfl, rfl⟩ := form_of_unary hfunction
      refine ⟨rfl, fun _ a ha => ?_, fun which hwhich => by cases hwhich⟩
      rw [List.mem_singleton.mp ha]
      exact bool_of_not hrule
  | binary hrule =>
      obtain ⟨harity, hnotest, hlogical⟩ := form_of_binary hfunction
      refine ⟨harity.symm, fun hconnective => ?_, fun which hwhich =>
        absurd hwhich (hnotest which)⟩
      obtain ⟨hleft, hright⟩ := bool_of_logical hrule (hlogical hconnective)
      simp [hleft, hright]
  | call hrule =>
      subst hfunction
      obtain ⟨⟨which, rfl⟩, harity, r, hr⟩ := form_of_call hrule
      obtain ⟨receiver, hreceiver, -⟩ := Option.map_eq_some_iff.mp hr
      rw [List.length_map] at harity
      exact ⟨harity, fun h => (by cases h), fun _ _ => ⟨receiver, hreceiver⟩⟩

/-- A checked node of type `bool` keeps the contract. -/
theorem Node.keepsContract (hnode : Node env e) (htype : e.type = .bool) : KeepsContract e where
  literal value hvalue := by
    cases hnode with
    | literal v =>
        obtain rfl := Option.some.inj hvalue
        exact htype
    | ident | select | unary | binary | call | method | list => cases hvalue
  arity form arguments happ := (hnode.application happ).keeps.1
  receiver which arguments happ := (hnode.application happ).keeps.2.2 which rfl

/-- The conditions of a checked tree of type `bool` are of this type. -/
theorem bool_of_within {n : TypedExpr} (hin : Within n e) (hnodes : AllNodes env e)
    (htype : e.type = .bool) : n.type = .bool := by
  induction hin with
  | root => exact htype
  | argument form hform happ ha _ ih =>
      -- an argument of a connective is checked as a part, and is a truth value by its rule
      have hpart := happ.part_of_mem ha
      have hbool := ((hnodes _ (Part.root _)).application happ).keeps.2.1 hform _ ha
      exact ih (fun n hn => hnodes n (hn.trans hpart)) hbool

/-- The conditions of a checked tree of type `bool` keep the contract. -/
theorem AllNodes.keepsContract (hnodes : AllNodes env e) (htype : e.type = .bool) :
    ∀ n, Within n e → KeepsContract n := by
  intro n hn
  exact (hnodes n hn.part).keepsContract (bool_of_within hn hnodes htype)

end Typing

/-! ## Conversions -/

namespace Converter

/-- A conversion is settled if the tree of an admitted source is as a condition. -/
theorem settled_run {c : Converter} {source : String} (roles : Option (List String))
    (h : ∀ tree, c.Admits source tree → Settled (Condition.compile c.schema c.limits tree)) :
    Settled (c.run source roles).result := by
  rw [run]
  rcases hcheck : c.check source with why | checked
  · rw [attempt_of_check_eq_error hcheck]
    exact Settled.rejected why
  · have hadmits := (check_eq_ok_iff.mp hcheck).1
    rcases hrestricted : c.restricted? checked.tree roles with _ | ⟨rs, field⟩
    · rw [hadmits.attempt_of_unrestricted hrestricted]
      exact (h checked.tree hadmits).map _
    · rw [hadmits.attempt_of_restricted hrestricted]
      exact Settled.rejected _

/-- **Source text breaks no contract.** What a converter made of settings answers is a
conversion or a rejection, for every source and whether or not there are roles, since the
trees that come from the checker keep the contract: if such a tree is of type `bool`, then
all its conditions have the arguments and receivers of their functions, and those that are
literals are truth values. -/
theorem ofConfig_run_settled {config : Config} {c : Converter} (hconfig : ofConfig config = .ok c) :
    (∀ source roles, Settled (c.run source roles).result)
      ∧ ∀ (env : Environment) source tree, env.compile source = .ok tree → tree.type = .bool →
          ∀ n, Within n tree → KeepsContract n := by
  have hkeeps : ∀ (env : Environment) source tree, env.compile source = .ok tree →
      tree.type = .bool → ∀ n, Within n tree → KeepsContract n := by
    intro env source tree htree hbool
    exact (allNodes_of_compile htree).keepsContract hbool
  obtain ⟨-, env, rfl, -⟩ := ofConfig_spec hconfig
  refine ⟨fun source roles => ?_, hkeeps⟩
  refine settled_run roles fun tree hadmits => ?_
  exact Condition.settled_compile (hkeeps env source tree hadmits.compiles hadmits.boolean)

/-! ### A flag and a test -/

/-- A truth value and a text. -/
def flagConfig : Config :=
  { Config.empty with fields := [⟨"active", .bool, none⟩, ⟨"name", .string, none⟩] }

def flagEnv : Environment := ⟨flagConfig.declarations⟩

def flagConverter : Converter := withCompiler flagConfig (.environment flagEnv)

/-- A test on the text. -/
def nameTest : TypedExpr :=
  .method .bool (.ident .string "name") "startsWith" [.ofValue (.string "a")]

/-- The flag is off, or the text passes the test. -/
def flagTree : TypedExpr :=
  .call .bool "_||_" [.call .bool "!_" [.ident .bool "active"], nameTest]

/-- One source text is converted, and the test in its tree keeps the contract; another one,
which compares the flag with itself, is settled as well. -/
theorem ofConfig_run_settled_flag :
    ofConfig flagConfig = .ok flagConverter
      ∧ (flagConverter.run "!active || name.startsWith(\"a\")" none).result
          = .ok ⟨.or (.not (.compare "active" .eq (.boolean true))) (.like "name" "a%"), 3⟩
      ∧ Settled (flagConverter.run "active == active" (some ["hr"])).result
      ∧ flagEnv.compile "!active || name.startsWith(\"a\")" = .ok flagTree
      ∧ flagTree.type = .bool ∧ Within nameTest flagTree ∧ KeepsContract nameTest := by
  have hconfig : ofConfig flagConfig = .ok flagConverter := rfl
  have hconverts : (flagConverter.run "!active || name.startsWith(\"a\")" none).result
      = .ok ⟨.or (.not (.compare "active" .eq (.boolean true))) (.like "name" "a%"), 3⟩ :=
    eq_ok_of_toOption (by decide +kernel)
  have htree : flagEnv.compile "!active || name.startsWith(\"a\")" = .ok flagTree :=
    eq_ok_of_toOption (by decide +kernel)
  have hin : Within nameTest flagTree :=
    Within.argument .either rfl (.call _ _ _) (by simp) (Within.root nameTest)
  obtain ⟨hsettled, hkeeps⟩ := ofConfig_run_settled hconfig
  exact ⟨hconfig, hconverts, hsettled _ _, htree, rfl, hin,
    hkeeps flagEnv _ flagTree htree rfl nameTest hin⟩

end Converter

end RowFilter
