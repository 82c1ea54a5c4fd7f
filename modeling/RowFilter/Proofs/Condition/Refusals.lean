/-
Why a tree is refused as a condition.

Where compiling succeeds there is a derivation; this is the other side. `Refused` lists what a
condition can be refused for, one rule for each check that may fail, with the reason that is given
and what is known of the tree at that point. Connectives have no reasons of their own: they
hand on, unchanged, what one of their arguments was refused for. So a tree that is refused has
inside it a condition with a reason of this list, `exists_refused_of_compile`, and what is to
be said of all rejections is said by going through the list.
-/
import RowFilter.Proofs.Condition.Columns

set_option autoImplicit false

namespace RowFilter.Condition

open Sql (CompareOp Predicate StringTest)

/-! ## Reasons -/

/-- `NoConstant a why`: the operand is no literal, or a literal that is never bound. -/
inductive NoConstant : TypedExpr → Rejection → Prop where
  | noLiteral {a : TypedExpr} (h : a.literal? = none) : NoConstant a .notAConstant
  | bytes {a : TypedExpr} {bs : List UInt8} (h : a.literal? = some (.bytes bs)) :
      NoConstant a .bytesConstant

/-- `Unfit schema field a why`: the operand is not bound where this field is compared, and
that is not because of being `null`. -/
inductive Unfit (schema : Schema) (field : String) : TypedExpr → Rejection → Prop where
  | noConstant {a : TypedExpr} {why : Rejection} (h : NoConstant a why) :
      Unfit schema field a why
  | wrongKind {a : TypedExpr} {value : Value} {declared : ValueType}
      (hvalue : a.literal? = some value) (hnull : value ≠ .null)
      (htype : schema.typeOf? field = some declared) (hscalar : declared.isScalar = true)
      (hkind : value.kind ≠ declared) :
      Unfit schema field a (.wrongLiteral field declared value.kind)

/-- `Refused schema limits e why`: the tree `e` is refused as a condition for a reason of its
own. -/
inductive Refused (schema : Schema) (limits : Limits) : TypedExpr → Rejection → Prop where
  | selection (type : ValueType) (operand : TypedExpr) (field : String) :
      Refused schema limits (.select type operand field) .notACondition
  | list (type : ValueType) (elements : List TypedExpr) :
      Refused schema limits (.list type elements) .notACondition
  | function {e : TypedExpr} {function : String} {arguments : List TypedExpr}
      (happ : e.Applies function arguments) (hform : ∀ form : Form, function ≠ form.function) :
      Refused schema limits e (.unsupportedFunction function)
  | operand {e operand : TypedExpr} (hoperand : Operand e operand)
      (hfield : operand.fieldRef? = none) : Refused schema limits e .notAField
  | compared {e left right : TypedExpr} {op : CompareOp} {field : String} {why : Rejection}
      (happ : e.Applies (Form.comparison op).function [left, right])
      (hfield : left.fieldRef? = some field) (h : Unfit schema field right why) :
      Refused schema limits e why
  | nullOrdering {e left right : TypedExpr} {op : CompareOp} {field : String}
      (hop : ∀ isNull, op ≠ nullOp isNull)
      (happ : e.Applies (Form.comparison op).function [left, right])
      (hfield : left.fieldRef? = some field) (hright : right.literal? = some .null) :
      Refused schema limits e (.nullOrdering field)
  | noList {e left right : TypedExpr} (happ : e.Applies Form.membership.function [left, right])
      (hright : ∀ type es, right ≠ .list type es) : Refused schema limits e .notAList
  | tooLarge {e left : TypedExpr} {type : ValueType} {es : List TypedExpr}
      (happ : e.Applies Form.membership.function [left, .list type es])
      (hsize : limits.maxInSize < es.length) :
      Refused schema limits e (.listTooLarge limits.maxInSize es.length)
  | element {e left a : TypedExpr} {type : ValueType} {es : List TypedExpr} {field : String}
      {why : Rejection} (happ : e.Applies Form.membership.function [left, .list type es])
      (hfield : left.fieldRef? = some field) (ha : a ∈ es) (h : Unfit schema field a why) :
      Refused schema limits e why
  | nullElement {e left a : TypedExpr} {type : ValueType} {es : List TypedExpr}
      {field : String} {index : Nat}
      (happ : e.Applies Form.membership.function [left, .list type es])
      (hfield : left.fieldRef? = some field) (ha : es[index]? = some a)
      (hnull : a.literal? = some .null) :
      Refused schema limits e (.nullElement index field)
  | testedType {type declared : ValueType} {receiver argument : TypedExpr} {field : String}
      (which : StringTest) (hfield : receiver.fieldRef? = some field)
      (htype : schema.typeOf? field = some declared) (hstring : declared ≠ .string) :
      Refused schema limits (.method type receiver (Form.test which).function [argument])
        (.testOnType (Form.test which).function field declared)
  | testConstant {type : ValueType} {receiver argument : TypedExpr} {why : Rejection}
      (which : StringTest) (h : NoConstant argument why) :
      Refused schema limits (.method type receiver (Form.test which).function [argument]) why
  | testArgument {type : ValueType} {receiver argument : TypedExpr} {value : Value}
      (which : StringTest) (hargument : argument.literal? = some value)
      (hstring : ∀ text, value ≠ .string text) :
      Refused schema limits (.method type receiver (Form.test which).function [argument])
        (.testArgument (Form.test which).function)

/-! ## Refused operands -/

variable {schema : Schema} {limits : Limits} {why : Rejection}

/-- The only reason against a field operand is that it is none. -/
theorem fieldName_eq_error {operand : TypedExpr} (h : fieldName operand = .error why) :
    operand.fieldRef? = none ∧ why = .notAField := by
  cases operand with
  -- names are what a field operand may be
  | ident | select => cases h
  | literal | call | method | list => exact ⟨rfl, (Except.error.inj h).symm⟩

/-- An operand that is no constant is no literal, or it is one of bytes. -/
theorem constant_eq_error {a : TypedExpr} (h : constant a = .error why) : NoConstant a why := by
  cases a with
  | literal type value =>
      cases value with
      | bytes bs =>
          obtain rfl := Except.error.inj h
          exact NoConstant.bytes rfl
      | _ => cases h
  | _ =>
      obtain rfl := Except.error.inj h
      exact NoConstant.noLiteral rfl

/-- A literal that is held against the schema in vain is of another kind than declared. -/
theorem unfit_of_checkLiteral {a : TypedExpr} {field : String} {value : Value}
    (hconstant : constant a = .ok value) (hnull : ¬ value.isNull = true)
    (h : checkLiteral schema field value = .error why) : Unfit schema field a why := by
  have hvalue := (constant_eq_ok_iff.mp hconstant).1
  have hnotNull : value ≠ .null := fun hv => hnull (isNull_eq_true_iff.mpr hv)
  unfold checkLiteral at h
  rcases htype : schema.typeOf? field with _ | declared
  · simp [htype] at h
  · simp only [htype] at h
    by_cases hwrong : declared.isScalar = true ∧ value.kind ≠ declared
    · rw [if_pos hwrong] at h
      obtain rfl := Except.error.inj h
      exact Unfit.wrongKind hvalue hnotNull htype hwrong.1 hwrong.2
    · rw [if_neg hwrong] at h
      cases h

/-! ## Refused leaves -/

/-- A comparison that is refused has an operand that is no field or a side that is not bound. -/
theorem refused_of_comparison {e left right : TypedExpr} {op : CompareOp}
    (happ : e.Applies (Form.comparison op).function [left, right])
    (h : comparison schema op left right = .error why) : Refused schema limits e why := by
  unfold comparison at h
  rcases hleft : fieldName left with why' | field
  · simp only [hleft, Except.error.injEq] at h
    obtain ⟨hfield, rfl⟩ := fieldName_eq_error hleft
    subst h
    exact Refused.operand (Operand.comparison happ) hfield
  · have hfield := fieldName_eq_ok_iff.mp hleft
    -- the field is one; what is left are the reasons against the right side
    rcases hright : constant right with why' | value
    · simp only [hleft, hright, Except.error.injEq] at h
      subst h
      exact Refused.compared happ hfield (Unfit.noConstant (constant_eq_error hright))
    · simp only [hleft, hright] at h
      by_cases hnull : value.isNull = true
      · -- `null` is refused by the comparisons that are not turned into a check for it
        rw [if_pos hnull] at h
        have hvalue := (constant_eq_ok_iff.mp hright).1
        rw [isNull_eq_true_iff.mp hnull] at hvalue
        have hop : ∀ isNull, op ≠ nullOp isNull := by
          rintro isNull rfl
          cases isNull <;> cases h
        cases op with
        | eq | notEq => cases h
        | _ =>
            obtain rfl := Except.error.inj h
            exact Refused.nullOrdering hop happ hfield hvalue
      · rw [if_neg hnull] at h
        rcases hcheck : checkLiteral schema field value with why' | u
        · simp only [hcheck, Except.error.injEq] at h
          subst h
          exact Refused.compared happ hfield (unfit_of_checkLiteral hright hnull hcheck)
        · simp [hcheck] at h

/-- The elements of a list are refused for one of them, at the place that is reported if it is
`null`. -/
theorem elements_eq_error {field : String} {es : List TypedExpr} {start : Nat}
    (h : elements schema field start es = .error why) :
    (∃ a ∈ es, Unfit schema field a why)
      ∨ ∃ index a, es[index]? = some a ∧ a.literal? = some .null
          ∧ why = .nullElement (start + index) field := by
  induction es generalizing start with
  | nil => cases h
  | cons e rest ih =>
      rw [elements] at h
      rcases he : constant e with why' | value
      · simp only [he, Except.error.injEq] at h
        subst h
        exact Or.inl ⟨e, List.mem_cons_self, Unfit.noConstant (constant_eq_error he)⟩
      · simp only [he] at h
        by_cases hnull : value.isNull = true
        · rw [if_pos hnull] at h
          have hvalue := (constant_eq_ok_iff.mp he).1
          rw [isNull_eq_true_iff.mp hnull] at hvalue
          exact Or.inr ⟨0, e, rfl, hvalue, (Except.error.inj h).symm⟩
        · rw [if_neg hnull] at h
          rcases hcheck : checkLiteral schema field value with why' | u
          · simp only [hcheck, Except.error.injEq] at h
            subst h
            exact Or.inl ⟨e, List.mem_cons_self, unfit_of_checkLiteral he hnull hcheck⟩
          · -- the head has passed, so it was something in the rest, one place further on
            simp only [hcheck] at h
            rcases hrest : elements schema field (start + 1) rest with why' | vs
            · simp only [hrest, Except.map, Except.error.injEq] at h
              subst h
              rcases ih hrest with ⟨a, ha, hunfit⟩ | ⟨index, a, ha, hvalue, rfl⟩
              · exact Or.inl ⟨a, List.mem_cons_of_mem _ ha, hunfit⟩
              · refine Or.inr ⟨index + 1, a, ?_, hvalue, ?_⟩
                · rw [List.getElem?_cons_succ]
                  exact ha
                · rw [Nat.add_assoc, Nat.add_comm 1 index]
            · simp [hrest, Except.map] at h

/-- A membership that is refused has an operand that is no field, no list, a list that is too
long, or an element that is not bound. -/
theorem refused_of_membership {e left right : TypedExpr}
    (happ : e.Applies Form.membership.function [left, right])
    (h : membership schema limits left right = .error why) : Refused schema limits e why := by
  unfold membership at h
  rcases hleft : fieldName left with why' | field
  · simp only [hleft, Except.error.injEq] at h
    obtain ⟨hfield, rfl⟩ := fieldName_eq_error hleft
    subst h
    exact Refused.operand (Operand.membership happ) hfield
  · have hfield := fieldName_eq_ok_iff.mp hleft
    cases right with
    | list type es =>
        simp only [hleft, Limits.checkInSize] at h
        by_cases hsize : limits.maxInSize < es.length
        · simp only [hsize, if_true, Except.error.injEq] at h
          subst h
          exact Refused.tooLarge happ hsize
        · simp only [hsize, if_false] at h
          -- an empty list is never refused
          by_cases hempty : es.isEmpty = true
          · rw [if_pos hempty] at h
            cases h
          · rw [if_neg hempty] at h
            rcases hes : elements schema field 0 es with why' | values
            · simp only [hes, Except.map, Except.error.injEq] at h
              subst h
              rcases elements_eq_error hes with ⟨a, ha, hunfit⟩ | ⟨index, a, ha, hnull, rfl⟩
              · exact Refused.element happ hfield ha hunfit
              · rw [Nat.zero_add]
                exact Refused.nullElement happ hfield ha hnull
            · simp [hes, Except.map] at h
    | _ =>
        simp only [hleft, Except.error.injEq] at h
        subst h
        exact Refused.noList happ fun type es hlist => by cases hlist

/-- The argument of a test is refused for not being a text. -/
theorem refused_of_pattern {type : ValueType} {receiver argument : TypedExpr} {field : String}
    {which : StringTest}
    (h : stringTest.pattern schema which (Form.test which).function argument field = .error why) :
    Refused schema limits (.method type receiver (Form.test which).function [argument]) why := by
  unfold stringTest.pattern at h
  rcases hconstant : constant argument with why' | value
  · simp only [hconstant, Except.error.injEq] at h
    subst h
    exact Refused.testConstant which (constant_eq_error hconstant)
  · have hvalue := (constant_eq_ok_iff.mp hconstant).1
    simp only [hconstant] at h
    cases value with
    | string text => cases h
    | _ =>
        obtain rfl := Except.error.inj h
        exact Refused.testArgument which hvalue fun text htext => by cases htext

/-- A test that is refused has a receiver that is no field or one that is declared with another
type, or an argument that is no text. -/
theorem refused_of_stringTest {type : ValueType} {receiver argument : TypedExpr}
    {which : StringTest}
    (h : stringTest schema which (Form.test which).function receiver argument = .error why) :
    Refused schema limits (.method type receiver (Form.test which).function [argument]) why := by
  unfold stringTest at h
  rcases hreceiver : fieldName receiver with why' | field
  · simp only [hreceiver, Except.error.injEq] at h
    obtain ⟨hfield, rfl⟩ := fieldName_eq_error hreceiver
    subst h
    exact Refused.operand (Operand.test _ _ which _) hfield
  · have hfield := fieldName_eq_ok_iff.mp hreceiver
    rcases htype : schema.typeOf? field with _ | declared
    · simp only [hreceiver, htype] at h
      exact refused_of_pattern h
    · simp only [hreceiver, htype] at h
      by_cases hstring : declared = .string
      · rw [if_pos hstring] at h
        exact refused_of_pattern h
      · rw [if_neg hstring] at h
        obtain rfl := Except.error.inj h
        exact Refused.testedType which hfield htype hstring

/-! ## Refused conditions -/

/-- A tree is refused for a reason of its own, or as a connective for what one of its arguments is
refused for. -/
theorem refused_or_handed_on {e : TypedExpr}
    (h : compile schema limits e = .error (.rejected why)) :
    Refused schema limits e why
      ∨ ∃ (form : Form) (arguments : List TypedExpr), form.isConnective = true
          ∧ e.Applies form.function arguments ∧ arguments.length = form.arity
          ∧ ∃ a ∈ arguments, compile schema limits a = .error (.rejected why) := by
  rw [compile] at h
  have hbuilds := builds schema limits e
  generalize build schema limits e = step at hbuilds h
  cases hbuilds with
  -- no success is refused, and breaches of contract are no rejections
  | truth | field | literal | breach => cases h
  | selection type operand field =>
      obtain rfl := ConvertError.rejected.inj (Except.error.inj h)
      exact Or.inl (Refused.selection type operand field)
  | list type elements =>
      obtain rfl := ConvertError.rejected.inj (Except.error.inj h)
      exact Or.inl (Refused.list type elements)
  | unsupported happ hform =>
      obtain rfl := ConvertError.rejected.inj (Except.error.inj h)
      refine Or.inl (Refused.function happ fun form hfunction => ?_)
      rw [ofFunction?_eq_some_iff.mpr hfunction] at hform
      cases hform
  | joined hform happ =>
      obtain ⟨hconnective, harity⟩ := Form.of_combine? hform
      refine Or.inr ⟨_, _, hconnective, happ, harity.symm, ?_⟩
      rcases joined_eq_error h with hleft | ⟨-, hright⟩
      · exact ⟨_, by simp, hleft⟩
      · exact ⟨_, by simp, hright⟩
  | negation happ => exact Or.inr ⟨_, _, rfl, happ, rfl, _, by simp, negated_eq_error h⟩
  | comparison happ => exact Or.inl (refused_of_comparison happ (rejecting_eq_error h))
  | membership happ => exact Or.inl (refused_of_membership happ (rejecting_eq_error h))
  | test => exact Or.inl (refused_of_stringTest (rejecting_eq_error h))

/-- **Refusals have a place and a reason.** In a tree that is refused there is a condition that
is refused for the same reason, as a reason of its own. -/
theorem exists_refused_of_compile {e : TypedExpr}
    (h : compile schema limits e = .error (.rejected why)) :
    ∃ n, Within n e ∧ Refused schema limits n why := by
  induction e using TypedExpr.children_induction with
  | step e ih =>
      -- the reason is here, or the tree hands on what an argument was refused for
      rcases refused_or_handed_on h with hown | ⟨form, arguments, hform, happ, -, a, ha, hargument⟩
      · exact ⟨e, Within.root e, hown⟩
      · obtain ⟨n, hn, hrefused⟩ := ih a (happ.arguments_subset a ha) hargument
        exact ⟨n, Within.argument form hform happ ha hn, hrefused⟩

/-! ## Codes -/

/-- The codes that conditions are refused with. -/
def refusalCodes : List ErrorCode := [.unsupportedOperation, .typeMismatch, .listTooLarge]

/-- An operand that is no constant is refused as what conditions cannot express. -/
theorem NoConstant.code_eq {a : TypedExpr} (h : NoConstant a why) :
    why.code = .unsupportedOperation := by
  cases h <;> rfl

/-- The code of a side that is not bound is one of three. -/
theorem Unfit.code_mem {a : TypedExpr} {field : String} (h : Unfit schema field a why) :
    why.code ∈ refusalCodes := by
  cases h with
  | noConstant h =>
      rw [h.code_eq]
      decide
  | wrongKind =>
      rw [Rejection.code]
      decide

/-- Every reason of a condition has one of the three codes. -/
theorem Refused.code_mem {e : TypedExpr} (h : Refused schema limits e why) :
    why.code ∈ refusalCodes := by
  cases h with
  | compared happ hfield h => exact h.code_mem
  | element happ hfield ha h => exact h.code_mem
  | testConstant which h =>
      rw [h.code_eq]
      decide
  | _ =>
      rw [Rejection.code]
      decide

/-- A tree that fails with a code as a condition fails with one of these. -/
theorem code_mem_of_compile {e : TypedExpr} {failure : ConvertError} {code : ErrorCode}
    (h : compile schema limits e = .error failure) (hcode : failure.code? = some code) :
    code ∈ refusalCodes := by
  cases failure with
  | rejected why =>
      obtain ⟨n, -, hrefused⟩ := exists_refused_of_compile h
      obtain rfl := Option.some.inj hcode
      exact hrefused.code_mem
  -- a breach of contract has no code
  | contract breach => cases hcode

end RowFilter.Condition
