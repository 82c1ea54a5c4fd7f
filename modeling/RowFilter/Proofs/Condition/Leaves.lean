/-
The leaves of conditions: what a tree that is not a connective has to look like to
become a condition, and which condition it becomes.

The functions that build leaves run through their checks one after the other and
stop at the first that fails. What matters to everything that is proved about
conditions is which checks have been passed when they succeed. `Leaf` says that, one
rule for each kind of leaf, and the lemmas here read each function as its rules. What
they fail for, and what they do on two trees at once, are questions of their own.
-/
import RowFilter.Conversion.Condition
import RowFilter.Expr.Operator
import RowFilter.Proofs.TypedExpr.Parts

set_option autoImplicit false

namespace RowFilter

/-! ## Applications -/

namespace TypedExpr

/-- A tree applies a function to arguments, with or without a receiver. -/
inductive Applies : TypedExpr → String → List TypedExpr → Prop where
  | call (type : ValueType) (function : String) (arguments : List TypedExpr) :
      Applies (.call type function arguments) function arguments
  | method (type : ValueType) (receiver : TypedExpr) (function : String)
      (arguments : List TypedExpr) :
      Applies (.method type receiver function arguments) function arguments

/-- The receiver of an application. -/
def receiver? : TypedExpr → Option TypedExpr
  | .method _ receiver _ _ => some receiver
  | _ => none

/-- The value of a literal. -/
def literal? : TypedExpr → Option Value
  | .literal _ value => some value
  | _ => none

/-- Arguments are direct parts. -/
theorem Applies.arguments_subset {e : TypedExpr} {function : String}
    {arguments : List TypedExpr} (h : e.Applies function arguments) :
    ∀ a ∈ arguments, a ∈ e.children := by
  intro a ha
  cases h with
  | call => exact ha
  | method => exact List.mem_cons_of_mem _ ha

theorem Applies.part_of_mem {e a : TypedExpr} {function : String} {arguments : List TypedExpr}
    (h : e.Applies function arguments) (ha : a ∈ arguments) : Part a e :=
  Part.inside (h.arguments_subset a ha) (Part.root a)

/-- The function and the arguments of an application are determined. -/
theorem Applies.unique {e : TypedExpr} {f g : String} {as bs : List TypedExpr}
    (hf : e.Applies f as) (hg : e.Applies g bs) : f = g ∧ as = bs := by
  cases hf <;> cases hg <;> exact ⟨rfl, rfl⟩

end TypedExpr

namespace Sql

/-- The operator of expressions that asks for the same relation as a comparison of
conditions. -/
def CompareOp.operator : CompareOp → BinaryOperator
  | .eq => .equal
  | .notEq => .notEqual
  | .lt => .lessThan
  | .ltEq => .lessOrEqual
  | .gt => .greaterThan
  | .gtEq => .greaterOrEqual

/-- The function of expressions that asks for the same test as a pattern. -/
def StringTest.function : StringTest → String
  | .contains => "contains"
  | .startsWith => "startsWith"
  | .endsWith => "endsWith"

end Sql

namespace Condition

open Sql (CompareOp Predicate StringTest)

/-! ## Forms and their functions -/

/-- The function whose applications have a form. -/
def Form.function : Form → String
  | .both => BinaryOperator.and.function
  | .either => BinaryOperator.or.function
  | .negation => UnaryOperator.not.function
  | .comparison op => op.operator.function
  | .membership => BinaryOperator.isIn.function
  | .test which => which.function

/-- The number of arguments of a form. -/
def Form.arity : Form → Nat
  | .both | .either | .comparison _ | .membership => 2
  | .negation | .test _ => 1

/-- The forms that a receiver belongs to. -/
def Form.isTest : Form → Bool
  | .test _ => true
  | _ => false

/-- The forms that join conditions. -/
def Form.isConnective : Form → Bool
  | .both | .either | .negation => true
  | _ => false

/-- What the forms that join two conditions make of them. -/
def Form.combine? : Form → Option (Predicate → Predicate → Predicate)
  | .both => some .and
  | .either => some .or
  | _ => none

/-- What a form asks for before any of its arguments is looked at: their number, and for a test a
receiver. -/
structure Form.Takes (form : Form) (receiver : Option TypedExpr) (arguments : List TypedExpr) :
    Prop where
  length_eq : arguments.length = form.arity
  receiver : form.isTest = true → receiver.isSome = true

/-- The breach of contract that is found in an application that is not as its form asks. A test
without a receiver is one whatever its arguments are. -/
def Form.breach (form : Form) (receiver : Option TypedExpr) (count : Nat) : Breach :=
  if form.isTest && receiver.isNone then .missingReceiver form.function
  else .arity form.function form.arity count

/-- The forms that join two conditions are connectives of two arguments. -/
theorem Form.of_combine? {form : Form} {combine : Predicate → Predicate → Predicate}
    (hform : form.combine? = some combine) : form.isConnective = true ∧ form.arity = 2 := by
  cases form with
  | both | either => exact ⟨rfl, rfl⟩
  | _ => cases hform

/-- The function of a form has this form. -/
theorem ofFunction?_function (form : Form) : Form.ofFunction? form.function = some form := by
  cases form with
  | comparison op => cases op <;> rfl
  | test which => cases which <;> rfl
  | _ => rfl

/-- Different forms have different functions. -/
theorem Form.function_injective {form form' : Form} (h : form.function = form'.function) :
    form = form' := by
  have hform := ofFunction?_function form
  rw [h, ofFunction?_function] at hform
  exact (Option.some.inj hform).symm

/-- The name of a test determines which test it is of. -/
theorem stringTest_function {function : String} {which : StringTest}
    (h : StringTest.ofFunction? function = some which) : function = which.function := by
  unfold StringTest.ofFunction? at h
  split at h <;> cases h <;> rfl

/-- A form has no other function than its own, so no other spelling is taken for an
operator. -/
theorem ofFunction?_eq_some_iff {function : String} {form : Form} :
    Form.ofFunction? function = some form ↔ function = form.function := by
  constructor
  · intro h
    unfold Form.ofFunction? at h
    split at h
    -- the last branch asks for a test; every other one is for a single function
    case h_11 =>
      obtain ⟨which, hwhich, rfl⟩ := Option.map_eq_some_iff.mp h
      exact stringTest_function hwhich
    all_goals
      cases h
      rfl
  · rintro rfl
    exact ofFunction?_function form

/-! ## Operands -/

/-- A field operand is a node that names a field. -/
theorem fieldName_eq_ok_iff {e : TypedExpr} {field : String} :
    fieldName e = .ok field ↔ e.fieldRef? = some field := by
  cases e <;> simp [fieldName, TypedExpr.fieldRef?]

/-- A literal agrees in kind with the declared type of a field, if that is scalar. -/
def Fits (schema : Schema) (field : String) (value : Value) : Prop :=
  ∀ type, schema.typeOf? field = some type → type.isScalar = true → value.kind = type

/-- A literal passes the schema exactly if it fits its field. -/
theorem checkLiteral_eq_ok_iff {schema : Schema} {field : String} {value : Value} :
    checkLiteral schema field value = .ok () ↔ Fits schema field value := by
  unfold checkLiteral Fits
  cases schema.typeOf? field with
  | none => simp
  | some declared =>
      by_cases hs : declared.isScalar = true <;> by_cases hk : value.kind = declared <;>
        simp [hs, hk]

/-- What can be bound where a field is compared: a value other than `null` and bytes
that fits the field. -/
structure Bindable (schema : Schema) (field : String) (value : Value) : Prop where
  notNull : value ≠ .null
  notBytes : ∀ bs, value ≠ .bytes bs
  fits : Fits schema field value

/-- A constant operand is a literal other than bytes. -/
theorem constant_eq_ok_iff {e : TypedExpr} {value : Value} :
    -- bytes are literals that are never bound
    constant e = .ok value ↔ e.literal? = some value ∧ ∀ bs, value ≠ .bytes bs := by
  cases e with
  | literal type v =>
      cases v with
      | bytes bs =>
          constructor
          · intro h
            cases h
          · rintro ⟨h, hbytes⟩
            cases h
            exact absurd rfl (hbytes bs)
      | _ =>
          constructor
          · intro h
            cases h
            exact ⟨rfl, fun bs hbs => by cases hbs⟩
          · rintro ⟨h, -⟩
            cases h
            rfl
  | _ => simp [constant, TypedExpr.literal?]

/-- The check for `null` finds `null` and nothing else. -/
theorem isNull_eq_true_iff {value : Value} : value.isNull = true ↔ value = .null := by
  cases value <;> simp [Value.isNull]

/-- A literal that passes the checks one after the other can be bound. -/
theorem Bindable.of_checks {schema : Schema} {field : String} {e : TypedExpr} {value : Value}
    (hconstant : constant e = .ok value) (hnull : ¬ value.isNull = true)
    (hcheck : checkLiteral schema field value = .ok ()) : Bindable schema field value where
  notNull hv := hnull (isNull_eq_true_iff.mpr hv)
  notBytes := (constant_eq_ok_iff.mp hconstant).2
  fits := checkLiteral_eq_ok_iff.mp hcheck

/-- A literal that can be bound is a constant operand. -/
theorem Bindable.constant_eq {schema : Schema} {field : String} {e : TypedExpr} {value : Value}
    (h : Bindable schema field value) (hliteral : e.literal? = some value) :
    constant e = .ok value :=
  constant_eq_ok_iff.mpr ⟨hliteral, h.notBytes⟩

/-- What can be bound is not `null`. -/
theorem Bindable.isNull_eq {schema : Schema} {field : String} {value : Value}
    (h : Bindable schema field value) : value.isNull = false := by
  rw [Bool.eq_false_iff]
  exact fun hnull => h.notNull (isNull_eq_true_iff.mp hnull)

/-- The comparison of which a check for `null` is made: equality for being `null`,
inequality for not being it. -/
def nullOp : Bool → CompareOp
  | true => .eq
  | false => .notEq

/-! ## Leaves -/

/-- `Leaf schema limits e p`: the tree `e` is no connective, and it is the condition
`p`. -/
inductive Leaf (schema : Schema) (limits : Limits) : TypedExpr → Predicate → Prop where
  | constant (type : ValueType) (value : Bool) :
      Leaf schema limits (.literal type (.boolean value)) (.constant value)
  | field (type : ValueType) (name : String) :
      Leaf schema limits (.ident type name)
        (.compare (schema.resolveColumn name) .eq (.boolean true))
  | nullCheck {e left right : TypedExpr} {field : String} (isNull : Bool)
      (happ : e.Applies (Form.comparison (nullOp isNull)).function [left, right])
      (hfield : left.fieldRef? = some field) (hright : right.literal? = some .null) :
      Leaf schema limits e (.nullCheck (schema.resolveColumn field) isNull)
  | comparison {e left right : TypedExpr} {field : String} {op : CompareOp} {value : Value}
      (happ : e.Applies (Form.comparison op).function [left, right])
      (hfield : left.fieldRef? = some field) (hright : right.literal? = some value)
      (hvalue : Bindable schema field value) :
      Leaf schema limits e (.compare (schema.resolveColumn field) op value)
  | never {e left : TypedExpr} {type : ValueType} {field : String}
      (happ : e.Applies Form.membership.function [left, .list type []])
      (hfield : left.fieldRef? = some field) :
      Leaf schema limits e .never
  | membership {e left : TypedExpr} {type : ValueType} {es : List TypedExpr} {field : String}
      {values : List Value}
      (happ : e.Applies Form.membership.function [left, .list type es])
      (hfield : left.fieldRef? = some field) (hne : es ≠ [])
      (hsize : es.length ≤ limits.maxInSize)
      (hes : es.map TypedExpr.literal? = values.map some)
      (hvalues : ∀ v ∈ values, Bindable schema field v) :
      Leaf schema limits e (.isIn (schema.resolveColumn field) values)
  | test {type : ValueType} {receiver argument : TypedExpr} {field text : String}
      (which : StringTest)
      (hfield : receiver.fieldRef? = some field)
      (hstring : ∀ declared, schema.typeOf? field = some declared → declared = .string)
      (hargument : argument.literal? = some (.string text)) :
      Leaf schema limits (.method type receiver (Form.test which).function [argument])
        (.like (schema.resolveColumn field) (which.pattern text))

variable {schema : Schema} {limits : Limits}

/-! ### Comparisons -/

/-- A comparison is with a literal: equality and inequality with `null` are checks for
it, any other literal has to be one that can be bound. -/
theorem comparison_eq_ok_iff {op : CompareOp} {left right : TypedExpr} {p : Predicate} :
    comparison schema op left right = .ok p ↔
      ∃ field value, left.fieldRef? = some field ∧ right.literal? = some value
        ∧ ((value = .null ∧ ∃ isNull, op = nullOp isNull
              ∧ p = .nullCheck (schema.resolveColumn field) isNull)
          ∨ (Bindable schema field value
              ∧ p = .compare (schema.resolveColumn field) op value)) := by
  constructor
  · intro h
    unfold comparison at h
    -- the checks one after the other; where one fails there is no condition
    rcases hleft : fieldName left with why | field
    · simp [hleft] at h
    · have hfield := fieldName_eq_ok_iff.mp hleft
      rcases hright : constant right with why | value
      · simp [hleft, hright] at h
      · refine ⟨field, value, hfield, (constant_eq_ok_iff.mp hright).1, ?_⟩
        simp only [hleft, hright] at h
        by_cases hnull : value.isNull = true
        · -- only equality and inequality ask for `null`
          rw [if_pos hnull] at h
          refine Or.inl ⟨isNull_eq_true_iff.mp hnull, ?_⟩
          cases op with
          | eq => exact ⟨true, rfl, (Except.ok.inj h).symm⟩
          | notEq => exact ⟨false, rfl, (Except.ok.inj h).symm⟩
          | _ => cases h
        · rw [if_neg hnull] at h
          rcases hcheck : checkLiteral schema field value with why | u
          · simp [hcheck] at h
          · simp only [hcheck, Except.ok.injEq] at h
            exact Or.inr ⟨Bindable.of_checks hright hnull hcheck, h.symm⟩
  · rintro ⟨field, value, hfield, hright, ⟨rfl, isNull, rfl, rfl⟩ | ⟨hvalue, rfl⟩⟩
    · have hconstant : constant right = .ok .null :=
        constant_eq_ok_iff.mpr ⟨hright, fun bs hbs => by cases hbs⟩
      cases isNull <;>
        simp [comparison, nullOp, fieldName_eq_ok_iff.mpr hfield, hconstant, Value.isNull]
    · simp [comparison, fieldName_eq_ok_iff.mpr hfield, hvalue.constant_eq hright,
        hvalue.isNull_eq, checkLiteral_eq_ok_iff.mpr hvalue.fits]

/-! ### Membership -/

/-- The elements of a list that is accepted are literals, each of which can be bound.
Only the text of an error depends on the index that is counted along. -/
theorem elements_eq_ok_iff {field : String} {es : List TypedExpr} {values : List Value}
    (index : Nat) :
    elements schema field index es = .ok values ↔
      es.map TypedExpr.literal? = values.map some ∧ ∀ v ∈ values, Bindable schema field v := by
  induction es generalizing index values with
  | nil =>
      cases values with
      | nil => simp [elements]
      | cons v vs => simp [elements]
  | cons e rest ih =>
      constructor
      · intro h
        rw [elements] at h
        rcases he : constant e with why | v
        · simp [he] at h
        · simp only [he] at h
          -- the head has to pass its checks before the rest is looked at
          by_cases hnull : v.isNull = true
          · simp [hnull] at h
          · rw [if_neg hnull] at h
            rcases hcheck : checkLiteral schema field v with why | u
            · simp [hcheck] at h
            · simp only [hcheck] at h
              rcases hrest : elements schema field (index + 1) rest with why | vs
              · simp [hrest, Except.map] at h
              · simp only [hrest, Except.map, Except.ok.injEq] at h
                subst h
                obtain ⟨hmap, hall⟩ := (ih (index + 1)).mp hrest
                have hv := Bindable.of_checks he hnull hcheck
                refine ⟨?_, List.forall_mem_cons.mpr ⟨hv, hall⟩⟩
                rw [List.map_cons, List.map_cons, (constant_eq_ok_iff.mp he).1, hmap]
      · rintro ⟨hmap, hall⟩
        cases values with
        | nil => simp at hmap
        | cons v vs =>
            -- the values stand for the elements one by one
            rw [List.map_cons, List.map_cons, List.cons.injEq] at hmap
            obtain ⟨hv, hvs⟩ := List.forall_mem_cons.mp hall
            have hrest := (ih (index + 1)).mpr ⟨hmap.2, hvs⟩
            simp [elements, hv.constant_eq hmap.1, hv.isNull_eq,
              checkLiteral_eq_ok_iff.mpr hv.fits, hrest, Except.map]

/-- A list passes up to the largest size, that one included. -/
theorem checkInSize_eq_ok_iff {size : Nat} :
    limits.checkInSize size = .ok () ↔ size ≤ limits.maxInSize := by
  unfold Limits.checkInSize
  by_cases h : limits.maxInSize < size
  · simp [h]
  · simp [h, Nat.le_of_not_lt h]

/-- A membership is in a list that is written out: an empty one makes it constantly
false, any other is bound element by element. -/
theorem membership_eq_ok_iff {left right : TypedExpr} {p : Predicate} :
    membership schema limits left right = .ok p ↔
      ∃ field type es, left.fieldRef? = some field ∧ right = .list type es
        ∧ ((es = [] ∧ p = .never)
          ∨ (es ≠ [] ∧ es.length ≤ limits.maxInSize
              ∧ ∃ values, es.map TypedExpr.literal? = values.map some
                ∧ (∀ v ∈ values, Bindable schema field v)
                ∧ p = .isIn (schema.resolveColumn field) values)) := by
  constructor
  · intro h
    unfold membership at h
    rcases hleft : fieldName left with why | field
    · simp [hleft] at h
    · have hfield := fieldName_eq_ok_iff.mp hleft
      cases right with
      | list type es =>
          refine ⟨field, type, es, hfield, rfl, ?_⟩
          simp only [hleft] at h
          rcases hcheck : limits.checkInSize es.length with why | u
          · simp [hcheck] at h
          · simp only [hcheck] at h
            -- the size comes first, but an empty list is never too long
            by_cases hempty : es = []
            · rw [if_pos (by simpa using hempty)] at h
              exact Or.inl ⟨hempty, (Except.ok.inj h).symm⟩
            · rw [if_neg (by simpa using hempty)] at h
              -- the list is not empty, so each of its elements has been looked at
              rcases hes : elements schema field 0 es with why | values
              · simp [hes, Except.map] at h
              · simp only [hes, Except.map, Except.ok.injEq] at h
                obtain ⟨hmap, hall⟩ := (elements_eq_ok_iff 0).mp hes
                exact Or.inr ⟨hempty, checkInSize_eq_ok_iff.mp hcheck, values, hmap, hall,
                  h.symm⟩
      | _ => simp [hleft] at h
  · rintro ⟨field, type, es, hfield, rfl,
      ⟨rfl, rfl⟩ | ⟨hne, hsize, values, hmap, hvalues, rfl⟩⟩
    · simp [membership, fieldName_eq_ok_iff.mpr hfield,
        checkInSize_eq_ok_iff.mpr (Nat.zero_le limits.maxInSize)]
    · simp [membership, fieldName_eq_ok_iff.mpr hfield, checkInSize_eq_ok_iff.mpr hsize, hne,
        (elements_eq_ok_iff 0).mpr ⟨hmap, hvalues⟩, Except.map]

/-! ### Tests on strings -/

/-- The argument of a test is a text. -/
theorem pattern_eq_ok_iff {which : StringTest} {function field : String}
    {argument : TypedExpr} {p : Predicate} :
    stringTest.pattern schema which function argument field = .ok p ↔
      ∃ text, argument.literal? = some (.string text)
        ∧ p = .like (schema.resolveColumn field) (which.pattern text) := by
  unfold stringTest.pattern
  constructor
  · intro h
    rcases hconstant : constant argument with why | value
    · simp [hconstant] at h
    · cases value with
      | string text =>
          simp only [hconstant, Except.ok.injEq] at h
          exact ⟨text, (constant_eq_ok_iff.mp hconstant).1, h.symm⟩
      | _ => simp [hconstant] at h
  · rintro ⟨text, hargument, rfl⟩
    have hconstant : constant argument = .ok (.string text) :=
      constant_eq_ok_iff.mpr ⟨hargument, fun bs hbs => by cases hbs⟩
    simp [hconstant]

/-- The declared type of a tested field is `string` or there is none. -/
theorem stringTest_eq_ok_iff {which : StringTest} {function : String}
    {receiver argument : TypedExpr} {p : Predicate} :
    stringTest schema which function receiver argument = .ok p ↔
      ∃ field text, receiver.fieldRef? = some field
        ∧ (∀ declared, schema.typeOf? field = some declared → declared = .string)
        ∧ argument.literal? = some (.string text)
        ∧ p = .like (schema.resolveColumn field) (which.pattern text) := by
  unfold stringTest
  rcases hreceiver : fieldName receiver with why | field
  · simp only [reduceCtorEq, false_iff]
    rintro ⟨field, text, hfield, -⟩
    rw [fieldName_eq_ok_iff.mpr hfield] at hreceiver
    cases hreceiver
  · have hfield := fieldName_eq_ok_iff.mp hreceiver
    simp only [hfield, Option.some.injEq, exists_and_left]
    -- a declared type has to be text; without one any receiver is taken
    rcases htype : schema.typeOf? field with _ | declared
    · simp [pattern_eq_ok_iff, htype]
    · by_cases hstring : declared = .string
      · simp [pattern_eq_ok_iff, htype, hstring]
      · simp [htype, hstring]

end Condition

end RowFilter
