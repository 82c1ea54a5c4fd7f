/-
Literals do not decide what becomes of a filter.

The literals meant here are those that are compared with: the right side of a
comparison, the elements of a list that a field is sought in, the argument of a test on
strings. `redact` takes the contents of just these out of a tree, wherever in the tree
they stand, and leaves all else alone, literals in other places included. A filter and
its redacted form compile to the same thing: to the same failure, or to conditions that
are redacted alike. Two filters that differ in such contents only have one redacted form
between them, so what holds of each of them and this form holds of the two.

Every step of the compilation is followed by one lemma, which says that the step does the
same with redacted operands. The forms that look at literals look at their kind.
-/
import RowFilter.Proofs.Condition.Derivation
import RowFilter.Proofs.Sql.Redaction

set_option autoImplicit false

namespace RowFilter.Condition

open Sql (CompareOp Dialect Predicate StringTest)

/-! ## Redacted trees -/

/-- What is expected at a place of a tree. -/
inductive Place where
  | any
  /-- A literal that is compared with. -/
  | literal
  /-- A list of such literals. -/
  | literals
  deriving DecidableEq, Repr

/-- The place of an argument, counted from zero. -/
def argumentPlace (function : String) (index : Nat) : Place :=
  match Form.ofFunction? function, index with
  | some (.comparison _), 1 => .literal
  | some .membership, 1 => .literals
  | some (.test _), 0 => .literal
  | _, _ => .any

/-- The place of the elements of a list. -/
def elementPlace (list : Place) : Place := if list = .literals then .literal else .any

mutual

/-- A tree at some place, without the contents of the literals that are compared
with. -/
def redact (place : Place) : TypedExpr → TypedExpr
  | .literal type value => .literal type (if place = .literal then value.redacted else value)
  | .ident type name => .ident type name
  | .select type operand field => .select type (redact .any operand) field
  | .call type function arguments =>
    .call type function (redactAll (argumentPlace function) arguments)
  | .method type receiver function arguments =>
    .method type (redact .any receiver) function (redactAll (argumentPlace function) arguments)
  | .list type elements => .list type (redactAll (fun _ => elementPlace place) elements)

/-- Trees at the places that their indices have. -/
def redactAll (places : Nat → Place) : List TypedExpr → List TypedExpr
  | [] => []
  | e :: rest => redact (places 0) e :: redactAll (fun index => places (index + 1)) rest

end

/-- A filter without the contents of the literals that are compared with. -/
def redacted (e : TypedExpr) : TypedExpr := redact .any e

/-- With one place for all of them, trees are redacted one by one. -/
theorem redactAll_const (place : Place) (es : List TypedExpr) :
    redactAll (fun _ => place) es = es.map (redact place) := by
  induction es with
  | nil => rw [redactAll, List.map_nil]
  | cons e rest ih => rw [redactAll, ih, List.map_cons]

/-- Redacting leaves the number of trees as it is. -/
theorem redactAll_length (places : Nat → Place) (es : List TypedExpr) :
    (redactAll places es).length = es.length := by
  induction es generalizing places with
  | nil => rw [redactAll]
  | cons e rest ih => rw [redactAll, List.length_cons, List.length_cons, ih]

/-! ## Operands -/

variable {schema : Schema} {limits : Limits}

/-- The name of a field is no content of a literal. -/
theorem fieldName_redact (place : Place) (e : TypedExpr) :
    fieldName (redact place e) = fieldName e := by
  cases e <;> rw [redact] <;> rfl

/-- The literal that is compared with is redacted, and so is the value that is read off it. -/
theorem constant_redact (e : TypedExpr) :
    constant (redact .literal e) = (constant e).map Value.redacted := by
  cases e with
  | literal type value => cases value <;> rw [redact, if_pos rfl] <;> rfl
  | _ =>
      rw [redact]
      rfl

/-- What a literal is held against is its kind. -/
theorem checkLiteral_redacted (field : String) (value : Value) :
    checkLiteral schema field value.redacted = checkLiteral schema field value := by
  unfold checkLiteral
  rw [Value.kind_redacted]

/-! ## Leaves -/

/-- The same failure, or conditions that are redacted alike. -/
def Alike {ε : Type} (r r' : Except ε Predicate) : Prop :=
  r.map Predicate.redacted = r'.map Predicate.redacted

/-- The two sides of `Alike`. -/
theorem alike_iff {ε : Type} {r r' : Except ε Predicate} :
    Alike r r' ↔ (∃ e, r = .error e ∧ r' = .error e)
      ∨ ∃ p p', r = .ok p ∧ r' = .ok p' ∧ p.redacted = p'.redacted := by
  rcases r with e | p <;> rcases r' with e' | p' <;> simp [Alike, Except.map, eq_comm]

theorem Alike.rejecting {r r' : Except Rejection Predicate} (h : Alike r r') :
    Alike (rejecting r) (rejecting r') := by
  rcases alike_iff.mp h with ⟨why, rfl, rfl⟩ | ⟨p, p', rfl, rfl, hp⟩
  · rfl
  · exact alike_iff.mpr (Or.inr ⟨p, p', rfl, rfl, hp⟩)

/-- A comparison sees the kind of its literal and whether it is `null`, and both are kept. -/
theorem comparison_redact (op : CompareOp) (left right : TypedExpr) (place : Place) :
    Alike (comparison schema op (redact place left) (redact .literal right))
      (comparison schema op left right) := by
  unfold comparison
  rw [fieldName_redact, constant_redact]
  rcases fieldName left with why | field
  · rfl
  · rcases constant right with why | value
    · rfl
    · simp only [Except.map, Value.isNull_redacted, checkLiteral_redacted]
      -- what is `null` stays `null`, and so the form of the condition stays the same
      by_cases hnull : value.isNull = true
      · simp [Alike, hnull]
      · rcases checkLiteral schema field value with why | u
        · simp [Alike, hnull]
        · simp [Alike, hnull, Except.map, Predicate.redacted, Value.redacted_redacted]

/-- Elements are looked at one after the other, and each in the way of a comparison. -/
theorem elements_redact (field : String) (index : Nat) (es : List TypedExpr) :
    elements schema field index (es.map (redact .literal))
      = (elements schema field index es).map (List.map Value.redacted) := by
  induction es generalizing index with
  | nil => rfl
  | cons e rest ih =>
      rw [List.map_cons, elements, elements, constant_redact]
      rcases constant e with why | value
      · rfl
      · simp only [Except.map, Value.isNull_redacted, checkLiteral_redacted]
        by_cases hnull : value.isNull = true
        · simp [hnull]
        · -- it is the kind that is held against the schema
          rcases checkLiteral schema field value with why | u
          · simp [hnull]
          · simp only [hnull]
            rw [ih]
            rcases elements schema field (index + 1) rest with why | values <;> rfl

/-- A membership sees the size of its list and the kinds of the elements. -/
theorem membership_redact (left right : TypedExpr) (place : Place) :
    Alike (membership schema limits (redact place left) (redact .literals right))
      (membership schema limits left right) := by
  unfold membership
  rw [fieldName_redact]
  rcases fieldName left with why | field
  · rfl
  · cases right with
    | list type es =>
        have hes : redactAll (fun _ => elementPlace .literals) es = es.map (redact .literal) :=
          redactAll_const .literal es
        rw [redact, hes]
        -- the size is checked before the elements and is not touched
        simp only [List.length_map, List.isEmpty_map]
        rcases limits.checkInSize es.length with why | u
        · rfl
        · by_cases hempty : es.isEmpty = true
          · simp [Alike, hempty]
          · simp only [hempty]
            rw [elements_redact]
            rcases elements schema field 0 es with why | values
            · rfl
            · simp [Alike, Except.map, Predicate.redacted, Value.redacted_redacted]
    | _ =>
        rw [redact]
        rfl

/-- The pattern of a test is made of its text, and it is the text that is redacted. -/
theorem pattern_redact (which : StringTest) (function field : String) (argument : TypedExpr) :
    Alike (stringTest.pattern schema which function (redact .literal argument) field)
      (stringTest.pattern schema which function argument field) := by
  unfold stringTest.pattern
  rw [constant_redact]
  rcases constant argument with why | value
  · rfl
  · -- the two patterns are different, but patterns are redacted in conditions, too
    cases value <;> simp [Alike, Except.map, Value.redacted, Predicate.redacted]

/-- A test sees the declared type of its field and that its argument is a text. -/
theorem stringTest_redact (which : StringTest) (function : String)
    (receiver argument : TypedExpr) (place : Place) :
    Alike (stringTest schema which function (redact place receiver) (redact .literal argument))
      (stringTest schema which function receiver argument) := by
  have hpattern := @pattern_redact schema which function
  unfold stringTest
  rw [fieldName_redact]
  rcases fieldName receiver with why | field
  · rfl
  · rcases htype : schema.typeOf? field with _ | type
    · simpa only [htype] using hpattern field argument
    · by_cases hstring : type = .string
      · simpa only [htype, if_pos hstring] using hpattern field argument
      · simp only [htype, if_neg hstring]
        rfl

/-! ## Applications -/

/-- Two conditions that are joined: the joining sees no contents. -/
theorem joined_redact {combine : Predicate → Predicate → Predicate}
    (hcombine : ∀ l r, (combine l r).redacted = combine l.redacted r.redacted)
    {left left' right right' : Told Predicate}
    (hleft : Alike left.result left'.result) (hright : Alike right.result right'.result) :
    Alike (joined combine left right).result (joined combine left' right').result := by
  rw [joined, joined, Told.andThen_result, Told.andThen_result]
  rcases alike_iff.mp hleft with ⟨e, he, he'⟩ | ⟨p, p', hp, hp', hpp⟩
  · rw [he, he']
    rfl
  · rcases alike_iff.mp hright with ⟨e, he, he'⟩ | ⟨q, q', hq, hq', hqq⟩
    · simp only [hp, hp', Except.bind, Told.map, he, he']
      rfl
    · simp only [hp, hp', Except.bind, Told.map, hq, hq', Alike, Except.map, hcombine, hpp, hqq]

/-- The arguments of a form none of whose arguments is compared with. -/
theorem redactAll_of_any {function : String}
    (hplaces : ∀ index, argumentPlace function index = .any)
    (arguments : List TypedExpr) :
    redactAll (argumentPlace function) arguments = arguments.map redacted := by
  rw [show argumentPlace function = fun _ => .any from funext hplaces]
  exact redactAll_const .any arguments

/-- A connective has no arguments that are compared with. -/
theorem redactAll_of_isConnective {form : Form} (h : form.isConnective = true)
    (arguments : List TypedExpr) :
    redactAll (argumentPlace form.function) arguments = arguments.map redacted := by
  refine redactAll_of_any (fun index => ?_) arguments
  cases form with
  | both | either | negation => simp only [argumentPlace, ofFunction?_function]
  | _ => cases h

/-- What a form asks for is no matter of contents. -/
theorem takes_redact_iff {form : Form} {receiver : Option TypedExpr} {places : Nat → Place}
    {arguments : List TypedExpr} :
    form.Takes (receiver.map (redact .any)) (redactAll places arguments)
      ↔ form.Takes receiver arguments := by
  constructor
  · rintro ⟨hlength, hreceiver⟩
    exact ⟨by rwa [redactAll_length] at hlength, by simpa using hreceiver⟩
  · rintro ⟨hlength, hreceiver⟩
    exact ⟨by rwa [redactAll_length], by simpa using hreceiver⟩

/-- Applying a function to redacted arguments comes to the same, if the arguments by
themselves do. Where an application is not as its form asks, neither is redacted. -/
theorem application_redact {function : String} {receiver : Option TypedExpr}
    {arguments : List TypedExpr}
    (h : ∀ a ∈ arguments, Alike (compile schema limits (redacted a)) (compile schema limits a)) :
    Alike
      (application schema limits function (receiver.map (redact .any))
        (redactAll (argumentPlace function) arguments)).result
      (application schema limits function receiver arguments).result := by
  rcases hform : Form.ofFunction? function with _ | form
  · rw [application_unsupported hform, application_unsupported hform]
    rfl
  · obtain rfl := ofFunction?_eq_some_iff.mp hform
    -- the number of arguments is the same on both sides, and so is the breach if it is wrong
    by_cases htakes : form.Takes receiver arguments
    · cases form with
      | both | either =>
          obtain ⟨left, right, rfl⟩ := List.length_eq_two.mp htakes.length_eq
          rw [redactAll_of_isConnective rfl, List.map_cons, List.map_cons, List.map_nil,
            application_joined rfl, application_joined rfl]
          refine joined_redact ?_ (h left (by simp)) (h right (by simp))
          exact fun _ _ => rfl
      | negation =>
          obtain ⟨inner, rfl⟩ := List.length_eq_one_iff.mp htakes.length_eq
          rw [redactAll_of_isConnective rfl, List.map_cons, List.map_nil, application_negation,
            application_negation]
          rcases alike_iff.mp (h inner (by simp)) with ⟨e, he, he'⟩ | ⟨p, p', hp, hp', hpp⟩
          · rw [compile] at he he'
            simp only [Told.map, he, he']
            rfl
          · rw [compile] at hp hp'
            simp only [Told.map, hp, hp', Alike, Except.map, Predicate.redacted, hpp]
      | comparison op =>
          -- only the right side is compared with, so the left one may be redacted anyhow
          obtain ⟨left, right, rfl⟩ := List.length_eq_two.mp htakes.length_eq
          have hplace : argumentPlace (Form.comparison op).function 1 = .literal := by
            simp only [argumentPlace, hform]
          simp only [redactAll, Nat.zero_add, hplace, application_comparison]
          exact (comparison_redact op left right _).rejecting
      | membership =>
          obtain ⟨left, right, rfl⟩ := List.length_eq_two.mp htakes.length_eq
          have hplace : argumentPlace Form.membership.function 1 = .literals := by
            simp only [argumentPlace, hform]
          simp only [redactAll, Nat.zero_add, hplace, application_membership]
          exact (membership_redact left right _).rejecting
      | test which =>
          obtain ⟨argument, rfl⟩ := List.length_eq_one_iff.mp htakes.length_eq
          -- the receiver of a test is a field, which redacting leaves
          obtain ⟨r, rfl⟩ := Option.isSome_iff_exists.mp (htakes.receiver rfl)
          have hplace : argumentPlace (Form.test which).function 0 = .literal := by
            simp only [argumentPlace, hform]
          simp only [redactAll, Option.map_some, hplace, application_test]
          exact (stringTest_redact which _ r argument _).rejecting
    · have hbreach : form.breach (receiver.map (redact .any)) arguments.length
          = form.breach receiver arguments.length := by
        unfold Form.breach
        rw [Option.isNone_map]
      rw [application_breach htakes, application_breach (mt takes_redact_iff.mp htakes),
        redactAll_length, hbreach]
      rfl

/-! ## Filters -/

/-- A filter and its redacted form compile to the same, up to the contents of values. -/
theorem compile_redacted (e : TypedExpr) :
    Alike (compile schema limits (redacted e)) (compile schema limits e) := by
  induction e using TypedExpr.children_induction with
  | step e ih =>
      -- what is no application holds no literal that is compared with
      rcases e with ⟨type, value⟩ | ⟨type, name⟩ | ⟨type, operand, field⟩
        | ⟨type, function, arguments⟩ | ⟨type, receiver, function, arguments⟩ | ⟨type, es⟩
      · rfl
      · rfl
      · rfl
      · rw [redacted, redact, compile_of_applies (.call type function arguments),
          compile_of_applies (.call type function _)]
        exact @application_redact schema limits function none arguments ih
      · rw [redacted, redact, compile_of_applies (.method type receiver function arguments),
          compile_of_applies (.method type _ function _)]
        exact @application_redact schema limits function (some receiver) arguments
          (fun a ha => ih a (List.mem_cons_of_mem _ ha))
      · rfl

/-- **Literals never reach the text.** Two filters that differ in nothing but the
contents of the literals that are compared with fail in the same way, or become
conditions with the same text in every dialect and the same columns, which differ in
nothing but the contents of their bound values. -/
theorem compile_ignores_literals {e e' : TypedExpr} (h : redacted e = redacted e')
    (schema : Schema) (limits : Limits) :
    (∃ error, compile schema limits e = .error error ∧ compile schema limits e' = .error error)
      ∨ ∃ p p', compile schema limits e = .ok p ∧ compile schema limits e' = .ok p'
          ∧ (∀ d : Dialect, (p.toSql d).1 = (p'.toSql d).1) ∧ p.columns = p'.columns
          ∧ p.redacted = p'.redacted ∧ (p.boundValues = p'.boundValues → p = p') := by
  have halike : Alike (compile schema limits e) (compile schema limits e') := by
    -- both filters are compared with their redacted form, which is the same
    have hleft := @compile_redacted schema limits e
    have hright := @compile_redacted schema limits e'
    rw [h] at hleft
    exact hleft.symm.trans hright
  rcases alike_iff.mp halike with hfail | ⟨p, p', hp, hp', hredacted⟩
  · exact Or.inl hfail
  · exact Or.inr ⟨p, p', hp, hp', Predicate.sql_eq_of_redacted_eq hredacted,
      Predicate.columns_eq_of_redacted_eq hredacted, hredacted,
      Predicate.eq_of_redacted_eq hredacted⟩

/-- A search for a text in a title, or for one of two numbers. -/
def searchFilter (sought : String) (first second : Int64) : TypedExpr :=
  .call .bool "_||_"
    [.method .bool (.ident .string "title") "contains" [.ofValue (.string sought)],
     .call .bool "@in"
      [.ident .int "year",
       .list (.list .int) [.ofValue (.int first), .ofValue (.int second)]]]

/-- Whatever is sought, even what looks like a piece of a statement, the text is the
same. -/
theorem compile_ignores_literals_search :
    redacted (searchFilter "war" 1 2) = redacted (searchFilter "' OR 1=1 --" 3 4)
      ∧ ∃ p p', compile ⟨[]⟩ .default (searchFilter "war" 1 2) = .ok p
          ∧ compile ⟨[]⟩ .default (searchFilter "' OR 1=1 --" 3 4) = .ok p' ∧ p ≠ p'
          ∧ (p.toSql .postgres).1 = (p'.toSql .postgres).1 := by
  have hredacted : redacted (searchFilter "war" 1 2)
      = redacted (searchFilter "' OR 1=1 --" 3 4) := rfl
  refine ⟨hredacted, ?_⟩
  rcases compile_ignores_literals hredacted ⟨[]⟩ .default with
    ⟨error, herror, -⟩ | ⟨p, p', hp, hp', hsql, -⟩
  · cases herror
  · refine ⟨p, p', hp, hp', ?_, hsql .postgres⟩
    rintro rfl
    cases hp.trans hp'.symm

end RowFilter.Condition
