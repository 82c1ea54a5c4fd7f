/-
The typing rules of operators, functions and lists.

Each is a relation between the types of the parts and the type of the whole, with one
rule for each way in which they fit. The checker decides the same questions by functions;
for each of them it is shown here that it answers with a type exactly if the rules derive
that type. After this module nothing looks into these functions again.
-/
import RowFilter.Typing.Checker

set_option autoImplicit false

namespace RowFilter.Typing

/-! ## Classes of types -/

/-- The types of numbers. -/
inductive Numeric : ValueType → Prop where
  | int : Numeric .int
  | uint : Numeric .uint
  | double : Numeric .double

/-- The types that have an order. -/
inductive Ordered : ValueType → Prop where
  | int : Ordered .int
  | uint : Ordered .uint
  | double : Ordered .double
  | string : Ordered .string
  | bytes : Ordered .bytes
  | timestamp : Ordered .timestamp
  | duration : Ordered .duration

/-- The types that have a size. -/
inductive Sized : ValueType → Prop where
  | string : Sized .string
  | bytes : Sized .bytes
  | list (elem : ValueType) : Sized (.list elem)
  | map (key value : ValueType) : Sized (.map key value)

/-- The numeric types are those of the rules. -/
theorem isNumeric_iff {type : ValueType} : type.isNumeric = true ↔ Numeric type := by
  constructor
  · intro h
    cases type <;> first | constructor | cases h
  · rintro ⟨⟩ <;> rfl

theorem isOrdered_iff {type : ValueType} : type.isOrdered = true ↔ Ordered type := by
  constructor
  · intro h
    cases type <;> first | constructor | cases h
  · rintro ⟨⟩ <;> rfl

theorem isSized_iff {type : ValueType} : type.isSized = true ↔ Sized type := by
  constructor
  · intro h
    cases type <;> first | constructor | cases h
  · rintro ⟨⟩ <;> rfl

/-! ## Operators -/

/-- `UnaryRule operator operand type`: the operator in front of an operand of a type. -/
inductive UnaryRule : UnaryOperator → ValueType → ValueType → Prop where
  | not : UnaryRule .not .bool .bool
  | negateInt : UnaryRule .negate .int .int
  | negateDouble : UnaryRule .negate .double .double

/-- `BinaryRule operator left right type`: the operator between operands of two types. -/
inductive BinaryRule : BinaryOperator → ValueType → ValueType → ValueType → Prop where
  | logical {operator : BinaryOperator} (hoperator : operator ∈ [.and, .or]) :
      BinaryRule operator .bool .bool .bool
  | equality {operator : BinaryOperator} {left right : ValueType}
      (hoperator : operator ∈ [.equal, .notEqual])
      (h : left = right ∨ left = .null ∨ right = .null) :
      BinaryRule operator left right .bool
  | ordering {operator : BinaryOperator} {type : ValueType}
      (hoperator : operator ∈ [.lessThan, .lessOrEqual, .greaterThan, .greaterOrEqual])
      (h : Ordered type) : BinaryRule operator type type .bool
  | arithmetic {operator : BinaryOperator} {type : ValueType}
      (hoperator : operator ∈ [.add, .subtract, .multiply, .divide, .modulo])
      (h : Numeric type) : BinaryRule operator type type type
  | inList {needle elem : ValueType} (h : elem = needle ∨ elem = .null ∨ needle = .null) :
      BinaryRule .isIn needle (.list elem) .bool
  | inMap (key value : ValueType) : BinaryRule .isIn key (.map key value) .bool

/-- A unary operator is decided by its rule. -/
theorem unaryType?_eq_some_iff {operator : UnaryOperator} {operand type : ValueType} :
    unaryType? operator operand = some type ↔ UnaryRule operator operand type := by
  constructor
  · intro h
    cases operator with
    | not =>
        simp only [unaryType?, Option.ite_none_right_eq_some, Option.some.injEq] at h
        obtain ⟨rfl, rfl⟩ := h
        exact UnaryRule.not
    -- integers and doubles have a rule each
    | negate =>
        simp only [unaryType?, Option.ite_none_right_eq_some, Option.some.injEq] at h
        obtain ⟨rfl | rfl, rfl⟩ := h
        · exact UnaryRule.negateInt
        · exact UnaryRule.negateDouble
  · rintro ⟨⟩ <;> rfl

/-- A value may be sought where the rules of membership allow it. -/
theorem canContain_iff {needle haystack : ValueType} :
    canContain needle haystack = true ↔ BinaryRule .isIn needle haystack .bool := by
  constructor
  · intro h
    unfold canContain at h
    split at h
    · next elem =>
        simp only [Bool.or_eq_true, decide_eq_true_eq] at h
        exact BinaryRule.inList (by rcases h with (h | h) | h <;> simp [h])
    · next key value =>
        obtain rfl := of_decide_eq_true h
        exact BinaryRule.inMap key value
    · cases h
  · intro h
    cases h with
    | inList h => rcases h with h | h | h <;> simp [canContain, h]
    | inMap key value => simp [canContain]
    -- the other rules are for other operators
    | logical hoperator | equality hoperator | ordering hoperator | arithmetic hoperator =>
        simp at hoperator

/-- The checker gives an operator the types that the rules give it. -/
theorem binaryType?_eq_some_iff {operator : BinaryOperator} {left right type : ValueType} :
    binaryType? operator left right = some type ↔ BinaryRule operator left right type := by
  constructor
  · intro h
    cases operator with
    | and | or =>
        simp only [binaryType?, Option.ite_none_right_eq_some, Option.some.injEq] at h
        obtain ⟨⟨rfl, rfl⟩, rfl⟩ := h
        exact BinaryRule.logical (by simp)
    | equal | notEqual =>
        simp only [binaryType?, Option.ite_none_right_eq_some, Option.some.injEq] at h
        obtain ⟨htypes, rfl⟩ := h
        exact BinaryRule.equality (by simp) htypes
    | isIn =>
        simp only [binaryType?, Option.ite_none_right_eq_some, Option.some.injEq] at h
        obtain ⟨hcontains, rfl⟩ := h
        exact canContain_iff.mp hcontains
    | greaterThan | lessThan | greaterOrEqual | lessOrEqual =>
        simp only [binaryType?, Option.ite_none_right_eq_some, Option.some.injEq] at h
        obtain ⟨⟨rfl, hordered⟩, rfl⟩ := h
        exact BinaryRule.ordering (by simp) (isOrdered_iff.mp hordered)
    | add | subtract | multiply | divide | modulo =>
        simp only [binaryType?, Option.ite_none_right_eq_some, Option.some.injEq] at h
        obtain ⟨⟨rfl, hnumeric⟩, rfl⟩ := h
        exact BinaryRule.arithmetic (by simp) (isNumeric_iff.mp hnumeric)
  · -- conversely each rule names the operators that it is for
    intro h
    cases h with
    | logical hoperator =>
        simp only [List.mem_cons, List.not_mem_nil, or_false] at hoperator
        rcases hoperator with rfl | rfl <;> rfl
    | equality hoperator htypes =>
        simp only [List.mem_cons, List.not_mem_nil, or_false] at hoperator
        rcases hoperator with rfl | rfl <;> exact if_pos htypes
    | ordering hoperator hordered =>
        simp only [List.mem_cons, List.not_mem_nil, or_false] at hoperator
        rcases hoperator with rfl | rfl | rfl | rfl <;>
          exact if_pos ⟨rfl, isOrdered_iff.mpr hordered⟩
    | arithmetic hoperator hnumeric =>
        simp only [List.mem_cons, List.not_mem_nil, or_false] at hoperator
        rcases hoperator with rfl | rfl | rfl | rfl | rfl <;>
          exact if_pos ⟨rfl, isNumeric_iff.mpr hnumeric⟩
    | inList htypes => exact if_pos (canContain_iff.mpr (BinaryRule.inList htypes))
    | inMap => exact if_pos (canContain_iff.mpr (BinaryRule.inMap _ _))

/-! ## Functions -/

/-- The tests on strings. -/
def stringTests : List String := ["contains", "startsWith", "endsWith", "matches"]

/-- `CallRule function receiver arguments type`: the function applied to arguments, and
perhaps to a receiver, of these types. -/
inductive CallRule : String → Option ValueType → List ValueType → ValueType → Prop where
  | stringTest {function : String} (hfunction : function ∈ stringTests) :
      CallRule function (some .string) [.string] .bool
  | size {type : ValueType} (h : Sized type) : CallRule "size" none [type] .int
  | sizeOfReceiver {type : ValueType} (h : Sized type) : CallRule "size" (some type) [] .int

/-- The string tests are the three of the rules. -/
theorem isStringTest_iff {function : String} :
    isStringTest function = true ↔ function ∈ stringTests := by
  simp [isStringTest, stringTests, or_assoc]

/-- What is asked of the one thing whose size is taken. -/
theorem sized_eq_ok_iff {type result : ValueType} {issue : TypeIssue} :
    (if type.isSized = true then .ok .int else .error issue) = (.ok result : Except _ _)
      ↔ Sized type ∧ result = .int := by
  by_cases h : type.isSized = true
  · simp [h, isSized_iff.mp h, eq_comm]
  · simp [h, mt isSized_iff.mpr h]

/-- The checker gives a call the types that the rules give it. -/
theorem callType_eq_ok_iff {function : String} {receiver : Option ValueType}
    {arguments : List ValueType} {type : ValueType} :
    callType function receiver arguments = .ok type
      ↔ CallRule function receiver arguments type := by
  constructor
  · intro h
    unfold callType at h
    by_cases htest : isStringTest function = true
    · rw [if_pos htest] at h
      split at h
      · cases h
      · obtain rfl := Except.ok.inj h
        exact CallRule.stringTest (isStringTest_iff.mp htest)
      · cases h
    · -- what is no test on strings can only be the size
      rw [if_neg htest] at h
      by_cases hsize : function = "size"
      · subst hsize
        simp only [if_true] at h
        -- there is one type: that of the receiver or that of the only argument
        rcases receiver with _ | receiver
        · rcases arguments with _ | ⟨argument, _ | ⟨more, rest⟩⟩
          · cases h
          · obtain ⟨hsized, rfl⟩ := sized_eq_ok_iff.mp h
            exact CallRule.size hsized
          · cases h
        · rcases arguments with _ | ⟨argument, rest⟩
          · obtain ⟨hsized, rfl⟩ := sized_eq_ok_iff.mp h
            exact CallRule.sizeOfReceiver hsized
          · cases h
      · rw [if_neg hsize] at h
        cases h
  · intro h
    cases h with
    | stringTest hfunction => simp [callType, isStringTest_iff.mpr hfunction]
    | size hsized => simp [callType, isStringTest, isSized_iff.mpr hsized]
    | sizeOfReceiver hsized => simp [callType, isStringTest, isSized_iff.mpr hsized]

/-! ## Lists -/

/-- `ElementRule types elem`: the elements of a list, of these types, have the type
`elem` in common: those that are not `null` have this type, and it is `null` only where
there are no others. -/
structure ElementRule (types : List ValueType) (elem : ValueType) : Prop where
  shared : ∀ type ∈ types, type = .null ∨ type = elem
  occurs : elem = .null ∨ elem ∈ types

/-- Only which types other than `null` occur decides what a list has in common. -/
theorem ElementRule.of_mem_iff {types types' : List ValueType} {elem : ValueType}
    (h : ∀ type, type ≠ .null → (type ∈ types ↔ type ∈ types')) (hrule : ElementRule types elem) :
    ElementRule types' elem where
  shared type htype := by
    by_cases hnull : type = .null
    · exact Or.inl hnull
    · exact hrule.shared type ((h type hnull).mpr htype)
  occurs := by
    by_cases hnull : elem = .null
    · exact Or.inl hnull
    · exact Or.inr ((h elem hnull).mp (hrule.occurs.resolve_left hnull))

/-- Only the types that are not null decide the type of elements. -/
theorem elementRule_congr {types types' : List ValueType} {elem : ValueType}
    (h : ∀ type, type ≠ .null → (type ∈ types ↔ type ∈ types')) :
    ElementRule types elem ↔ ElementRule types' elem :=
  ⟨ElementRule.of_mem_iff h, ElementRule.of_mem_iff fun type hnull => (h type hnull).symm⟩

/-- The checker carries along the type found so far as if it were that of one more
element. -/
theorem elementType_eq_ok_iff {sofar : ValueType} {types : List ValueType} {elem : ValueType} :
    elementType sofar types = .ok elem ↔ ElementRule (sofar :: types) elem := by
  induction types generalizing sofar with
  | nil =>
      constructor
      · intro h
        obtain rfl := Except.ok.inj h
        exact ⟨by simp, by simp⟩
      · rintro ⟨hshared, hoccurs⟩
        rw [elementType, Except.ok.injEq]
        rcases hshared sofar (by simp) with hsofar | hsofar
        · rcases hoccurs with helem | helem
          · rw [hsofar, helem]
          · exact (List.mem_singleton.mp helem).symm
        · exact hsofar
  | cons type rest ih =>
      rw [elementType]
      by_cases htype : type = .null
      · rw [if_pos htype, ih]
        exact elementRule_congr fun t ht => by simp [htype, ht]
      · rw [if_neg htype]
        by_cases hsofar : sofar = .null
        · rw [if_pos hsofar, ih]
          exact elementRule_congr fun t ht => by simp [hsofar, ht]
        · rw [if_neg hsofar]
          by_cases hsame : sofar = type
          · rw [if_pos hsame, ih]
            exact elementRule_congr fun t ht => by simp [hsame]
          · -- two types that both count have nothing in common
            rw [if_neg hsame]
            refine ⟨fun h => (by cases h), fun hrule => ?_⟩
            have hleft := (hrule.shared sofar (by simp)).resolve_left hsofar
            have hright := (hrule.shared type (by simp)).resolve_left htype
            exact absurd (hleft.trans hright.symm) hsame

/-- The checker gives the elements of a list the type that they have in common. -/
theorem elementType_null_eq_ok_iff {types : List ValueType} {elem : ValueType} :
    elementType .null types = .ok elem ↔ ElementRule types elem := by
  rw [elementType_eq_ok_iff]
  exact elementRule_congr fun type hnull => by simp [hnull]

end RowFilter.Typing
