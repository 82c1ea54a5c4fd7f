/-
What a filter says of a row, and that the condition it becomes says the same.

`Means related schema row e b` reads a typed tree directly, without conditions: `e` can
come out as `b` on `row`. The connectives are the classical ones over what their
arguments can come out as, an operand has the value that the row has in its column, and
a test that meets `null` can come out either way, except for the tests that ask about
`null` itself. Because of that freedom this is a relation and not a function, and each
occurrence of a test is free on its own.

The result is exact: a filter can come out as `b` precisely if the truth value of its
condition allows `b`. One direction goes along the reading of the filter and opens the
compilation of each node; the other goes along the derivation of the condition. That a
known truth value is the only one the filter can have is then a matter of `Allows`.
-/
import RowFilter.Proofs.Condition.Derivation
import RowFilter.Proofs.Sql.Columns
import RowFilter.Proofs.Sql.Evaluation

set_option autoImplicit false

namespace RowFilter.Condition

open Sql (CompareOp Predicate Relations Row StringTest Truth compareTruth likeTruth memberTruth)

/-! ## Reading a filter -/

/-- The value of a field on a row. -/
abbrev valueOf (schema : Schema) (row : Row) (field : String) : Value :=
  row (schema.resolveColumn field)

/-- A test on a value can come out as `b`: any way on `null`, else as the test holds. -/
def Outcome (value : Value) (holds : Prop) (b : Bool) : Prop :=
  value = .null ∨ (b = true ↔ holds)

/-- `Means related schema row e b`: read as a filter, the tree `e` can come out as `b` on
the row. -/
inductive Means (related : Relations) (schema : Schema) (row : Row) :
    TypedExpr → Bool → Prop where
  | constant (type : ValueType) (value : Bool) :
      Means related schema row (.literal type (.boolean value)) value
  | field {b : Bool} (type : ValueType) (name : String)
      (hb : Outcome (valueOf schema row name)
        (related .eq (valueOf schema row name) (.boolean true) = true) b) :
      Means related schema row (.ident type name) b
  | both {e left right : TypedExpr} {a b : Bool}
      (happ : e.Applies BinaryOperator.and.function [left, right])
      (hleft : Means related schema row left a) (hright : Means related schema row right b) :
      Means related schema row e (a && b)
  | either {e left right : TypedExpr} {a b : Bool}
      (happ : e.Applies BinaryOperator.or.function [left, right])
      (hleft : Means related schema row left a) (hright : Means related schema row right b) :
      Means related schema row e (a || b)
  | negation {e inner : TypedExpr} {b : Bool}
      (happ : e.Applies UnaryOperator.not.function [inner])
      (hinner : Means related schema row inner b) :
      Means related schema row e (!b)
  | isNull {e left right : TypedExpr} {field : String}
      (happ : e.Applies BinaryOperator.equal.function [left, right])
      (hfield : left.fieldRef? = some field) (hright : right.literal? = some .null) :
      Means related schema row e (valueOf schema row field).isNull
  | isNotNull {e left right : TypedExpr} {field : String}
      (happ : e.Applies BinaryOperator.notEqual.function [left, right])
      (hfield : left.fieldRef? = some field) (hright : right.literal? = some .null) :
      Means related schema row e (!(valueOf schema row field).isNull)
  | comparison {e left right : TypedExpr} {field : String} {value : Value} {b : Bool}
      (op : CompareOp) (happ : e.Applies op.operator.function [left, right])
      (hfield : left.fieldRef? = some field) (hright : right.literal? = some value)
      (hvalue : value ≠ .null)
      (hb : Outcome (valueOf schema row field)
        (related op (valueOf schema row field) value = true) b) :
      Means related schema row e b
  /-- Nothing is an element of the empty list, whatever is sought. -/
  | never {e left : TypedExpr} {type : ValueType} {field : String}
      (happ : e.Applies BinaryOperator.isIn.function [left, .list type []])
      (hfield : left.fieldRef? = some field) :
      Means related schema row e false
  | membership {e left : TypedExpr} {type : ValueType} {es : List TypedExpr} {field : String}
      {values : List Value} {b : Bool}
      (happ : e.Applies BinaryOperator.isIn.function [left, .list type es])
      (hfield : left.fieldRef? = some field) (hne : es ≠ [])
      (hes : es.map TypedExpr.literal? = values.map some)
      (hb : Outcome (valueOf schema row field)
        (∃ v ∈ values, related .eq (valueOf schema row field) v = true) b) :
      Means related schema row e b
  | test {type : ValueType} {receiver argument : TypedExpr} {field sought : String} {b : Bool}
      (which : StringTest)
      (hfield : receiver.fieldRef? = some field)
      (hargument : argument.literal? = some (.string sought))
      (hb : Outcome (valueOf schema row field)
        (∃ text, valueOf schema row field = .string text ∧ which.Holds sought text) b) :
      Means related schema row (.method type receiver which.function [argument]) b

variable {related : Relations} {schema : Schema} {limits : Limits} {row : Row}

/-! ## Tests and truth values

On `null` a test is unknown and allows both values; elsewhere it is known and allows the
one value it has. -/

/-- What a truth value has to be for a test to allow just the outcomes of the test. -/
theorem allows_iff_outcome {t : Truth} {value : Value} {holds : Prop}
    (hnull : value = .null → t = .unknown)
    (hknown : value ≠ .null → ∃ c, t = .ofBool c ∧ (c = true ↔ holds)) (b : Bool) :
    t.Allows b ↔ Outcome value holds b := by
  by_cases h : value = .null
  · -- both sides are free
    rw [hnull h]
    exact ⟨fun _ => Or.inl h, fun _ => Truth.allows_unknown b⟩
  · obtain ⟨c, rfl, hc⟩ := hknown h
    rw [Truth.allows_ofBool]
    constructor
    · rintro rfl
      exact Or.inr hc
    · rintro (hv | hb)
      · exact absurd hv h
      · exact Bool.eq_iff_iff.mpr (hb.trans hc.symm)

/-- A comparison with a value other than `null` allows the outcomes of the comparison. -/
theorem compareTruth_allows {op : CompareOp} {value v : Value} (hv : v ≠ .null) (b : Bool) :
    (compareTruth related op value v).Allows b
      ↔ Outcome value (related op value v = true) b := by
  refine allows_iff_outcome ?_ ?_ b
  · rintro rfl
    exact Sql.compareTruth_null op v
  · intro hvalue
    exact ⟨_, Sql.compareTruth_of_ne hvalue hv, Iff.rfl⟩

/-- A membership in a list without `null` allows the outcomes of seeking the value. -/
theorem memberTruth_allows {value : Value} {values : List Value} (hne : values ≠ [])
    (hvalues : ∀ v ∈ values, v ≠ .null) (b : Bool) :
    (memberTruth related value values).Allows b
      ↔ Outcome value (∃ v ∈ values, related .eq value v = true) b := by
  refine allows_iff_outcome ?_ ?_ b
  · rintro rfl
    exact Sql.memberTruth_null hne
  · intro hvalue
    exact ⟨_, Sql.memberTruth_of_ne hvalue hvalues, List.any_eq_true⟩

/-- A pattern allows the outcomes of the test that it was made for. -/
theorem likeTruth_allows (which : StringTest) (sought : String) {value : Value} (b : Bool) :
    (likeTruth value (which.pattern sought)).Allows b
      ↔ Outcome value (∃ text, value = .string text ∧ which.Holds sought text) b := by
  refine allows_iff_outcome ?_ ?_ b
  · rintro rfl
    rfl
  · intro hvalue
    exact Sql.likeTruth_pattern_of_ne hvalue which sought

/-- The values of the elements of a list that has elements. -/
theorem values_ne_nil {es : List TypedExpr} {values : List Value} (hne : es ≠ [])
    (hes : es.map TypedExpr.literal? = values.map some) : values ≠ [] := by
  rintro rfl
  exact hne (List.map_eq_nil_iff.mp hes)

/-- A list of literals has one list of values. -/
theorem values_unique {es : List TypedExpr} {values others : List Value}
    (hvalues : es.map TypedExpr.literal? = values.map some)
    (hothers : es.map TypedExpr.literal? = others.map some) : values = others :=
  (List.map_inj_right (fun _ _ => Option.some.inj)).mp (hvalues.symm.trans hothers)

/-! ## Compiled leaves with known operands -/

/-- A comparison that compiles, given its field and its literal. -/
theorem comparison_of_compile {e left right : TypedExpr} {field : String} {value : Value}
    {op : CompareOp} {p : Predicate} (happ : e.Applies op.operator.function [left, right])
    (hfield : left.fieldRef? = some field) (hright : right.literal? = some value)
    (hp : compile schema limits e = .ok p) :
    (value = .null ∧ ∃ isNull, op = nullOp isNull
        ∧ p = .nullCheck (schema.resolveColumn field) isNull)
      ∨ (Bindable schema field value ∧ p = .compare (schema.resolveColumn field) op value) := by
  have happ' : e.Applies (Form.comparison op).function [left, right] := happ
  obtain ⟨f, v, hf, hv, h⟩ := comparison_eq_ok_iff.mp ((compile_comparison_iff happ').mp hp)
  -- field and literal of the operands are determined, so what is known of one pair is known of the
  -- given one
  obtain rfl : field = f := Option.some.inj (hfield.symm.trans hf)
  obtain rfl : value = v := Option.some.inj (hright.symm.trans hv)
  exact h

/-- A membership that compiles, given its field and its list. -/
theorem membership_of_compile {e left : TypedExpr} {type : ValueType} {es : List TypedExpr}
    {field : String} {p : Predicate}
    (happ : e.Applies BinaryOperator.isIn.function [left, .list type es])
    (hfield : left.fieldRef? = some field) (hp : compile schema limits e = .ok p) :
    (es = [] ∧ p = .never)
      ∨ (es ≠ [] ∧ ∃ values, es.map TypedExpr.literal? = values.map some
          ∧ (∀ v ∈ values, v ≠ .null) ∧ p = .isIn (schema.resolveColumn field) values) := by
  have happ' : e.Applies Form.membership.function [left, .list type es] := happ
  obtain ⟨f, t, es', hf, hlist, h⟩ := membership_eq_ok_iff.mp ((compile_membership_iff happ').mp hp)
  obtain rfl : field = f := Option.some.inj (hfield.symm.trans hf)
  obtain ⟨rfl, rfl⟩ : type = t ∧ es = es' := by simpa using hlist
  rcases h with hempty | ⟨hne, -, values, hes, hvalues, hp⟩
  · exact Or.inl hempty
  · exact Or.inr ⟨hne, values, hes, fun v hv => (hvalues v hv).notNull, hp⟩

/-- A test that compiles, given its field and what it seeks. -/
theorem test_of_compile {type : ValueType} {receiver argument : TypedExpr}
    {field sought : String} {which : StringTest} {p : Predicate}
    (hfield : receiver.fieldRef? = some field)
    (hargument : argument.literal? = some (.string sought))
    (hp : compile schema limits (.method type receiver which.function [argument]) = .ok p) :
    p = .like (schema.resolveColumn field) (which.pattern sought) := by
  obtain ⟨f, s, hf, -, hs, rfl⟩ := stringTest_eq_ok_iff.mp (compile_test_iff.mp hp)
  obtain rfl : field = f := Option.some.inj (hfield.symm.trans hf)
  obtain rfl : sought = s := by simpa using hargument.symm.trans hs
  rfl

/-! ## From the filter to the condition -/

/-- What a filter can come out as is allowed by its condition. The induction is on how
the filter is read: what it is read as decides which check of the compilation it has
passed. -/
theorem Means.allows {e : TypedExpr} {b : Bool} (h : Means related schema row e b) :
    ∀ {p : Predicate}, compile schema limits e = .ok p → (p.eval related row).Allows b := by
  induction h with
  | constant type value =>
      intro p hp
      obtain rfl := Except.ok.inj hp
      exact Truth.allows_ofBool.mpr rfl
  | field type name hb =>
      intro p hp
      obtain rfl := Except.ok.inj hp
      exact (compareTruth_allows (by simp) _).mpr hb
  | both happ _ _ ihleft ihright =>
      intro p hp
      have happ' : TypedExpr.Applies _ Form.both.function _ := happ
      -- the condition is a conjunction because the filter is; its sides are compiled, too
      obtain ⟨l, r, hl, hr, rfl⟩ := (compile_joined_iff rfl happ').mp hp
      exact Truth.allows_and.mpr ⟨_, _, ihleft hl, ihright hr, rfl⟩
  | either happ _ _ ihleft ihright =>
      intro p hp
      have happ' : TypedExpr.Applies _ Form.either.function _ := happ
      obtain ⟨l, r, hl, hr, rfl⟩ := (compile_joined_iff rfl happ').mp hp
      exact Truth.allows_or.mpr ⟨_, _, ihleft hl, ihright hr, rfl⟩
  | negation happ _ ih =>
      intro p hp
      obtain ⟨q, hq, rfl⟩ := (compile_negation_iff happ).mp hp
      exact Truth.allows_not.mpr ⟨_, ih hq, rfl⟩
  | isNull happ hfield hright =>
      intro p hp
      have happ' : TypedExpr.Applies _ CompareOp.eq.operator.function _ := happ
      -- `null` cannot be bound, so what has been compiled is a check for it
      rcases comparison_of_compile happ' hfield hright hp with
        ⟨-, isNull, hop, rfl⟩ | ⟨hvalue, -⟩
      · -- the check is the one that equality makes, not the one of inequality
        rcases isNull with _ | _
        · cases hop
        · exact Truth.allows_ofBool.mpr (by simp)
      · exact absurd rfl hvalue.notNull
  | isNotNull happ hfield hright =>
      intro p hp
      have happ' : TypedExpr.Applies _ CompareOp.notEq.operator.function _ := happ
      rcases comparison_of_compile happ' hfield hright hp with
        ⟨-, isNull, hop, rfl⟩ | ⟨hvalue, -⟩
      · rcases isNull with _ | _
        · exact Truth.allows_ofBool.mpr (by simp)
        · cases hop
      · exact absurd rfl hvalue.notNull
  | comparison op happ hfield hright hvalue hb =>
      intro p hp
      -- with a literal other than `null` there is no check for it
      rcases comparison_of_compile happ hfield hright hp with ⟨hnull, -⟩ | ⟨-, rfl⟩
      · exact absurd hnull hvalue
      · exact (compareTruth_allows hvalue _).mpr hb
  | never happ hfield =>
      intro p hp
      rcases membership_of_compile happ hfield hp with ⟨-, rfl⟩ | ⟨hne, -⟩
      · exact Or.inr rfl
      · exact absurd rfl hne
  | membership happ hfield hne hes hb =>
      intro p hp
      rcases membership_of_compile happ hfield hp with ⟨hempty, -⟩ | ⟨-, vs, hvs, hnull, rfl⟩
      · exact absurd hempty hne
      · -- the elements determine the values, so both lists of values are one
        obtain rfl := values_unique hes hvs
        exact (memberTruth_allows (values_ne_nil hne hes) hnull _).mpr hb
  | test which hfield hargument hb =>
      intro p hp
      obtain rfl := test_of_compile hfield hargument hp
      exact (likeTruth_allows which _ _).mpr hb

/-! ## From the condition to the filter -/

/-- A leaf can come out as whatever its condition allows. -/
theorem Leaf.means {e : TypedExpr} {p : Predicate} (h : Leaf schema limits e p) {b : Bool}
    (hb : (p.eval related row).Allows b) : Means related schema row e b := by
  cases h with
  | constant type value =>
      obtain rfl := Truth.allows_ofBool.mp hb
      exact Means.constant type _
  | field type name => exact Means.field type name ((compareTruth_allows (by simp) b).mp hb)
  | nullCheck isNull happ hfield hright =>
      -- a check for `null` is never unknown, so there is one outcome
      obtain rfl := Truth.allows_ofBool.mp hb
      rcases isNull with _ | _
      · simpa using Means.isNotNull happ hfield hright
      · simpa using Means.isNull happ hfield hright
  | comparison happ hfield hright hvalue =>
      exact Means.comparison _ happ hfield hright hvalue.notNull
        ((compareTruth_allows hvalue.notNull b).mp hb)
  | never happ hfield =>
      obtain rfl : b = false := Truth.allows_ofBool.mp hb
      exact Means.never happ hfield
  | membership happ hfield hne hsize hes hvalues =>
      have hnull : ∀ v ∈ _, v ≠ Value.null := fun v hv => (hvalues v hv).notNull
      exact Means.membership happ hfield hne hes
        ((memberTruth_allows (values_ne_nil hne hes) hnull b).mp hb)
  | test which hfield hstring hargument =>
      exact Means.test which hfield hargument ((likeTruth_allows which _ b).mp hb)

/-- A filter can come out as whatever its condition allows. -/
theorem Derives.means {e : TypedExpr} {p : Predicate} (h : Derives schema limits e p) :
    ∀ {b : Bool}, (p.eval related row).Allows b → Means related schema row e b := by
  induction h with
  | leaf h =>
      intro b hb
      exact h.means hb
  | both happ _ _ ihleft ihright =>
      intro b hb
      -- what a conjunction allows is made of what its sides allow
      obtain ⟨a, c, ha, hc, rfl⟩ := Truth.allows_and.mp hb
      exact Means.both happ (ihleft ha) (ihright hc)
  | either happ _ _ ihleft ihright =>
      intro b hb
      obtain ⟨a, c, ha, hc, rfl⟩ := Truth.allows_or.mp hb
      exact Means.either happ (ihleft ha) (ihright hc)
  | negation happ _ ih =>
      intro b hb
      -- a negation allows what the other side of its argument allows
      obtain ⟨a, ha, rfl⟩ := Truth.allows_not.mp hb
      exact Means.negation happ (ih ha)

/-- **Reading and evaluating agree.** A filter can come out as `b` on a row exactly if
the truth value of its condition on this row allows `b`. -/
theorem means_iff_allows {e : TypedExpr} {p : Predicate}
    (h : compile schema limits e = .ok p) (b : Bool) :
    Means related schema row e b ↔ (p.eval related row).Allows b :=
  ⟨fun hmeans => hmeans.allows h, (derives_of_compile h).means⟩

/-! ## Rows without `null` -/

/-- A leaf whose column is not `null` has a known truth value: it binds no `null`
itself. -/
theorem Leaf.exists_eval_eq {e : TypedExpr} {p : Predicate} (h : Leaf schema limits e p)
    (hrow : ∀ c ∈ p.mentions, row c ≠ .null) : ∃ b, p.eval related row = .ofBool b := by
  cases h with
  | constant type value => exact ⟨value, rfl⟩
  | field type name =>
      have hne := hrow (schema.resolveColumn name) (by simp [Predicate.mentions])
      exact ⟨_, Sql.compareTruth_of_ne hne (by simp)⟩
  | nullCheck isNull happ hfield hright => exact ⟨_, rfl⟩
  | @comparison _ _ _ field _ _ happ hfield hright hvalue =>
      have hne := hrow (schema.resolveColumn field) (by simp [Predicate.mentions])
      exact ⟨_, Sql.compareTruth_of_ne hne hvalue.notNull⟩
  | never happ hfield => exact ⟨false, rfl⟩
  | @membership _ _ _ _ field _ happ hfield hne hsize hes hvalues =>
      have hcolumn := hrow (schema.resolveColumn field) (by simp [Predicate.mentions])
      exact ⟨_, Sql.memberTruth_of_ne hcolumn (fun v hv => (hvalues v hv).notNull)⟩
  | @test _ _ _ field sought which hfield hstring hargument =>
      have hne := hrow (schema.resolveColumn field) (by simp [Predicate.mentions])
      -- a pattern is known on every value but `null`, also on those that are no text
      obtain ⟨b, hb, -⟩ := Sql.likeTruth_pattern_of_ne hne which sought
      exact ⟨b, hb⟩

/-- Where no column of a condition is `null`, its truth value is known. -/
theorem Derives.exists_eval_eq {e : TypedExpr} {p : Predicate} (h : Derives schema limits e p)
    (hrow : ∀ c ∈ p.mentions, row c ≠ .null) : ∃ b, p.eval related row = .ofBool b := by
  induction h with
  | leaf h => exact h.exists_eval_eq hrow
  | both happ _ _ ihleft ihright =>
      obtain ⟨a, ha⟩ := ihleft (fun c hc => hrow c (List.mem_append_left _ hc))
      obtain ⟨b, hb⟩ := ihright (fun c hc => hrow c (List.mem_append_right _ hc))
      exact ⟨a && b, by rw [Predicate.eval, ha, hb, Truth.ofBool_and]⟩
  | either happ _ _ ihleft ihright =>
      obtain ⟨a, ha⟩ := ihleft (fun c hc => hrow c (List.mem_append_left _ hc))
      obtain ⟨b, hb⟩ := ihright (fun c hc => hrow c (List.mem_append_right _ hc))
      exact ⟨a || b, by rw [Predicate.eval, ha, hb, Truth.ofBool_or]⟩
  | negation happ _ ih =>
      obtain ⟨a, ha⟩ := ih hrow
      exact ⟨!a, by rw [Predicate.eval, ha, Truth.ofBool_not]⟩

/-! ## The result -/

/-- **Conditions mean what filters mean.** If a filter compiles and its condition is
true or false on a row, this is the one value the filter can have on the row; and the
condition is true or false on every row that is not `null` in its columns. -/
theorem compile_preserves_meaning {e : TypedExpr} {p : Predicate}
    (h : compile schema limits e = .ok p) (related : Relations) (row : Row) :
    (∀ b, p.eval related row = .ofBool b →
        ∀ c, Means related schema row e c ↔ c = b)
      ∧ ((∀ column ∈ p.columns, row column ≠ .null) → ∃ b, p.eval related row = .ofBool b) := by
  refine ⟨?_, ?_⟩
  · -- on a known truth value `Allows` leaves one outcome
    intro b hb c
    rw [means_iff_allows h c, hb]
    exact Truth.allows_ofBool
  · intro hrow
    exact (derives_of_compile h).exists_eval_eq
      (fun column hcolumn => hrow column (Predicate.mem_columns.mpr hcolumn))

/-- A filter by a field that is there and by the beginning of a text, in which a
character is sought that patterns give a meaning. -/
def offerFilter : TypedExpr :=
  .call .bool "_&&_"
    [.call .bool "_!=_" [.ident .string "contact", .ofValue .null],
     .method .bool (.ident .string "title") "startsWith" [.ofValue (.string "50%")]]

/-- The contact is kept in a column of another name. -/
def offerSchema : Schema :=
  ⟨[⟨"contact", .string, "mail"⟩, ⟨"title", .string, "title"⟩]⟩

/-- On a row with a fitting title the filter is true and nothing else; on one that has
only other titles it is not. -/
theorem compile_preserves_meaning_offer :
    compile offerSchema .default offerFilter
        = .ok (.and (.nullCheck "mail" false) (.like "title" "50\\%%"))
      ∧ (∀ c, Means (fun _ v w => v = w) offerSchema (fun _ => .string "50% off") offerFilter c
          ↔ c = true)
      ∧ (∀ c, Means (fun _ v w => v = w) offerSchema (fun _ => .string "50 off") offerFilter c
          ↔ c = false) := by
  have hcompile : compile offerSchema .default offerFilter
      = .ok (.and (.nullCheck "mail" false) (.like "title" "50\\%%")) := rfl
  refine ⟨hcompile, ?_, ?_⟩
  · exact (compile_preserves_meaning hcompile _ _).1 true (by decide)
  · exact (compile_preserves_meaning hcompile _ _).1 false (by decide)

end RowFilter.Condition
