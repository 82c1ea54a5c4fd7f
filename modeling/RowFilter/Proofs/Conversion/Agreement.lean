/-
When a checked filter is refused for its types.

Types are looked at twice. The checker gives one to every operand and compares it with the
literals around; a condition holds the same literals against the schema, under the name that
the operand ends in. A converter of settings has one list of fields for both, so for a declared
name the second look sees what the first has seen. It sees something else in two places.
The elements of a list may be `null` for the checker, and `null` in a list is never bound. And
a key that is selected from a map has the type of the values of this map for the checker, while
the schema may know a field that happens to have the name of the key. There are no other
places, `convert_typeMismatch`.

The proof goes through the reasons of the type of `Refused`. For each of them the rule of the
checker for the same node says how the types of the operand and of the literal are related.
-/
import RowFilter.Proofs.Conversion.Columns
import RowFilter.Proofs.Conversion.Contract
import RowFilter.Proofs.Conversion.Roles

set_option autoImplicit false

namespace RowFilter

open Condition (Form Operand Refused Unfit Within nullOp)
open Sql (CompareOp StringTest)
open TypedExpr (Part)

/-! ## Literals and kinds -/

/-- A value has the kind `null` only if it is `null`. -/
theorem Value.kind_eq_null_iff {value : Value} : value.kind = .null ↔ value = .null := by
  cases value <;> simp [Value.kind]

/-- A value of kind `string` is a text. -/
theorem Value.kind_eq_string {value : Value} (h : value.kind = .string) :
    ∃ text, value = .string text := by
  cases value with
  | string text => exact ⟨text, rfl⟩
  | _ => cases h

namespace Typing

variable {env : Environment} {e : TypedExpr}

/-- A checked literal has the type of its value. -/
theorem Node.type_of_literal {a : TypedExpr} {value : Value} (hnode : Node env a)
    (h : a.literal? = some value) : a.type = value.kind := by
  cases hnode with
  | literal v =>
      obtain rfl := Option.some.inj h
      rfl
  | ident | select | unary | binary | call | method | list => cases h

/-- The elements of a checked list have the type that the list carries. -/
theorem Node.elements_of_list {type : ValueType} {es : List TypedExpr}
    (hnode : Node env (.list type es)) :
    ∃ elem, type = .list elem ∧ ElementRule (es.map TypedExpr.type) elem := by
  cases hnode with
  | list htype => exact ⟨_, rfl, elementType_null_eq_ok_iff.mp htype⟩

/-! ## Rules of the checker for conditions -/

/-- An operator is found again by its function. -/
theorem find?_function (operator : BinaryOperator) :
    BinaryOperator.all.find? (·.function = operator.function) = some operator := by
  cases operator <;> decide

/-- Different operators have different functions. -/
theorem operator_eq_of_function_eq {operator operator' : BinaryOperator}
    (h : operator.function = operator'.function) : operator = operator' := by
  have hfound := find?_function operator
  rw [h, find?_function operator'] at hfound
  exact (Option.some.inj hfound).symm

/-- No function that is called is written like an operator. -/
theorem CallRule.function_ne {function : String} {receiver : Option ValueType}
    {arguments : List ValueType} {type : ValueType} (h : CallRule function receiver arguments type)
    (operator : BinaryOperator) : operator.function ≠ function := by
  cases h with
  | stringTest hfunction =>
      simp only [stringTests, List.mem_cons, List.not_mem_nil, or_false] at hfunction
      -- the functions that are called are words, and those of operators have underscores or an at
      -- sign
      rcases hfunction with rfl | rfl | rfl | rfl <;> cases operator <;> decide
  | size | sizeOfReceiver => cases operator <;> decide

/-- A checked application of an operator follows the rule of the operator. -/
theorem Application.operator_rule {operator : BinaryOperator} {left right : TypedExpr}
    (h : Application e operator.function [left, right]) :
    BinaryRule operator left.type right.type e.type := by
  generalize hfunction : operator.function = function at h
  generalize harguments : [left, right] = arguments at h
  -- three kinds of application share the form, and only one of them is of an operator with two
  -- sides
  cases h with
  | unary hrule => cases harguments
  | binary hrule =>
      obtain rfl := operator_eq_of_function_eq hfunction
      cases harguments
      exact hrule
  | call hrule => exact absurd hfunction (hrule.function_ne operator)

/-- A checked test is one of a text on a text. -/
theorem Application.test_rule {which : StringTest} {receiver argument : TypedExpr}
    (hreceiver : e.receiver? = some receiver)
    (h : Application e (Form.test which).function [argument]) :
    receiver.type = .string ∧ argument.type = .string := by
  generalize hfunction : (Form.test which).function = function at h
  generalize harguments : [argument] = arguments at h
  cases h with
  | unary hrule =>
      obtain ⟨hform, -⟩ := form_of_unary hfunction
      cases hform
  | binary hrule => cases harguments
  | call hrule =>
      subst harguments
      rw [hreceiver] at hrule
      generalize hreceiverType : (some receiver).map TypedExpr.type = receiverType at hrule
      generalize htypes : [argument].map TypedExpr.type = types at hrule
      generalize e.type = type at hrule
      -- with one argument and a receiver the only rule left is that of tests
      cases hrule with
      | stringTest =>
          exact ⟨Option.some.inj hreceiverType, List.singleton_inj.mp htypes⟩
      | size => cases hreceiverType
      | sizeOfReceiver => cases htypes

/-- What is compared has one type, unless one side is `null`. -/
theorem BinaryRule.comparable {op : CompareOp} {left right type : ValueType}
    (h : BinaryRule op.operator left right type) :
    left = right ∨ left = .null ∨ right = .null := by
  generalize hoperator : op.operator = operator at h
  cases h with
  | logical | ordering | arithmetic => exact Or.inl rfl
  | equality _ htypes => exact htypes
  | inList | inMap => cases op <;> cases hoperator

/-- `null` is not ordered. -/
theorem BinaryRule.ne_null_of_ordering {op : CompareOp} {left right type : ValueType}
    (h : BinaryRule op.operator left right type) (hop : ∀ isNull, op ≠ nullOp isNull) :
    right ≠ .null := by
  have hordering : op.operator ∉ [.equal, .notEqual] := by
    intro hmem
    cases op with
    | eq => exact hop true rfl
    | notEq => exact hop false rfl
    | lt | ltEq | gt | gtEq => simp [CompareOp.operator] at hmem
  generalize op.operator = operator at h hordering
  cases h with
  | logical | inMap => simp
  | equality hoperator => exact absurd hoperator hordering
  | ordering _ hordered =>
      rintro rfl
      cases hordered
  | arithmetic _ hnumeric =>
      rintro rfl
      cases hnumeric
  | inList => simp

/-- What is sought in a list has the type of each element, unless one of the two is `null`. -/
theorem BinaryRule.sought {needle elem type : ValueType} {types : List ValueType}
    (h : BinaryRule .isIn needle (.list elem) type) (helements : ElementRule types elem) :
    ∀ t ∈ types, needle = t ∨ needle = .null ∨ t = .null := by
  intro t ht
  -- an element is `null` or of the type that the list carries
  rcases helements.shared t ht with hnull | rfl
  · exact Or.inr (Or.inr hnull)
  · cases h with
    | equality hoperator | ordering hoperator | arithmetic hoperator => simp at hoperator
    | inList h =>
        rcases h with h | h | h
        · exact Or.inl h.symm
        · exact Or.inr (Or.inr h)
        · exact Or.inr (Or.inl h)

end Typing

/-! ## Where the two looks differ -/

namespace Condition

/-- A membership in a list that has `null` among its elements. -/
def HasNullElement (n : TypedExpr) : Prop :=
  ∃ left type es, n.Applies "@in" [left, .list type es] ∧ ∃ a ∈ es, a.literal? = some .null

/-- A condition on a key of a map that is also the name of a field, where the type of the field
is asked for and is not that of the key: a scalar type, or any type under a test on strings. -/
def KeyMismatch (schema : Schema) (n : TypedExpr) : Prop :=
  ∃ type map key declared, Operand n (.select type map key) ∧ map.type = .map .string type
    ∧ schema.typeOf? key = some declared ∧ declared ≠ type
    ∧ (declared.isScalar = true
        ∨ ∃ which arguments, n.Applies (Form.test which).function arguments)

/-- A tree with a condition of one of these kinds. -/
def Mismatched (schema : Schema) (tree : TypedExpr) : Prop :=
  ∃ n, Within n tree ∧ (HasNullElement n ∨ KeyMismatch schema n)

/-- A literal that is not of the declared type tells this type from the one it was checked
against. -/
theorem ne_of_kind_ne {type declared : ValueType} {value : Value}
    (htypes : type = value.kind ∨ type = .null) (hscalar : declared.isScalar = true)
    (hkind : value.kind ≠ declared) : declared ≠ type := by
  rintro rfl
  rcases htypes with h | h
  · exact hkind h.symm
  · rw [h] at hscalar
    cases hscalar

end Condition

open Condition (HasNullElement KeyMismatch Mismatched ne_of_kind_ne)

namespace Converter

open Typing (AllNodes BinaryRule Node)

section Checked

variable {config : Config} {env : Environment} {limits : Limits} {tree n : TypedExpr}
  {why : Rejection}

/-- An operand whose field is declared with another type than the operand has is a key. -/
theorem keyMismatch_of_ne {operand : TypedExpr} {field : String} {declared : ValueType}
    (hnames : (config.schema.fields.map Field.name).Nodup)
    (henv : env.declarations = config.declarations) (hnode : Node env operand)
    (hoperand : Operand n operand) (hname : operand.fieldRef? = some field)
    (htype : config.schema.typeOf? field = some declared) (hne : declared ≠ operand.type)
    (hasked : declared.isScalar = true
      ∨ ∃ which arguments, n.Applies (Form.test which).function arguments) :
    KeyMismatch config.schema n := by
  -- a checked operand names a declared field or a key of a map
  rcases name_or_key hnode hname with ⟨type, rfl, hlookup⟩ | ⟨type, map, rfl, hmap⟩
  · -- a declared name has one type in both views
    rw [typeOf?_eq_lookup? hnames henv, hlookup] at htype
    exact absurd (Option.some.inj htype).symm hne
  · exact ⟨type, map, field, declared, hoperand, hmap, htype, hne, hasked⟩

/-- An operand whose field does not fit a checked literal is a key, if the checker has compared
the types of the two. -/
theorem keyMismatch_of_unfit {operand a : TypedExpr} {field : String}
    (hnames : (config.schema.fields.map Field.name).Nodup)
    (henv : env.declarations = config.declarations) (hnode : Node env operand)
    (hliteral : Node env a) (hoperand : Operand n operand)
    (hname : operand.fieldRef? = some field)
    (htypes : operand.type = a.type ∨ operand.type = .null ∨ a.type = .null)
    (hunfit : Unfit config.schema field a why) (hcode : why.code = .typeMismatch) :
    KeyMismatch config.schema n := by
  cases hunfit with
  | noConstant h =>
      rw [h.code_eq] at hcode
      cases hcode
  | wrongKind hvalue hnull htype hscalar hkind =>
      rw [hliteral.type_of_literal hvalue, Value.kind_eq_null_iff] at htypes
      have hchecked := htypes.imp_right fun h => h.resolve_right hnull
      exact keyMismatch_of_ne hnames henv hnode hoperand hname htype
        (ne_of_kind_ne hchecked hscalar hkind) (Or.inl hscalar)

/-- **Refusals for types.** A condition of a checked tree that is refused with the code of types
has a `null` in its list or is on a key that is a field of another type. -/
theorem mismatch_of_refused (hnames : (config.schema.fields.map Field.name).Nodup)
    (henv : env.declarations = config.declarations) (hnodes : AllNodes env n)
    (hrefused : Refused config.schema limits n why) (hcode : why.code = .typeMismatch) :
    HasNullElement n ∨ KeyMismatch config.schema n := by
  have hnode := hnodes n (Part.root n)
  cases hrefused with
  -- the other reasons have other codes
  | selection | list | function | operand | noList | tooLarge => cases hcode
  | compared happ hfield h =>
      have hleft := hnodes _ (happ.part_of_mem List.mem_cons_self)
      have hright := hnodes _ (happ.part_of_mem (List.mem_cons_of_mem _ List.mem_cons_self))
      -- what the checker knows of both sides
      have htypes := (hnode.application happ).operator_rule.comparable
      exact Or.inr (keyMismatch_of_unfit hnames henv hleft hright (Operand.comparison happ) hfield
        htypes h hcode)
  | @element _ left _ _ es _ _ happ hfield ha h =>
      have hleft := hnodes _ (happ.part_of_mem List.mem_cons_self)
      have hlist := happ.part_of_mem (List.mem_cons_of_mem _ List.mem_cons_self)
      have helement := hnodes _ ((Part.inside ha (Part.root _)).trans hlist)
      obtain ⟨elem, rfl, helements⟩ := (hnodes _ hlist).elements_of_list
      have hrule : BinaryRule .isIn left.type (TypedExpr.list (.list elem) es).type n.type :=
        (hnode.application happ).operator_rule
      have htypes := hrule.sought helements _ (List.mem_map_of_mem ha)
      exact Or.inr (keyMismatch_of_unfit hnames henv hleft helement (Operand.membership happ)
        hfield htypes h hcode)
  | nullElement happ hfield ha hnull =>
      exact Or.inl ⟨_, _, _, happ, _, List.mem_of_getElem? ha, hnull⟩
  | @nullOrdering _ _ right _ _ hop happ hfield hright =>
      -- the checker has no order for `null`
      have hrule := (hnode.application happ).operator_rule
      have hnodeRight :=
        hnodes right (happ.part_of_mem (List.mem_cons_of_mem _ List.mem_cons_self))
      exact absurd (hnodeRight.type_of_literal hright) (hrule.ne_null_of_ordering hop)
  | @testedType type declared receiver argument field which hfield htype hstring =>
      have hrule := (hnode.application (.method _ _ _ _)).test_rule rfl
      have hreceiver := hnodes receiver (Part.inside List.mem_cons_self (Part.root _))
      rw [← hrule.1] at hstring
      exact Or.inr (keyMismatch_of_ne hnames henv hreceiver (Operand.test _ _ which _) hfield
        htype hstring (Or.inr ⟨which, _, .method _ _ _ _⟩))
  | testConstant which h =>
      rw [h.code_eq] at hcode
      cases hcode
  | @testArgument type receiver argument value which hargument hstring =>
      -- the checker has seen a text
      have hrule := (hnode.application (.method _ _ _ _)).test_rule rfl
      have hnodeArgument := hnodes argument
        (Part.inside (List.mem_cons_of_mem _ List.mem_cons_self) (Part.root _))
      have hkind := (hnodeArgument.type_of_literal hargument).symm.trans hrule.2
      obtain ⟨text, htext⟩ := Value.kind_eq_string hkind
      exact absurd htext (hstring text)

/-- A checked tree is refused with the code of types only for such a condition. -/
theorem mismatched_of_compile {failure : ConvertError}
    (hnames : (config.schema.fields.map Field.name).Nodup)
    (henv : env.declarations = config.declarations) (hnodes : AllNodes env tree)
    (h : Condition.compile config.schema limits tree = .error failure)
    (hcode : failure.code? = some .typeMismatch) : Mismatched config.schema tree := by
  cases failure with
  | rejected why =>
      obtain ⟨n, hn, hrefused⟩ := Condition.exists_refused_of_compile h
      -- the nodes inside a condition of the tree are nodes of the tree
      have hnodesIn : AllNodes env n := fun m hm => hnodes m (hm.trans hn.part)
      exact ⟨n, hn, mismatch_of_refused hnames henv hnodesIn hrefused (Option.some.inj hcode)⟩
  | contract breach => cases hcode

end Checked

/-! ## Conversions -/

/-- **Where the two looks at types disagree.** With a converter of settings, a source text is
refused with the code of types only if its tree has a condition with a `null` in its list, or
one on a key that is also a field of another type. No other tree that the checker makes is
refused with it, under any limits. -/
theorem convert_typeMismatch {config : Config} {c : Converter} (hconfig : ofConfig config = .ok c) :
    (∀ source, FailsWith .typeMismatch (c.convert source) →
        ∃ tree, c.compiler.compile source = .ok tree ∧ Mismatched c.schema tree)
      ∧ ∀ source tree limits failure, c.compiler.compile source = .ok tree →
          Condition.compile c.schema limits tree = .error failure →
          failure.code? = some .typeMismatch → Mismatched c.schema tree := by
  obtain ⟨hnames, env, rfl, henv⟩ := ofConfig_spec hconfig
  have hchecked : ∀ source tree limits failure,
      (withCompiler config (.environment env)).compiler.compile source = .ok tree →
      Condition.compile config.schema limits tree = .error failure →
      failure.code? = some .typeMismatch → Mismatched config.schema tree := by
    intro source tree limits failure htree hfailure hcode
    exact mismatched_of_compile hnames henv (allNodes_of_compile htree) hfailure hcode
  refine ⟨?_, hchecked⟩
  rintro source ⟨failure, hfailure, hcode⟩
  -- the code of types comes from a condition, or else the source has failed one of the checks
  rcases admits_or_fails _ source with ⟨tree, hadmits⟩ | ⟨why, hmem, hfails⟩
  · have hcompile := compile_of_convert hadmits hfailure
    exact ⟨tree, hadmits.compiles, hchecked source tree _ failure hadmits.compiles hcompile hcode⟩
  · -- the checks before have other codes
    obtain rfl := Except.error.inj ((hfails none).symm.trans hfailure)
    rw [Option.some.inj hcode] at hmem
    exact absurd hmem (by decide)

/-! ### A number and a key -/

/-- A number and a map of texts. -/
def ageConfig : Config :=
  { Config.empty with
    fields := [⟨"age", .int, none⟩, ⟨"labels", .map .string .string, none⟩] }

def ageConverter : Converter :=
  withCompiler ageConfig (.environment ⟨ageConfig.declarations⟩)

/-- A result with a failure is that failure. -/
theorem eq_error_of_failure? {α : Type} {r : Except ConvertError α} {failure : ConvertError}
    (h : failure? r = some failure) : r = .error failure := by
  cases r with
  | ok a => cases h
  | error e =>
      obtain rfl := Option.some.inj h
      rfl

/-- The key is selected from the map, and the checker compares it as a text. -/
theorem compile_age_key :
    ageConverter.compiler.compile "labels.age == \"x\"" = .ok (isText (labelKey "age") "x") :=
  eq_ok_of_toOption (by decide +kernel)

/-- The number is sought in a list with `null`, and the key with its name is compared with a
text. The checker accepts both, and both are refused for their types. -/
theorem convert_typeMismatch_age :
    ofConfig ageConfig = .ok ageConverter
      ∧ FailsWith .typeMismatch (ageConverter.convert "age in [1, null]")
      ∧ (∃ tree, ageConverter.compiler.compile "age in [1, null]" = .ok tree
          ∧ Mismatched ageConverter.schema tree)
      ∧ Condition.compile ageConverter.schema Limits.default (isText (labelKey "age") "x")
          = .error (.rejected (.wrongLiteral "age" .int .string))
      ∧ Mismatched ageConverter.schema (isText (labelKey "age") "x") := by
  have hconfig : ofConfig ageConfig = .ok ageConverter := rfl
  have hfailure : ageConverter.convert "age in [1, null]"
      = .error (.rejected (.nullElement 1 "age")) :=
    eq_error_of_failure? (by decide +kernel)
  have hfails : FailsWith .typeMismatch (ageConverter.convert "age in [1, null]") :=
    ⟨_, hfailure, rfl⟩
  have hkey : Condition.compile ageConverter.schema Limits.default (isText (labelKey "age") "x")
      = .error (.rejected (.wrongLiteral "age" .int .string)) := rfl
  obtain ⟨hconvert, hchecked⟩ := convert_typeMismatch hconfig
  exact ⟨hconfig, hfails, hconvert _ hfails, hkey,
    hchecked _ _ Limits.default _ compile_age_key hkey rfl⟩

/-- A key can be refused for the type of the field that has its name, where there is no `null`
in the whole tree. -/
theorem selected_key_meets_type :
    ofConfig ageConfig = .ok ageConverter
      ∧ ageConverter.compiler.compile "labels.age == \"x\"" = .ok (isText (labelKey "age") "x")
      ∧ FailsWith .typeMismatch (ageConverter.convert "labels.age == \"x\"")
      ∧ ¬ ∃ n, Part n (isText (labelKey "age") "x") ∧ n.literal? = some .null := by
  have hfailure : ageConverter.convert "labels.age == \"x\""
      = .error (.rejected (.wrongLiteral "age" .int .string)) :=
    eq_error_of_failure? (by decide +kernel)
  refine ⟨rfl, compile_age_key, ⟨_, hfailure, rfl⟩, ?_⟩
  rintro ⟨n, hn, hnull⟩
  rcases TypedExpr.part_iff.mp hn with rfl | ⟨side, hside, hn⟩
  · cases hnull
  rcases List.mem_pair.mp hside with rfl | rfl
  · -- the key, and the map below it
    rcases TypedExpr.part_iff.mp hn with rfl | ⟨map, hmap, hn⟩
    · cases hnull
    obtain rfl := List.mem_singleton.mp hmap
    rcases TypedExpr.part_iff.mp hn with rfl | ⟨_, hnone, -⟩
    · cases hnull
    · cases hnone
  · rcases TypedExpr.part_iff.mp hn with rfl | ⟨_, hnone, -⟩
    · cases hnull
    · cases hnone

end Converter

end RowFilter
