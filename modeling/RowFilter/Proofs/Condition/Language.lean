/-
The language of conditions.

Of all typed trees only few are conditions, and which ones is said here without reference to
what they become. `Convertible` is a grammar: a rule for each kind of node that may stand where a
condition is expected, with what its arguments have to be. Compiling succeeds on the trees of
this grammar and on no others, `compile_succeeds_iff`. In a tree that is refused everything
is refused with it: a single node outside of the grammar, under whatever connectives, is
enough.

The grammar asks nothing of the types that a tree carries, and it names functions by their
spelling. Both are deliberate. Any compiler may write the trees, and what is refused here is
all that stands between it and a query.
-/
import RowFilter.Proofs.Condition.Columns

set_option autoImplicit false

namespace RowFilter.Condition

open Sql (CompareOp Predicate StringTest)

/-! ## The grammar -/

/-- The trees that are conditions. -/
inductive Convertible (schema : Schema) (limits : Limits) : TypedExpr → Prop where
  | truth (type : ValueType) (value : Bool) :
      Convertible schema limits (.literal type (.boolean value))
  | field (type : ValueType) (name : String) : Convertible schema limits (.ident type name)
  | connective {e left right : TypedExpr} {function : String}
      (hfunction : function ∈ ["_&&_", "_||_"]) (happ : e.Applies function [left, right])
      (hleft : Convertible schema limits left) (hright : Convertible schema limits right) :
      Convertible schema limits e
  | negation {e inner : TypedExpr} (happ : e.Applies "!_" [inner])
      (hinner : Convertible schema limits inner) : Convertible schema limits e
  /-- Only equality and inequality are defined on `null`. -/
  | equality {e left right : TypedExpr} {function field : String} {value : Value}
      (hfunction : function ∈ ["_==_", "_!=_"]) (happ : e.Applies function [left, right])
      (hfield : left.fieldRef? = some field) (hright : right.literal? = some value)
      (hvalue : value = .null ∨ Bindable schema field value) : Convertible schema limits e
  | ordering {e left right : TypedExpr} {function field : String} {value : Value}
      (hfunction : function ∈ ["_<_", "_<=_", "_>_", "_>=_"])
      (happ : e.Applies function [left, right])
      (hfield : left.fieldRef? = some field) (hright : right.literal? = some value)
      (hvalue : Bindable schema field value) : Convertible schema limits e
  | membership {e left : TypedExpr} {type : ValueType} {es : List TypedExpr} {field : String}
      (happ : e.Applies "@in" [left, .list type es]) (hfield : left.fieldRef? = some field)
      (hsize : es.length ≤ limits.maxInSize)
      (hes : ∀ a ∈ es, ∃ value, a.literal? = some value ∧ Bindable schema field value) :
      Convertible schema limits e
  /-- The receiver may be declared as a string or not at all. -/
  | test {type : ValueType} {receiver argument : TypedExpr} {function field text : String}
      (hfunction : function ∈ ["contains", "startsWith", "endsWith"])
      (hfield : receiver.fieldRef? = some field)
      (hstring : ∀ declared, schema.typeOf? field = some declared → declared = .string)
      (hargument : argument.literal? = some (.string text)) :
      Convertible schema limits (.method type receiver function [argument])

/-! ## Functions of the grammar and forms -/

/-- Equality and inequality are the comparisons of which a check for `null` is made. -/
theorem exists_nullOp {function : String} (h : function ∈ ["_==_", "_!=_"]) :
    ∃ isNull, function = (Form.comparison (nullOp isNull)).function := by
  simp only [List.mem_cons, List.not_mem_nil, or_false] at h
  rcases h with rfl | rfl
  · exact ⟨true, rfl⟩
  · exact ⟨false, rfl⟩

/-- The functions that ask for an order are comparisons. -/
theorem exists_ordering {function : String} (h : function ∈ ["_<_", "_<=_", "_>_", "_>=_"]) :
    ∃ op, function = (Form.comparison op).function := by
  simp only [List.mem_cons, List.not_mem_nil, or_false] at h
  rcases h with rfl | rfl | rfl | rfl
  · exact ⟨.lt, rfl⟩
  · exact ⟨.ltEq, rfl⟩
  · exact ⟨.gt, rfl⟩
  · exact ⟨.gtEq, rfl⟩

/-- A comparison asks for equality or for an order. -/
theorem comparison_function_mem (op : CompareOp) :
    (Form.comparison op).function ∈ ["_==_", "_!=_"]
      ∨ (Form.comparison op).function ∈ ["_<_", "_<=_", "_>_", "_>=_"] := by
  cases op <;> decide

/-- A check for `null` is asked for by equality or by inequality. -/
theorem nullOp_function_mem (isNull : Bool) :
    (Form.comparison (nullOp isNull)).function ∈ ["_==_", "_!=_"] := by
  cases isNull <;> decide

/-- The functions that ask for a test are those of the three tests. -/
theorem exists_test {function : String} (h : function ∈ ["contains", "startsWith", "endsWith"]) :
    ∃ which, function = (Form.test which).function := by
  simp only [List.mem_cons, List.not_mem_nil, or_false] at h
  rcases h with rfl | rfl | rfl
  · exact ⟨.contains, rfl⟩
  · exact ⟨.startsWith, rfl⟩
  · exact ⟨.endsWith, rfl⟩

/-- Each of the three tests has one of these functions. -/
theorem test_function_mem (which : StringTest) :
    (Form.test which).function ∈ ["contains", "startsWith", "endsWith"] := by
  cases which <;> decide

/-! ## Lists of literals -/

/-- The values of literals, each with a property, are the values of a list of trees exactly if
every tree is such a literal. -/
theorem exists_values_iff {P : Value → Prop} {es : List TypedExpr} :
    (∃ values : List Value, es.map TypedExpr.literal? = values.map some ∧ ∀ v ∈ values, P v) ↔
      ∀ a ∈ es, ∃ value, a.literal? = some value ∧ P value := by
  constructor
  · rintro ⟨values, hes, hvalues⟩ a ha
    -- a tree of the list stands for one of the values
    have hmem : a.literal? ∈ values.map some := hes ▸ List.mem_map_of_mem ha
    obtain ⟨value, hvalue, hliteral⟩ := List.mem_map.mp hmem
    exact ⟨value, hliteral.symm, hvalues value hvalue⟩
  · intro h
    induction es with
    | nil => exact ⟨[], rfl, by simp⟩
    | cons a rest ih =>
        obtain ⟨ha, hrest⟩ := List.forall_mem_cons.mp h
        obtain ⟨value, hliteral, hvalue⟩ := ha
        obtain ⟨values, hes, hvalues⟩ := ih hrest
        refine ⟨value :: values, ?_, List.forall_mem_cons.mpr ⟨hvalue, hvalues⟩⟩
        rw [List.map_cons, List.map_cons, hliteral, hes]

/-! ## Trees of the grammar and derivations -/

variable {schema : Schema} {limits : Limits} {e : TypedExpr} {p : Predicate}

/-- Every rule of `Leaf` is covered by one of the grammar. -/
theorem Leaf.convertible (h : Leaf schema limits e p) : Convertible schema limits e := by
  cases h with
  | constant type value => exact Convertible.truth type value
  | field type name => exact Convertible.field type name
  | nullCheck isNull happ hfield hright =>
      exact Convertible.equality (nullOp_function_mem isNull) happ hfield hright (Or.inl rfl)
  | @comparison _ _ _ _ op _ happ hfield hright hvalue =>
      -- a value that can be bound is allowed under both rules
      rcases comparison_function_mem op with hequality | hordering
      · exact Convertible.equality hequality happ hfield hright (Or.inr hvalue)
      · exact Convertible.ordering hordering happ hfield hright hvalue
  | never happ hfield =>
      exact Convertible.membership happ hfield (Nat.zero_le _) (by simp)
  | membership happ hfield hne hsize hes hvalues =>
      exact Convertible.membership happ hfield hsize (exists_values_iff.mp ⟨_, hes, hvalues⟩)
  | test which hfield hstring hargument =>
      exact Convertible.test (test_function_mem which) hfield hstring hargument

/-- What has a derivation is in the grammar. -/
theorem Derives.convertible (h : Derives schema limits e p) : Convertible schema limits e := by
  induction h with
  | leaf h => exact h.convertible
  | both happ _ _ ihleft ihright =>
      exact Convertible.connective List.mem_cons_self happ ihleft ihright
  | either happ _ _ ihleft ihright =>
      exact Convertible.connective (List.mem_cons_of_mem _ List.mem_cons_self) happ ihleft ihright
  | negation happ _ ih => exact Convertible.negation happ ih

/-- Every tree of the grammar has a derivation. -/
theorem Convertible.exists_derives (h : Convertible schema limits e) :
    ∃ p, Derives schema limits e p := by
  induction h with
  | truth type value => exact ⟨_, Derives.leaf (Leaf.constant type value)⟩
  | field type name => exact ⟨_, Derives.leaf (Leaf.field type name)⟩
  | connective hfunction happ _ _ ihleft ihright =>
      obtain ⟨p, hp⟩ := ihleft
      obtain ⟨q, hq⟩ := ihright
      simp only [List.mem_cons, List.not_mem_nil, or_false] at hfunction
      -- the function decides whether it is a conjunction or a disjunction
      rcases hfunction with rfl | rfl
      · exact ⟨.and p q, Derives.both happ hp hq⟩
      · exact ⟨.or p q, Derives.either happ hp hq⟩
  | negation happ _ ih =>
      obtain ⟨p, hp⟩ := ih
      exact ⟨.not p, Derives.negation happ hp⟩
  | equality hfunction happ hfield hright hvalue =>
      obtain ⟨isNull, rfl⟩ := exists_nullOp hfunction
      -- `null` makes a check of the comparison, any other value is compared with
      rcases hvalue with rfl | hvalue
      · exact ⟨_, Derives.leaf (Leaf.nullCheck isNull happ hfield hright)⟩
      · exact ⟨_, Derives.leaf (Leaf.comparison happ hfield hright hvalue)⟩
  | ordering hfunction happ hfield hright hvalue =>
      obtain ⟨op, rfl⟩ := exists_ordering hfunction
      exact ⟨_, Derives.leaf (Leaf.comparison happ hfield hright hvalue)⟩
  | @membership e left type es field happ hfield hsize hes =>
      -- the grammar has one rule for lists, but an empty one becomes another condition
      by_cases hempty : es = []
      · subst hempty
        exact ⟨.never, Derives.leaf (Leaf.never happ hfield)⟩
      · obtain ⟨values, hmap, hvalues⟩ := exists_values_iff.mpr hes
        exact ⟨_, Derives.leaf (Leaf.membership happ hfield hempty hsize hmap hvalues)⟩
  | test hfunction hfield hstring hargument =>
      obtain ⟨which, rfl⟩ := exists_test hfunction
      exact ⟨_, Derives.leaf (Leaf.test which hfield hstring hargument)⟩

/-! ## What compiles -/

/-- Compiling succeeds on the trees of the grammar. -/
theorem exists_compile_iff :
    (∃ p, compile schema limits e = .ok p) ↔ Convertible schema limits e := by
  constructor
  · rintro ⟨p, hp⟩
    exact (derives_of_compile hp).convertible
  · intro h
    obtain ⟨p, hp⟩ := h.exists_derives
    exact ⟨p, hp.compile_eq⟩

/-- **The language that compiles.** Compiling succeeds on the trees of the grammar and on no
others; and a condition outside of the grammar makes it fail on every tree that has this
condition in it, whatever stands around it. -/
theorem compile_succeeds_iff (schema : Schema) (limits : Limits) (e : TypedExpr) :
    ((∃ p, compile schema limits e = .ok p) ↔ Convertible schema limits e)
      ∧ ∀ n, Within n e → ¬ Convertible schema limits n →
          ∃ why, compile schema limits e = .error why := by
  refine ⟨exists_compile_iff, fun n hn hout => ?_⟩
  rcases hcompile : compile schema limits e with why | p
  · exact ⟨why, rfl⟩
  · -- had the whole been compiled, its condition `n` would have been compiled with it
    obtain ⟨q, -, hq⟩ := (derives_of_compile hcompile).of_within hn
    exact absurd hq.convertible hout

/-- An age that is to come before `null`. -/
def beforeNull : TypedExpr := .call .bool "_<_" [.ident .int "age", .ofValue .null]

/-- A flag by itself, or else the comparison with `null` denied. -/
def flagOrBeforeNull : TypedExpr :=
  .call .bool "_||_" [.ident .bool "active", .call .bool "!_" [beforeNull]]

/-- The flag alone compiles. The other side is outside of the grammar, and nothing that a
negation and a disjunction put around it helps. -/
theorem compile_succeeds_iff_beforeNull :
    Convertible ⟨[]⟩ Limits.default (.ident .bool "active")
      ∧ Within beforeNull flagOrBeforeNull
      ∧ ¬ Convertible ⟨[]⟩ Limits.default beforeNull
      ∧ ∃ why, compile ⟨[]⟩ Limits.default flagOrBeforeNull = .error why := by
  have hflag : Convertible ⟨[]⟩ Limits.default (.ident .bool "active") :=
    (compile_succeeds_iff _ _ _).1.mp ⟨_, rfl⟩
  -- two steps down: to the right of the disjunction, then below the negation
  have hin : Within beforeNull flagOrBeforeNull :=
    Within.argument .either rfl (.call _ _ _) (List.mem_cons_of_mem _ List.mem_cons_self)
      (Within.argument .negation rfl (.call _ _ _) List.mem_cons_self (Within.root beforeNull))
  have hout : ¬ Convertible ⟨[]⟩ Limits.default beforeNull := by
    intro h
    obtain ⟨p, hp⟩ := (compile_succeeds_iff _ _ _).1.mpr h
    cases hp
  exact ⟨hflag, hin, hout, (compile_succeeds_iff _ _ flagOrBeforeNull).2 beforeNull hin hout⟩

end RowFilter.Condition
