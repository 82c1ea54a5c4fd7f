/-
The kinds of values that reach a query.

What is bound next to a column should be of the type of its field, and a condition does not
take the word of the typed tree for it: the tree may come from any compiler. Three of the four
kinds of leaves hold what they bind against the schema. A comparison and a membership hold
literals against the declared type, and a test on a string wants the field declared as a
string, if at all, since a pattern is a string. The fourth kind, a field by itself, binds
the truth value `true` and asks for no type. So the kinds agree at each leaf, except
where a field by itself is not declared as a truth value, `compile_binds_kinds`; and there is
no value in a condition that no leaf answers for.
-/
import RowFilter.Proofs.Condition.Columns

set_option autoImplicit false

namespace RowFilter.Condition

open Sql (CompareOp Predicate StringTest)
open Sql.Predicate (Part)

variable {schema : Schema} {limits : Limits} {e operand : TypedExpr} {p : Predicate}
  {field : String} {declared : ValueType}

/-- A field by itself. -/
def IsField (e : TypedExpr) : Prop := ∃ type name, e = .ident type name

/-! ## What one leaf binds -/

/-- A value that can be bound is of the declared type, if that is scalar. -/
theorem Bindable.kind_eq {value : Value} (h : Bindable schema field value)
    (htype : schema.typeOf? field = some declared) (hscalar : declared.isScalar = true) :
    value.kind = declared :=
  h.fits declared htype hscalar

/-- A field by itself binds one truth value. -/
theorem Leaf.boundValues_of_isField (h : Leaf schema limits e p) (hfield : IsField e) :
    p.boundValues = [.boolean true] := by
  obtain ⟨type, name, rfl⟩ := hfield
  cases h with
  | field => rfl
  -- no application is a name
  | nullCheck _ happ | comparison happ | never happ | membership happ => cases happ

/-- Every other leaf binds values of the type that is declared for the field of its
operand. -/
theorem Leaf.kind_eq (h : Leaf schema limits e p) (hoperand : Operand e operand)
    (hname : operand.fieldRef? = some field) (htype : schema.typeOf? field = some declared)
    (hscalar : declared.isScalar = true) (hother : ¬ IsField e) :
    ∀ v ∈ p.boundValues, v.kind = declared := by
  intro v hv
  cases h with
  | constant | nullCheck | never => cases hv
  | field type name => exact absurd ⟨type, name, rfl⟩ hother
  | comparison happ hfield hright hvalue =>
      -- the operand is the left side, so both names are the name of one field
      obtain rfl := hoperand.unique (Operand.comparison happ)
      obtain rfl := Option.some.inj (hname.symm.trans hfield)
      obtain rfl := List.mem_singleton.mp hv
      exact hvalue.kind_eq htype hscalar
  | membership happ hfield hne hsize hes hvalues =>
      obtain rfl := hoperand.unique (Operand.membership happ)
      obtain rfl := Option.some.inj (hname.symm.trans hfield)
      exact (hvalues v hv).kind_eq htype hscalar
  -- a tested field is declared as text, if at all, and so is the pattern
  | test which hfield hstring hargument =>
      obtain rfl := hoperand.unique (Operand.test _ _ which _)
      obtain rfl := Option.some.inj (hname.symm.trans hfield)
      obtain rfl := List.mem_singleton.mp hv
      exact (hstring declared htype).symm

/-- **When kinds agree.** All that a leaf binds is of the declared type exactly if the leaf is
not a field by itself, or this field is a truth value. -/
theorem Leaf.kind_eq_iff (h : Leaf schema limits e p) (hoperand : Operand e operand)
    (hname : operand.fieldRef? = some field) (htype : schema.typeOf? field = some declared)
    (hscalar : declared.isScalar = true) :
    (∀ v ∈ p.boundValues, v.kind = declared) ↔ ¬ IsField e ∨ declared = .bool := by
  by_cases hfield : IsField e
  · rw [h.boundValues_of_isField hfield]
    simp [hfield, Value.kind, eq_comm]
  · have hkinds := h.kind_eq hoperand hname htype hscalar hfield
    exact ⟨fun _ => Or.inl hfield, fun _ => hkinds⟩

/-- A leaf that binds a value has an operand. -/
theorem Leaf.exists_operand {v : Value} (h : Leaf schema limits e p) (hv : v ∈ p.boundValues) :
    ∃ operand, Operand e operand := by
  cases h with
  | constant | nullCheck | never => cases hv
  | field type name => exact ⟨_, Operand.field type name⟩
  | comparison happ => exact ⟨_, Operand.comparison happ⟩
  | membership happ => exact ⟨_, Operand.membership happ⟩
  | test which => exact ⟨_, Operand.test _ _ which _⟩

/-! ## Where values come from -/

/-- A tree that is a literal. -/
theorem eq_of_literal? {value : Value} (h : e.literal? = some value) :
    ∃ type, e = .literal type value := by
  cases e with
  | literal type v => exact ⟨type, by rw [Option.some.inj h]⟩
  | _ => cases h

/-- What a leaf binds is the value of a literal in it, but for texts that are made into patterns and
the truth value of a field by itself. Nothing that is bound is `null`. -/
theorem Leaf.source_of_mem {v : Value} (h : Leaf schema limits e p) (hv : v ∈ p.boundValues) :
    v ≠ .null ∧ (v.kind ∈ [.bool, .string] ∨ ∃ type, TypedExpr.Part (.literal type v) e) := by
  cases h with
  | constant | nullCheck | never => cases hv
  | field type name =>
      obtain rfl := List.mem_singleton.mp hv
      exact ⟨by simp, .inl (by simp [Value.kind])⟩
  | comparison happ hfield hright hvalue =>
      obtain rfl := List.mem_singleton.mp hv
      obtain ⟨type, rfl⟩ := eq_of_literal? hright
      have hright := happ.part_of_mem (List.mem_cons_of_mem _ List.mem_cons_self)
      exact ⟨hvalue.notNull, .inr ⟨type, hright⟩⟩
  -- the values are those of the elements, which are literals in the list
  | membership happ hfield hne hsize hes hvalues =>
      obtain ⟨element, helement, hliteral⟩ := List.mem_map.mp (hes ▸ List.mem_map_of_mem hv)
      obtain ⟨type, rfl⟩ := eq_of_literal? hliteral
      have hlist := happ.part_of_mem (List.mem_cons_of_mem _ List.mem_cons_self)
      exact ⟨(hvalues v hv).notNull,
        .inr ⟨type, (TypedExpr.Part.inside helement (TypedExpr.Part.root _)).trans hlist⟩⟩
  | test which hfield hstring hargument =>
      obtain rfl := List.mem_singleton.mp hv
      exact ⟨by simp, .inl (by simp [Value.kind])⟩

/-- The same for a whole condition: its leaves are inside the tree, and their literals with them. -/
theorem Derives.source_of_mem {v : Value} (h : Derives schema limits e p)
    (hv : v ∈ p.boundValues) :
    v ≠ .null ∧ (v.kind ∈ [.bool, .string] ∨ ∃ type, TypedExpr.Part (.literal type v) e) := by
  obtain ⟨q, hpart, hchildren, hvq⟩ := Predicate.exists_part_of_mem_boundValues hv
  obtain ⟨leaf, hin, hderives⟩ := h.of_part hpart
  obtain ⟨hnull, hsource⟩ := (hderives.leaf_of_children_eq hchildren).source_of_mem hvq
  refine ⟨hnull, hsource.imp_right fun ⟨type, hliteral⟩ => ⟨type, hliteral.trans hin.part⟩⟩

/-! ## What a condition binds -/

/-- What a condition binds is bound by the leaves in its tree. -/
theorem Derives.exists_leaf_of_mem_boundValues {v : Value} (h : Derives schema limits e p)
    (hv : v ∈ p.boundValues) :
    ∃ leaf operand q, Within leaf e ∧ Operand leaf operand
      ∧ compile schema limits leaf = .ok q ∧ v ∈ q.boundValues := by
  -- a part that joins nothing binds the value, and such a part was derived from a leaf
  obtain ⟨q, hpart, hchildren, hvq⟩ := Predicate.exists_part_of_mem_boundValues hv
  obtain ⟨leaf, hin, hderives⟩ := h.of_part hpart
  have hleaf := hderives.leaf_of_children_eq hchildren
  obtain ⟨operand, hoperand⟩ := hleaf.exists_operand hvq
  exact ⟨leaf, operand, q, hin, hoperand, hleaf.compile_eq, hvq⟩

/-- **Values are of the types of their fields.** In a tree that compiles, whatever types it
carries, each leaf on a field with a declared scalar type becomes a part of the condition,
and all values that are bound in this part are of that type exactly if the leaf is not a
field by itself or the field is a truth value. No value is bound but by such a
leaf. -/
theorem compile_binds_kinds (hcompile : compile schema limits e = .ok p) :
    (∀ leaf operand field declared, Within leaf e → Operand leaf operand →
        operand.fieldRef? = some field → schema.typeOf? field = some declared →
        declared.isScalar = true →
        ∃ q, Part q p ∧ compile schema limits leaf = .ok q
          ∧ ((∀ v ∈ q.boundValues, v.kind = declared) ↔ ¬ IsField leaf ∨ declared = .bool))
      ∧ ∀ v ∈ p.boundValues, ∃ leaf operand q, Within leaf e ∧ Operand leaf operand
          ∧ compile schema limits leaf = .ok q ∧ v ∈ q.boundValues := by
  have hderives := derives_of_compile hcompile
  refine ⟨?_, fun v hv => hderives.exists_leaf_of_mem_boundValues hv⟩
  intro leaf operand field declared hin hoperand hname htype hscalar
  obtain ⟨q, hpart, hq⟩ := hderives.of_within hin
  have hleaf := hoperand.leaf hq
  exact ⟨q, hpart, hq.compile_eq, hleaf.kind_eq_iff hoperand hname htype hscalar⟩

/-! ### A number by itself -/

/-- A number and a text. -/
def countSchema : Schema := ⟨[⟨"count", .int, "count"⟩, ⟨"name", .string, "name"⟩]⟩

/-- A tree that passes the number off as a truth value. -/
def countFlag : TypedExpr := .ident .bool "count"

/-- The number compared with a number, and the number by itself. -/
def countTwice : TypedExpr :=
  .call .bool "_||_" [.call .bool "_>_" [.ident .int "count", .ofValue (.int 3)], countFlag]

/-- The comparison binds a number, and the number by itself does not. -/
theorem compile_binds_kinds_count :
    compile countSchema Limits.default countTwice
        = .ok (.or (.compare "count" .gt (.int 3)) (.compare "count" .eq (.boolean true)))
      ∧ (∃ q, compile countSchema Limits.default
            (.call .bool "_>_" [.ident .int "count", .ofValue (.int 3)]) = .ok q
          ∧ ∀ v ∈ q.boundValues, v.kind = .int)
      ∧ ∃ q, compile countSchema Limits.default countFlag = .ok q
          ∧ ¬ ∀ v ∈ q.boundValues, v.kind = .int := by
  have hcompile : compile countSchema Limits.default countTwice
      = .ok (.or (.compare "count" .gt (.int 3)) (.compare "count" .eq (.boolean true))) := rfl
  -- the two sides of the disjunction are its leaves
  obtain ⟨hleaves, -⟩ := compile_binds_kinds hcompile
  refine ⟨hcompile, ?_, ?_⟩
  · obtain ⟨q, -, hq, hkinds⟩ := hleaves _ (.ident .int "count") "count" .int
      (Within.argument .either rfl (.call _ _ _) List.mem_cons_self (Within.root _))
      (@Operand.comparison _ _ _ .gt (.call _ _ _)) rfl rfl rfl
    exact ⟨q, hq, hkinds.mpr (Or.inl fun ⟨_, _, h⟩ => by cases h)⟩
  · obtain ⟨q, -, hq, hkinds⟩ := hleaves countFlag countFlag "count" .int
      (Within.argument .either rfl (.call _ _ _) (List.mem_cons_of_mem _ List.mem_cons_self)
        (Within.root _))
      (Operand.field _ _) rfl rfl rfl
    refine ⟨q, hq, fun hall => ?_⟩
    rcases hkinds.mp hall with hother | hbool
    · exact hother ⟨_, _, rfl⟩
    · cases hbool

/-- A field by itself binds a truth value for a number, although the same comparison, when
it is written out, is refused for its type. -/
theorem field_by_itself_binds_flag :
    countSchema.typeOf? "count" = some .int ∧ ValueType.int.isScalar = true
      ∧ Within countFlag countFlag ∧ Operand countFlag countFlag
      ∧ compile countSchema Limits.default countFlag
          = .ok (.compare "count" .eq (.boolean true))
      ∧ (¬ ∀ v ∈ (Predicate.compare "count" .eq (.boolean true)).boundValues, v.kind = .int)
      ∧ compile countSchema Limits.default
          (.call .bool "_==_" [.ident .bool "count", .ofValue (.boolean true)])
          = .error (.rejected (.wrongLiteral "count" .int .bool)) := by
  refine ⟨rfl, rfl, Within.root _, Operand.field _ _, rfl, ?_, rfl⟩
  intro hall
  exact absurd (hall (.boolean true) List.mem_cons_self) (by decide)

end RowFilter.Condition
