/-
Where the columns of a condition come from.

Five kinds of leaves read a column: a field by itself, a comparison, a check for
`null`, a membership and a test on a string. Each takes it from one node of the tree,
its operand, and the column is the one behind the name of this node. So there are
two steps from a column back to the tree: to the leaf that reads it, and from the
leaf to its operand.
-/
import RowFilter.Proofs.Condition.Derivation
import RowFilter.Proofs.Sql.Columns
import RowFilter.Proofs.Sql.Parts

set_option autoImplicit false

namespace RowFilter.Condition

open Sql (CompareOp Predicate StringTest)
open TypedExpr (Part)

/-! ## Operands of leaves -/

/-- `Operand e operand`: as a leaf, `e` is about what `operand` names. -/
inductive Operand : TypedExpr → TypedExpr → Prop where
  | field (type : ValueType) (name : String) : Operand (.ident type name) (.ident type name)
  | comparison {e left right : TypedExpr} {op : CompareOp}
      (happ : e.Applies (Form.comparison op).function [left, right]) : Operand e left
  | membership {e left right : TypedExpr}
      (happ : e.Applies Form.membership.function [left, right]) : Operand e left
  | test (type : ValueType) (receiver : TypedExpr) (which : StringTest)
      (arguments : List TypedExpr) :
      Operand (.method type receiver (Form.test which).function arguments) receiver

/-- An operand is a part of its leaf. -/
theorem Operand.part {e operand : TypedExpr} (h : Operand e operand) : Part operand e := by
  cases h with
  | field type name => exact Part.root _
  | comparison happ => exact happ.part_of_mem List.mem_cons_self
  | membership happ => exact happ.part_of_mem List.mem_cons_self
  | test => exact Part.inside List.mem_cons_self (Part.root _)

/-- An application that has an operand is no connective. -/
theorem Operand.isConnective_eq_false {e operand : TypedExpr} {form : Form}
    {arguments : List TypedExpr} (h : Operand e operand)
    (happ : e.Applies form.function arguments) : form.isConnective = false := by
  cases h with
  | field type name => cases happ
  | comparison happ' =>
      -- the two forms are one, since a function belongs to one form only
      rw [Form.function_injective (happ.unique happ').1]
      rfl
  | membership happ' =>
      rw [Form.function_injective (happ.unique happ').1]
      rfl
  | test =>
      rw [Form.function_injective (happ.unique (.method _ _ _ _)).1]
      rfl

/-- The operand of an application, by the form of its function. -/
def appliedOperand (function : String) (receiver : Option TypedExpr)
    (arguments : List TypedExpr) : Option TypedExpr :=
  match Form.ofFunction? function with
  | some (.comparison _) | some .membership => arguments.head?
  | some (.test _) => receiver
  | _ => none

/-- The operand that a tree has as a leaf. -/
def operand? : TypedExpr → Option TypedExpr
  | .ident type name => some (.ident type name)
  | .call _ function arguments => appliedOperand function none arguments
  | .method _ receiver function arguments => appliedOperand function (some receiver) arguments
  | _ => none

/-- The relation is a function: what is found by going through the forms is the operand. -/
theorem Operand.operand?_eq {e operand : TypedExpr} (h : Operand e operand) :
    operand? e = some operand := by
  cases h with
  | field type name => rfl
  | comparison happ =>
      cases happ <;> simp only [operand?, appliedOperand, ofFunction?_function, List.head?_cons]
  | membership happ =>
      cases happ <;> simp only [operand?, appliedOperand, ofFunction?_function, List.head?_cons]
  | test => simp only [operand?, appliedOperand, ofFunction?_function]

/-- A leaf has one operand. -/
theorem Operand.unique {e operand operand' : TypedExpr} (h : Operand e operand)
    (h' : Operand e operand') : operand = operand' :=
  Option.some.inj (h.operand?_eq.symm.trans h'.operand?_eq)

/-! ## Leaves inside a condition -/

/-- `Within n e`: if `e` is a condition, then so is `n`, as `e` itself or below
connectives only. -/
inductive Within : TypedExpr → TypedExpr → Prop where
  | root (e : TypedExpr) : Within e e
  | argument {n a e : TypedExpr} (form : Form) {arguments : List TypedExpr}
      (hform : form.isConnective = true) (happ : e.Applies form.function arguments)
      (ha : a ∈ arguments) (hn : Within n a) : Within n e

/-- Conditions inside a tree are parts of it. -/
theorem Within.part {n e : TypedExpr} (h : Within n e) : Part n e := by
  induction h with
  | root => exact Part.root _
  | argument form _ happ ha _ ih => exact ih.trans (happ.part_of_mem ha)

variable {schema : Schema} {limits : Limits}

/-- What a leaf becomes joins nothing. -/
theorem Leaf.children_eq {e : TypedExpr} {p : Predicate} (h : Leaf schema limits e p) :
    p.children = [] := by
  cases h <;> rfl

/-- A condition that joins nothing was derived as a leaf. -/
theorem Derives.leaf_of_children_eq {e : TypedExpr} {p : Predicate}
    (h : Derives schema limits e p) (hp : p.children = []) : Leaf schema limits e p := by
  cases h with
  | leaf h => exact h
  | both | either | negation => cases hp

/-- What a derived connective joins is derived from arguments. -/
theorem Derives.exists_of_child {e : TypedExpr} {p q : Predicate}
    (h : Derives schema limits e p) (hq : q ∈ p.children) :
    ∃ a, (∀ n, Within n a → Within n e) ∧ Derives schema limits a q := by
  cases h with
  | leaf h =>
      rw [h.children_eq] at hq
      cases hq
  | both happ hleft hright | either happ hleft hright =>
      -- the left or the right one of the two
      rcases List.mem_cons.mp hq with rfl | hq
      · exact ⟨_, fun n => Within.argument _ (by rfl) happ (by simp), hleft⟩
      · obtain rfl := List.mem_singleton.mp hq
        exact ⟨_, fun n => Within.argument _ (by rfl) happ (by simp), hright⟩
  | negation happ hinner =>
      obtain rfl := List.mem_singleton.mp hq
      exact ⟨_, fun n => Within.argument .negation rfl happ (by simp), hinner⟩

/-- **Parts are derived.** Every part of a derived condition is derived from a condition
inside the tree. -/
theorem Derives.of_part {e : TypedExpr} {p q : Predicate} (h : Derives schema limits e p)
    (hq : Predicate.Part q p) : ∃ n, Within n e ∧ Derives schema limits n q := by
  -- from the whole inwards, so that the tree a part is derived from is found on the way
  induction hq generalizing e with
  | root => exact ⟨e, Within.root e, h⟩
  | inside hc _ ih =>
      obtain ⟨a, hwithin, ha⟩ := h.exists_of_child hc
      obtain ⟨n, hn, hderives⟩ := ih ha
      exact ⟨n, hwithin n hn, hderives⟩

/-- A connective is not derived as a leaf. -/
theorem Leaf.isConnective_eq_false {e : TypedExpr} {p : Predicate} {form : Form}
    {arguments : List TypedExpr} (h : Leaf schema limits e p)
    (happ : e.Applies form.function arguments) : form.isConnective = false := by
  cases h with
  | constant type value => cases happ
  | field type name => cases happ
  | nullCheck isNull happ' => exact (Operand.comparison happ').isConnective_eq_false happ
  | comparison happ' => exact (Operand.comparison happ').isConnective_eq_false happ
  | never happ' => exact (Operand.membership happ').isConnective_eq_false happ
  | membership happ' => exact (Operand.membership happ').isConnective_eq_false happ
  | test which => exact (Operand.test _ _ which _).isConnective_eq_false happ

/-- An argument of a derived connective is derived as one of what it joins. -/
theorem Derives.exists_of_argument {e a : TypedExpr} {p : Predicate} {form : Form}
    {arguments : List TypedExpr} (h : Derives schema limits e p)
    (hform : form.isConnective = true) (happ : e.Applies form.function arguments)
    (ha : a ∈ arguments) : ∃ q ∈ p.children, Derives schema limits a q := by
  cases h with
  | leaf h =>
      -- a connective is no leaf
      have hleaf := h.isConnective_eq_false happ
      rw [hform] at hleaf
      cases hleaf
  | both happ' hleft hright | either happ' hleft hright =>
      obtain ⟨-, rfl⟩ := happ.unique happ'
      rcases List.mem_cons.mp ha with rfl | ha
      · exact ⟨_, List.mem_cons_self, hleft⟩
      · obtain rfl := List.mem_singleton.mp ha
        exact ⟨_, List.mem_cons_of_mem _ List.mem_cons_self, hright⟩
  | negation happ' hinner =>
      obtain ⟨-, rfl⟩ := happ.unique happ'
      obtain rfl := List.mem_singleton.mp ha
      exact ⟨_, List.mem_cons_self, hinner⟩

/-- **Conditions inside a tree become parts.** Where a tree is derived, each condition
inside it is derived, as a part of what the tree becomes. -/
theorem Derives.of_within {n e : TypedExpr} {p : Predicate} (h : Derives schema limits e p)
    (hn : Within n e) : ∃ q, Predicate.Part q p ∧ Derives schema limits n q := by
  induction hn generalizing p with
  | root => exact ⟨p, Predicate.Part.root p, h⟩
  | argument form hform happ ha _ ih =>
      -- the argument that the condition is in has become one of what the whole joins
      obtain ⟨c, hc, hargument⟩ := h.exists_of_argument hform happ ha
      obtain ⟨q, hq, hderives⟩ := ih hargument
      exact ⟨q, Predicate.Part.inside hc hq, hderives⟩

/-- A leaf mentions no column, or just the one behind the name of its operand. -/
theorem Leaf.mentions_eq {e : TypedExpr} {p : Predicate} (h : Leaf schema limits e p) :
    p.mentions = [] ∨
      ∃ operand field, Operand e operand ∧ operand.fieldRef? = some field
        ∧ p.mentions = [schema.resolveColumn field] := by
  cases h with
  | constant type value => exact Or.inl rfl
  | field type name => exact Or.inr ⟨_, name, Operand.field type name, rfl, rfl⟩
  | nullCheck isNull happ hfield hright =>
      exact Or.inr ⟨_, _, Operand.comparison happ, hfield, rfl⟩
  | comparison happ hfield hright hvalue =>
      exact Or.inr ⟨_, _, Operand.comparison happ, hfield, rfl⟩
  | never happ hfield => exact Or.inl rfl
  | membership happ hfield hne hsize hes hvalues =>
      exact Or.inr ⟨_, _, Operand.membership happ, hfield, rfl⟩
  | test which hfield hstring hargument =>
      exact Or.inr ⟨_, _, Operand.test _ _ _ _, hfield, rfl⟩

/-- A condition that has an operand was derived as a leaf. -/
theorem Operand.leaf {e operand : TypedExpr} {p : Predicate} (h : Operand e operand)
    (hderives : Derives schema limits e p) : Leaf schema limits e p := by
  cases hderives with
  | leaf hleaf => exact hleaf
  | both happ => cases h.isConnective_eq_false happ
  | either happ => cases h.isConnective_eq_false happ
  | negation happ => cases h.isConnective_eq_false happ

/-- The column of a leaf is the one behind the name of its operand. -/
theorem Operand.column_eq {e operand : TypedExpr} {p : Predicate} {c : String}
    (h : Operand e operand) (hderives : Derives schema limits e p) (hc : c ∈ p.mentions) :
    ∃ field, operand.fieldRef? = some field ∧ c = schema.resolveColumn field := by
  rcases (h.leaf hderives).mentions_eq with hnone | ⟨operand', field, hoperand, hfield, hone⟩
  · simp [hnone] at hc
  · -- the operand that the leaf was derived with is the given one
    obtain rfl := h.unique hoperand
    rw [hone, List.mem_singleton] at hc
    exact ⟨field, hfield, hc⟩

/-- A column that a condition mentions is mentioned by one of its leaves. -/
theorem Derives.leaf_of_mem_mentions {e : TypedExpr} {p : Predicate} {c : String}
    (h : Derives schema limits e p) (hc : c ∈ p.mentions) :
    ∃ leaf q, Within leaf e ∧ Leaf schema limits leaf q ∧ c ∈ q.mentions := by
  obtain ⟨q, hpart, hchildren, hcq⟩ := Predicate.exists_part_of_mem_mentions hc
  obtain ⟨leaf, hin, hleaf⟩ := h.of_part hpart
  exact ⟨leaf, q, hin, hleaf.leaf_of_children_eq hchildren, hcq⟩

/-! ## Columns and what they are read for -/

/-- `Reads schema limits e operand column`: a leaf condition of `e` with this operand
becomes a condition on this column. -/
def Reads (schema : Schema) (limits : Limits) (e operand : TypedExpr) (column : String) : Prop :=
  ∃ leaf p, Within leaf e ∧ Operand leaf operand ∧ compile schema limits leaf = .ok p
    ∧ column ∈ p.columns

/-- A column is read for a name. -/
theorem Reads.column_eq {e operand : TypedExpr} {column : String}
    (h : Reads schema limits e operand column) :
    ∃ field, operand.fieldRef? = some field ∧ column = schema.resolveColumn field := by
  obtain ⟨leaf, p, -, hoperand, hp, hcolumn⟩ := h
  exact hoperand.column_eq (derives_of_compile hp) (Predicate.mem_columns.mp hcolumn)

/-- The operand that a column is read for stands in the tree. -/
theorem Reads.part {e operand : TypedExpr} {column : String}
    (h : Reads schema limits e operand column) : Part operand e := by
  obtain ⟨leaf, p, hin, hoperand, -⟩ := h
  exact hoperand.part.trans hin.part

/-- Every column of a condition is read by one of its leaves. -/
theorem Derives.exists_reads {e : TypedExpr} {p : Predicate} {c : String}
    (h : Derives schema limits e p) (hc : c ∈ p.columns) :
    ∃ operand, Reads schema limits e operand c := by
  obtain ⟨leaf, q, hin, hleaf, hcq⟩ := h.leaf_of_mem_mentions (Predicate.mem_columns.mp hc)
  -- a leaf that mentions a column has an operand
  rcases hleaf.mentions_eq with hnone | ⟨operand, field, hoperand, -, -⟩
  · simp [hnone] at hcq
  · exact ⟨operand, leaf, q, hin, hoperand, hleaf.compile_eq, Predicate.mem_columns.mpr hcq⟩

/-- Every column of a condition is the one behind a name that occurs in the tree. -/
theorem Derives.refersTo_of_mem_columns {e : TypedExpr} {p : Predicate} {c : String}
    (h : Derives schema limits e p) (hc : c ∈ p.columns) :
    ∃ field, e.RefersTo field ∧ c = schema.resolveColumn field := by
  obtain ⟨operand, hreads⟩ := h.exists_reads hc
  obtain ⟨field, hfield, hcolumn⟩ := hreads.column_eq
  exact ⟨field, ⟨operand, hreads.part, hfield⟩, hcolumn⟩

end RowFilter.Condition
