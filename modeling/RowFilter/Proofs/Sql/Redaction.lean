/-
Conditions with the contents of their values taken out.

Redacting keeps the kind of a value and nothing else. A condition that is redacted keeps
its shape, and its shape is all that is written of it; so what is rendered for a condition
is what is rendered for the redacted one. Two conditions that agree once they are redacted
have the same text in every dialect and can differ in nothing but the values that are bound
to it.
-/
import RowFilter.Proofs.Sql.Shape

set_option autoImplicit false

namespace RowFilter

/-! ## Values -/

/-- The value of the same kind that stands for all of them. -/
def Value.redacted : Value → Value
  | .int _ => .int 0
  | .uint _ => .uint 0
  | .float _ => .float ⟨0⟩
  | .string _ => .string ""
  | .boolean _ => .boolean false
  | .bytes _ => .bytes []
  | .null => .null

/-- Redacting keeps the kind of a value. -/
theorem Value.kind_redacted (v : Value) : v.redacted.kind = v.kind := by
  cases v <;> rfl

theorem Value.isNull_redacted (v : Value) : v.redacted.isNull = v.isNull := by
  cases v <;> rfl

/-- What is redacted stays as it is. -/
theorem Value.redacted_redacted (v : Value) : v.redacted.redacted = v.redacted := by
  cases v <;> rfl

namespace Sql

/-! ## Conditions -/

namespace Predicate

/-- A condition without the contents of its values. Patterns are values, too. -/
def redacted : Predicate → Predicate
  | .compare column op value => .compare column op value.redacted
  | .nullCheck column isNull => .nullCheck column isNull
  | .and left right => .and left.redacted right.redacted
  | .or left right => .or left.redacted right.redacted
  | .not inner => .not inner.redacted
  | .like column _ => .like column ""
  | .isIn column values => .isIn column (values.map Value.redacted)
  | .constant value => .constant value
  | .never => .never

/-- Redacting once is enough. -/
theorem redacted_redacted (p : Predicate) : p.redacted.redacted = p.redacted := by
  induction p with
  | compare column op value => rw [redacted, redacted, value.redacted_redacted]
  | and left right ihl ihr | or left right ihl ihr => rw [redacted, redacted, ihl, ihr]
  | not inner ih => rw [redacted, redacted, ih]
  | isIn column values => simp [redacted, Value.redacted_redacted]
  | _ => rfl

/-- Redacting leaves every column where it is. -/
theorem mentions_redacted (p : Predicate) : p.redacted.mentions = p.mentions := by
  induction p with
  | and left right ihl ihr | or left right ihl ihr =>
      rw [redacted, mentions, mentions, ihl, ihr]
  | not inner ih => rw [redacted, mentions, mentions, ih]
  | _ => rfl

/-- The values of a redacted condition are the redacted values. -/
theorem boundValues_redacted (p : Predicate) :
    p.redacted.boundValues = p.boundValues.map Value.redacted := by
  induction p with
  | and left right ihl ihr | or left right ihl ihr =>
      rw [redacted, boundValues, boundValues, ihl, ihr, List.map_append]
  | not inner ih => rw [redacted, boundValues, boundValues, ih]
  | _ => rfl

/-- Redacting leaves the shape of a condition. -/
theorem shape_redacted (p : Predicate) : p.redacted.shape = p.shape := by
  induction p with
  | and left right ihl ihr | or left right ihl ihr => rw [redacted, shape, shape, ihl, ihr]
  | not inner ih => rw [redacted, shape, shape, ih]
  | isIn column values => rw [redacted, shape, shape, List.length_map]
  | _ => rfl

/-- **Values are all that redacting takes.** Conditions that are redacted alike and have
the same values are the same. -/
theorem eq_of_redacted_eq {p q : Predicate} (h : p.redacted = q.redacted)
    (hvalues : p.boundValues = q.boundValues) : p = q := by
  have hshape : p.shape = q.shape := by
    rw [← shape_redacted p, ← shape_redacted q, h]
  exact eq_of_shape_eq hshape hvalues

end Predicate

/-! ## Rendering -/

namespace Renderer

/-- A renderer that has forgotten the contents of its values. -/
def redacted (r : Renderer) : Renderer := { r with params := r.params.map Value.redacted }

/-- **Rendering sees no contents.** Rendering a condition and forgetting the contents is
rendering the redacted condition. -/
theorem predicate_redacted (r : Renderer) (p : Predicate) :
    (r.predicate p).redacted = r.redacted.predicate p.redacted := by
  rw [predicate_eq, predicate_eq, Predicate.shape_redacted, Predicate.boundValues_redacted]
  simp [redacted]

end Renderer

/-- The text of a condition is that of the redacted one. -/
theorem Predicate.sql_redacted (p : Predicate) (d : Dialect) :
    (p.redacted.toSql d).1 = (p.toSql d).1 := by
  have h := congrArg Renderer.sql (Renderer.predicate_redacted (Renderer.start d) p)
  exact h.symm

/-- Conditions that are redacted alike have the same text in every dialect. -/
theorem Predicate.sql_eq_of_redacted_eq {p q : Predicate} (h : p.redacted = q.redacted)
    (d : Dialect) : (p.toSql d).1 = (q.toSql d).1 := by
  rw [← sql_redacted p, ← sql_redacted q, h]

/-- Conditions that are redacted alike have the same columns. -/
theorem Predicate.columns_eq_of_redacted_eq {p q : Predicate} (h : p.redacted = q.redacted) :
    p.columns = q.columns := by
  rw [columns, columns, ← mentions_redacted p, ← mentions_redacted q, h]

end Sql

end RowFilter
