/-
What is left of a condition without its values, and what is written of it.

A renderer holds two things, a text and a list of values, and it looks at the values
only to count them. So a condition comes apart: `Predicate.shape` is what the text is
made from and `Predicate.boundValues` is what the list is made from. `predicate_eq` says
this of a renderer that has written something already, where the places of values number
on from those it has; everything that is proved about texts goes by it and never opens
the renderer again. Together the two parts are the condition, `eq_of_shape_eq`.
-/
import RowFilter.Sql.Renderer

set_option autoImplicit false

namespace RowFilter.Sql

/-! ## Shapes -/

/-- What a leaf asks of its column. -/
inductive ColumnTest where
  | compare (op : CompareOp)
  | nullCheck (isNull : Bool)
  | like
  | isIn (size : Nat)
  deriving DecidableEq, Repr

/-- A condition without its values. -/
inductive Shape where
  | test (column : String) (asked : ColumnTest)
  | and (left right : Shape)
  | or (left right : Shape)
  | not (inner : Shape)
  | constant (value : Bool)
  | never
  deriving DecidableEq, Repr

/-- The number of values that a test is asked with. -/
def ColumnTest.places : ColumnTest → Nat
  | .compare _ => 1
  | .nullCheck _ => 0
  | .like => 1
  | .isIn size => size

/-- The number of values that belong to a shape. -/
def Shape.places : Shape → Nat
  | .test _ asked => asked.places
  | .and left right => left.places + right.places
  | .or left right => left.places + right.places
  | .not inner => inner.places
  | .constant _ => 0
  | .never => 0

namespace Predicate

/-- The shape of a condition. Of a list of values only the length is left. -/
def shape : Predicate → Shape
  | .compare column op _ => .test column (.compare op)
  | .nullCheck column isNull => .test column (.nullCheck isNull)
  | .and left right => .and left.shape right.shape
  | .or left right => .or left.shape right.shape
  | .not inner => .not inner.shape
  | .like column _ => .test column .like
  | .isIn column values => .test column (.isIn values.length)
  | .constant value => .constant value
  | .never => .never

/-- A condition has as many values as its shape has places. -/
theorem length_boundValues_eq (p : Predicate) : p.boundValues.length = p.shape.places := by
  induction p with
  | and left right ihl ihr | or left right ihl ihr =>
      rw [boundValues, shape, Shape.places, List.length_append, ihl, ihr]
  | not inner ih => rw [boundValues, shape, Shape.places, ih]
  | _ => rfl

/-- The values of two sides come apart if the left sides have one shape. -/
theorem boundValues_append_inj {left left' right right' : Predicate}
    (hshape : left.shape = left'.shape)
    (h : left.boundValues ++ right.boundValues = left'.boundValues ++ right'.boundValues) :
    left.boundValues = left'.boundValues ∧ right.boundValues = right'.boundValues := by
  refine List.append_inj h ?_
  rw [length_boundValues_eq, length_boundValues_eq, hshape]

/-- **A condition is its shape with its values.** -/
theorem eq_of_shape_eq {p q : Predicate} (h : p.shape = q.shape)
    (hvalues : p.boundValues = q.boundValues) : p = q := by
  induction p generalizing q with
  | and left right ihl ihr =>
      cases q with
      | and left' right' =>
          -- the left sides have one shape, so it is clear where their values end
          obtain ⟨hl, hr⟩ := Shape.and.inj h
          obtain ⟨hvl, hvr⟩ := boundValues_append_inj hl hvalues
          rw [ihl hl hvl, ihr hr hvr]
      | _ => cases h
  | or left right ihl ihr =>
      cases q with
      | or left' right' =>
          obtain ⟨hl, hr⟩ := Shape.or.inj h
          obtain ⟨hvl, hvr⟩ := boundValues_append_inj hl hvalues
          rw [ihl hl hvl, ihr hr hvr]
      | _ => cases h
  | not inner ih =>
      cases q with
      | not inner' => rw [ih (Shape.not.inj h) hvalues]
      | _ => cases h
  -- a leaf has its column and its test in the shape, and the rest among the values
  | compare column op value => cases q <;> simp_all [shape, boundValues]
  | nullCheck column isNull => cases q <;> simp_all [shape]
  | like column pattern => cases q <;> simp_all [shape, boundValues]
  | isIn column values => cases q <;> simp_all [shape, boundValues]
  | constant value => cases q <;> simp_all [shape]
  | never => cases q <;> simp_all [shape]

end Predicate

/-! ## What is written of a shape -/

namespace Dialect

/-- The places of so many values from an index on, each behind a comma. -/
def morePlaces (d : Dialect) (index : Nat) : Nat → String
  | 0 => ""
  | size + 1 => "," ++ d.placeholder index ++ d.morePlaces (index + 1) size

/-- The places of so many values from an index on, with commas between them. -/
def places (d : Dialect) (index : Nat) : Nat → String
  | 0 => ""
  | size + 1 => d.placeholder index ++ d.morePlaces (index + 1) size

end Dialect

/-- What follows a column that is tested. -/
def ColumnTest.written (d : Dialect) (index : Nat) : ColumnTest → String
  | .compare op => " " ++ op.symbol ++ " " ++ d.placeholder index
  | .nullCheck true => " IS NULL"
  | .nullCheck false => " IS NOT NULL"
  | .like => " LIKE " ++ d.placeholder index
  | .isIn size => " IN (" ++ d.places index size ++ ")"

/-- The text of a shape where so many values have places already. -/
def Shape.written (d : Dialect) (index : Nat) : Shape → String
  | .test column asked => d.quoteIdentifier column ++ asked.written d index
  | .and left right =>
    "(" ++ left.written d index ++ " AND " ++ right.written d (index + left.places) ++ ")"
  | .or left right =>
    "(" ++ left.written d index ++ " OR " ++ right.written d (index + left.places) ++ ")"
  | .not inner => "NOT (" ++ inner.written d index ++ ")"
  | .constant true => "TRUE"
  | .constant false => "FALSE"
  | .never => "(1=0)"

namespace Renderer

/-- More parameters are written with their places and kept behind the others. -/
theorem moreParams_eq (r : Renderer) (values : List Value) :
    r.moreParams values
      = ⟨r.dialect, r.sql ++ r.dialect.morePlaces r.params.length values.length,
          r.params ++ values⟩ := by
  induction values generalizing r with
  | nil => simp [moreParams, Dialect.morePlaces]
  | cons v rest ih =>
      rw [moreParams, ih]
      simp [text, param, Dialect.morePlaces, String.append_assoc]

/-- So is a whole list of them. -/
theorem paramList_eq (r : Renderer) (values : List Value) :
    r.paramList values
      = ⟨r.dialect, r.sql ++ r.dialect.places r.params.length values.length,
          r.params ++ values⟩ := by
  rcases values with _ | ⟨v, rest⟩
  · simp [paramList, Dialect.places]
  · rw [paramList, moreParams_eq]
    simp [param, Dialect.places, String.append_assoc]

/-- **What rendering adds.** To the text it adds what is written of the shape, to the
values those of the condition. -/
theorem predicate_eq (r : Renderer) (p : Predicate) :
    r.predicate p
      = ⟨r.dialect, r.sql ++ p.shape.written r.dialect r.params.length,
          r.params ++ p.boundValues⟩ := by
  induction p generalizing r with
  | compare column op value =>
      simp [predicate, Renderer.column, text, param, Predicate.shape, Predicate.boundValues,
        Shape.written, ColumnTest.written, String.append_assoc]
  | nullCheck column isNull =>
      rcases isNull with _ | _ <;>
        simp [predicate, Renderer.column, text, Predicate.shape, Predicate.boundValues,
          Shape.written, ColumnTest.written, String.append_assoc]
  | and left right ihl ihr | or left right ihl ihr =>
      -- the right side numbers on from the values of the left one
      simp [predicate, ihl, ihr, text, Predicate.shape, Predicate.boundValues, Shape.written,
        Predicate.length_boundValues_eq, String.append_assoc]
  | not inner ih =>
      simp [predicate, ih, text, Predicate.shape, Predicate.boundValues, Shape.written,
        String.append_assoc]
  | like column pattern =>
      simp [predicate, Renderer.column, text, param, Predicate.shape, Predicate.boundValues,
        Shape.written, ColumnTest.written, String.append_assoc]
  | isIn column values =>
      simp [predicate, Renderer.column, text, paramList_eq, Predicate.shape,
        Predicate.boundValues, Shape.written, ColumnTest.written, String.append_assoc]
  | constant value =>
      rcases value with _ | _ <;>
        simp [predicate, text, Predicate.shape, Predicate.boundValues, Shape.written]
  | never => simp [predicate, text, Predicate.shape, Predicate.boundValues, Shape.written]

end Renderer

/-- A condition by itself is written from its shape, with its values beside it. -/
theorem Predicate.toSql_eq (p : Predicate) (d : Dialect) :
    p.toSql d = (p.shape.written d 0, p.boundValues) := by
  rw [toSql, Renderer.predicate_eq]
  simp [Renderer.start]

end RowFilter.Sql
