/-
The fields that can be filtered by, and the columns behind them.
-/
import RowFilter.TypedExpr

set_option autoImplicit false

namespace RowFilter

/-- A declared field. -/
structure Field where
  name : String
  type : ValueType
  column : String
  deriving DecidableEq, Repr

/-- A field whose column is its name unless another one is given; an empty one
counts as not given. -/
def Field.declare (name : String) (type : ValueType) (column : Option String) : Field :=
  match column with
  | none => ⟨name, type, name⟩
  | some c => ⟨name, type, if c.isEmpty then name else c⟩

/-- Declared fields, of which a later one hides an earlier one of the same name. -/
structure Schema where
  fields : List Field
  deriving DecidableEq, Repr

namespace Schema

/-- The field a name stands for. -/
def find? (s : Schema) (name : String) : Option Field :=
  s.fields.reverse.find? fun f => f.name = name

/-- The column behind a name: that of the field, or the name itself where no such
field is declared. -/
def resolveColumn (s : Schema) (name : String) : String :=
  match s.find? name with
  | some f => f.column
  | none => name

/-- The declared type of a field. -/
def typeOf? (s : Schema) (name : String) : Option ValueType := (s.find? name).map Field.type

/-- The distinct names of the fields. -/
def names (s : Schema) : List String := TypedExpr.firstOccurrences (s.fields.map Field.name)

def size (s : Schema) : Nat := s.names.length

def isEmpty (s : Schema) : Bool := s.fields.isEmpty

end Schema

end RowFilter
