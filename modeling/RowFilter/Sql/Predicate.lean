/-
Parameterized conditions over the columns of a table. Values occur in a condition
only as values: what is written out are places for them, never the values.
-/
import RowFilter.Value

set_option autoImplicit false

namespace RowFilter.Sql

/-- The comparisons of a condition. -/
inductive CompareOp where
  | eq
  | notEq
  | lt
  | ltEq
  | gt
  | gtEq
  deriving DecidableEq, Repr, Inhabited

namespace CompareOp

def symbol : CompareOp → String
  | .eq => "="
  | .notEq => "<>"
  | .lt => "<"
  | .ltEq => "<="
  | .gt => ">"
  | .gtEq => ">="

end CompareOp

inductive Predicate where
  | compare (column : String) (op : CompareOp) (value : Value)
  | nullCheck (column : String) (isNull : Bool)
  | and (left right : Predicate)
  | or (left right : Predicate)
  | not (inner : Predicate)
  | like (column : String) (pattern : String)
  | isIn (column : String) (values : List Value)
  | constant (value : Bool)
  /-- What no row satisfies; an empty list of values becomes this. -/
  | never
  deriving DecidableEq, Repr, Inhabited

namespace Predicate

/-! ## Columns -/

/-- A name put into its place in a strictly ascending list, unless it is there. -/
def insertName (name : String) : List String → List String
  | [] => [name]
  | other :: rest =>
    if name < other then name :: other :: rest
    else if name = other then other :: rest
    else other :: insertName name rest

/-- The columns that a condition mentions, from left to right with repetitions. -/
def mentions : Predicate → List String
  | .compare column _ _ => [column]
  | .nullCheck column _ => [column]
  | .and left right => left.mentions ++ right.mentions
  | .or left right => left.mentions ++ right.mentions
  | .not inner => inner.mentions
  | .like column _ => [column]
  | .isIn column _ => [column]
  | .constant _ => []
  | .never => []

/-- The columns of a condition in strictly ascending order. -/
def columns (p : Predicate) : List String := p.mentions.foldl (fun names c => insertName c names) []

/-! ## Values -/

/-- The values of a condition in the order in which their places are written. -/
def boundValues : Predicate → List Value
  | .compare _ _ value => [value]
  | .nullCheck _ _ => []
  | .and left right => left.boundValues ++ right.boundValues
  | .or left right => left.boundValues ++ right.boundValues
  | .not inner => inner.boundValues
  | .like _ pattern => [.string pattern]
  | .isIn _ values => values
  | .constant _ => []
  | .never => []

end Predicate

end RowFilter.Sql
