/-
Writing conditions as SQL. A renderer holds the text so far and the values whose
places it has written; whatever is rendered only adds to both, so conditions can
be rendered into a larger statement and parameters number through.
-/
import RowFilter.Sql.Dialect
import RowFilter.Sql.Predicate

set_option autoImplicit false

namespace RowFilter.Sql

structure Renderer where
  dialect : Dialect
  sql : String
  params : List Value
  deriving DecidableEq, Repr

namespace Renderer

/-- Nothing written yet. -/
def start (d : Dialect) : Renderer := ⟨d, "", []⟩

/-- Text as it stands. -/
def text (r : Renderer) (s : String) : Renderer := { r with sql := r.sql ++ s }

/-- The place of one more value. -/
def param (r : Renderer) (v : Value) : Renderer :=
  -- the index is the number of values before it, whatever they are
  { r with sql := r.sql ++ r.dialect.placeholder r.params.length, params := r.params ++ [v] }

/-- A column in quotes. -/
def column (r : Renderer) (name : String) : Renderer :=
  { r with sql := r.sql ++ r.dialect.quoteIdentifier name }

/-- The places of values, each behind a comma. -/
def moreParams (r : Renderer) : List Value → Renderer
  | [] => r
  | v :: rest => ((r.text ",").param v).moreParams rest

/-- The places of values with commas between them. -/
def paramList (r : Renderer) : List Value → Renderer
  | [] => r
  | v :: rest => (r.param v).moreParams rest

/-- A condition. Connectives stand in parentheses of their own, so what is inside
another condition is never read as part of it. -/
def predicate (r : Renderer) : Predicate → Renderer
  | .compare name op value => (((r.column name).text " ").text op.symbol |>.text " ").param value
  | .nullCheck name true => (r.column name).text " IS NULL"
  | .nullCheck name false => (r.column name).text " IS NOT NULL"
  | .and left right => ((((r.text "(").predicate left).text " AND ").predicate right).text ")"
  | .or left right => ((((r.text "(").predicate left).text " OR ").predicate right).text ")"
  | .not inner => ((r.text "NOT (").predicate inner).text ")"
  | .like name pattern => ((r.column name).text " LIKE ").param (.string pattern)
  -- the list is never empty, as an empty one is a condition that never holds
  | .isIn name values => (((r.column name).text " IN (").paramList values).text ")"
  | .constant true => r.text "TRUE"
  | .constant false => r.text "FALSE"
  | .never => r.text "(1=0)"

end Renderer

/-- A condition by itself: its text and the values of its parameters. -/
def Predicate.toSql (p : Predicate) (d : Dialect) : String × List Value :=
  let r := (Renderer.start d).predicate p
  (r.sql, r.params)

end RowFilter.Sql
