/-
Where databases differ: how identifiers are quoted and how the places of
parameters are written.
-/

set_option autoImplicit false

namespace RowFilter.Sql

inductive Dialect where
  | postgres
  | mysql
  deriving DecidableEq, Repr, Inhabited

namespace Dialect

def name : Dialect → String
  | .postgres => "PostgreSQL"
  | .mysql => "MySQL"

/-- The character identifiers are quoted with. -/
def quote : Dialect → Char
  | .postgres => '\x22'
  | .mysql => '\x60'

/-- An identifier in quotes. A quote inside it is doubled, so the identifier ends
where a single quote stands and cannot end earlier. -/
def quoteIdentifier (d : Dialect) (identifier : String) : String :=
  let doubled := identifier.toList.flatMap fun c => if c = d.quote then [c, c] else [c]
  String.ofList (d.quote :: (doubled ++ [d.quote]))

/-- The place of the parameter with an index counted from zero: numbered from one,
or unnumbered. -/
def placeholder (d : Dialect) (index : Nat) : String :=
  match d with
  | .postgres => "$" ++ Nat.repr (index + 1)
  | .mysql => "?"

end Dialect

end RowFilter.Sql
