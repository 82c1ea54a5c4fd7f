/-
What the command line shows: the result of a conversion, as plain text or as JSON,
and the listing of fields.
-/
import RowFilter.Conversion.Converter
import RowFilter.Value.Json

set_option autoImplicit false

namespace RowFilter.Command

/-- The result of a conversion in one dialect. -/
structure Report where
  dialect : String
  sql : String
  params : List Json
  columns : List String
  depth : Nat
  deriving Repr

namespace Report

def ofConversion (c : Conversion) (d : Sql.Dialect) : Report :=
  let (sql, params) := c.predicate.toSql d
  ⟨d.name, sql, params.map Value.plainJson, c.predicate.columns, c.depth⟩

def toJson (r : Report) : Json :=
  .object
    [("dialect", .string r.dialect), ("sql", .string r.sql), ("params", .array r.params),
     ("columns", .array (r.columns.map .string)), ("depth", .int r.depth)]

/-- The report as JSON over several lines, without an end of line. -/
def jsonText (r : Report) : String := r.toJson.pretty

end Report

/-! ## Plain text -/

/-- A text filled up with blanks to a width in characters. -/
def padded (width : Nat) (s : String) : String :=
  s ++ String.ofList (List.replicate (width - s.length) ' ')

/-- The parameters from number `n` on, a line each. -/
def paramLines (n : Nat) : List Json → String
  | [] => ""
  | p :: rest =>
    padded 6 ("[" ++ Nat.repr n ++ "]") ++ " " ++ p.compact ++ "\n" ++ paramLines (n + 1) rest

/-- The SQL on a line, and each parameter with its number on one of its own. -/
def Report.plainText (r : Report) : String := r.sql ++ "\n" ++ paramLines 1 r.params

/-- One line of the listing of fields. -/
def fieldLine (name type column : String) : String :=
  padded 24 name ++ " " ++ padded 24 type ++ " " ++ column ++ "\n"

/-- The column shown for a field: the one that is set, or else the name. -/
def shownColumn (f : FieldSetting) : String := f.column.getD f.name

/-- The listing of the fields of some settings. -/
def listing (c : Config) : String :=
  fieldLine "Field" "Type" "Column" ++ String.ofList (List.replicate 64 '-') ++ "\n"
    ++ String.join (c.fields.map fun f => fieldLine f.name f.type.toText (shownColumn f))

end RowFilter.Command
