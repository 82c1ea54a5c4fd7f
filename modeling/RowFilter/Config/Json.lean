/-
Settings in JSON. Settings are objects whose members may come in any order, or
arrays of the same values in the order of declaration. Names that are not known
are refused, and so are names that are given twice.
-/
import RowFilter.Config
import RowFilter.Json.Reader
import RowFilter.ValueType.Reader

set_option autoImplicit false

namespace RowFilter

/-! ## Reading the parts of settings -/

namespace Json

/-- A type, written as a text. -/
def readType : Reader ValueType := fun text =>
  match readString text with
  | .error e => .error e
  | .ok (s, rest) =>
    match ValueType.ofText s with
    | .error e => .error (.shape (.refused e.message))
    | .ok type => .ok (type, rest)

def readNames : Reader (List String) := readSequence readString

/-- One more entry of the fields with roles; the last entry for a field counts. -/
def readAccess (acl : AccessList) (field : String) : Except ShapeError (Reader AccessList) :=
  -- unlike the members of settings an entry may be given twice
  .ok fun text => (readNames text).map fun (roles, rest) => (acl.set field roles, rest)

/-- The fields with their roles. -/
def readAccessList : Reader AccessList := fun text =>
  match skipBlanks text with
  | '{' :: rest => readObjectRest readAccess [] rest
  | text => mismatch "a map" text

/-- An element of a sequence of mixed values, if the sequence goes on: the position
in the sequence decides what is read. -/
def readNext {α : Type} (isFirst : Bool) (reader : Reader α) (text : List Char) :
    Except ReadError (Option α × List Char) :=
  match nextElement isFirst text with
  | .error e => .error e
  | .ok none => .ok (none, text)
  | .ok (some text) => (reader text).map fun (a, rest) => (some a, rest)

/-- The member of a given name, which must not have been there before. -/
def once {σ α : Type} (name : String) (old : Option α) (reader : Reader α) (put : α → σ) :
    Except ShapeError (Reader σ) :=
  match old with
  | some _ => .error (.duplicateField name)
  | none => .ok fun text => (reader text).map fun (a, rest) => (put a, rest)

end Json

open Json

/-! ## Fields -/

namespace FieldSetting

/-- The members of a field that have been read so far. -/
structure Draft where
  name : Option String
  type : Option ValueType
  column : Option (Option String)

def memberNames : List String := ["name", "type", "column"]

def accept (d : Draft) (member : String) : Except ShapeError (Reader Draft) :=
  match member with
  | "name" => once member d.name readString fun a => { d with name := some a }
  | "type" => once member d.type readType fun a => { d with type := some a }
  | "column" => once member d.column (readOptional readString) fun a => { d with column := some a }
  | other => .error (.unknownField other memberNames)

/-- A field needs a name and a type. -/
def Draft.finish (d : Draft) : Except ShapeError FieldSetting :=
  match d.name, d.type with
  | none, _ => .error (.missingField "name")
  | some _, none => .error (.missingField "type")
  | some name, some type => .ok ⟨name, type, d.column.getD none⟩

/-- What an array of the members is wanted to be. -/
def wantedArray : String := "struct FieldConfig with 3 elements"

/-- A field written as an array, behind the opening bracket. The column may be
missing. -/
def readArray : Reader FieldSetting := fun text =>
  match readNext true readString text with
  | .error e => .error e
  -- the position of the first value that is missing
  | .ok (none, _) => .error (.shape (.invalidLength 0 wantedArray))
  | .ok (some name, text) =>
    match readNext false readType text with
    | .error e => .error e
    | .ok (none, _) => .error (.shape (.invalidLength 1 wantedArray))
    | .ok (some type, text) =>
      match readNext false (readOptional readString) text with
      | .error e => .error e
      | .ok (column, text) =>
        (endSequence text).map fun rest => (⟨name, type, column.getD none⟩, rest)

def read : Reader FieldSetting := fun text =>
  match skipBlanks text with
  | '[' :: rest => readArray rest
  | '{' :: rest =>
    match readObjectRest accept ⟨none, none, none⟩ rest with
    | .error e => .error e
    | .ok (draft, rest) =>
      match draft.finish with
      | .error why => .error (.shape why)
      | .ok field => .ok (field, rest)
  | text => mismatch "struct FieldConfig" text

/-- A field as an object; a column that is not given is left out. -/
def toJson (f : FieldSetting) : Json :=
  .object ([("name", .string f.name), ("type", .string f.type.toText)]
    ++ (f.column.map fun c => ("column", Json.string c)).toList)

end FieldSetting

/-! ## Settings -/

namespace Config

/-- The members of settings that have been read so far. -/
structure Draft where
  fields : Option (List FieldSetting)
  maxExpressionLength : Option Nat
  maxExpressionDepth : Option Nat
  maxInClauseSize : Option Nat
  publicFields : Option (List String)
  fieldAcl : Option AccessList

/-- Nothing read yet. -/
def Draft.empty : Draft := ⟨none, none, none, none, none, none⟩

def memberNames : List String :=
  ["fields", "max_expression_length", "max_expression_depth", "max_in_clause_size",
   "public_fields", "field_acl"]

def accept (d : Draft) (member : String) : Except ShapeError (Reader Draft) :=
  match member with
  | "fields" =>
    once member d.fields (readSequence FieldSetting.read) fun a => { d with fields := some a }
  | "max_expression_length" =>
    once member d.maxExpressionLength readSize fun a => { d with maxExpressionLength := some a }
  | "max_expression_depth" =>
    once member d.maxExpressionDepth readSize fun a => { d with maxExpressionDepth := some a }
  | "max_in_clause_size" =>
    once member d.maxInClauseSize readSize fun a => { d with maxInClauseSize := some a }
  | "public_fields" =>
    once member d.publicFields readNames fun a => { d with publicFields := some a }
  | "field_acl" =>
    once member d.fieldAcl readAccessList fun a => { d with fieldAcl := some a }
  | other => .error (.unknownField other memberNames)

/-- Whatever was not given is as in empty settings. -/
def Draft.finish (d : Draft) : Config :=
  { fields := d.fields.getD []
    maxExpressionLength := d.maxExpressionLength.getD 0
    maxExpressionDepth := d.maxExpressionDepth.getD 0
    maxInClauseSize := d.maxInClauseSize.getD 0
    publicFields := d.publicFields.getD []
    fieldAcl := d.fieldAcl.getD [] }

/-- Settings written as an array, behind the opening bracket. It may end early. -/
def readArray : Reader Config := fun text =>
  match readNext true (readSequence FieldSetting.read) text with
  | .error e => .error e
  | .ok (fields, text) =>
  match readNext false readSize text with
  | .error e => .error e
  | .ok (length, text) =>
  match readNext false readSize text with
  | .error e => .error e
  | .ok (depth, text) =>
  match readNext false readSize text with
  | .error e => .error e
  | .ok (inSize, text) =>
  match readNext false readNames text with
  | .error e => .error e
  | .ok (names, text) =>
  match readNext false readAccessList text with
  | .error e => .error e
  | .ok (acl, text) =>
    -- values that have not been there are filled in as for an object
    (endSequence text).map fun rest =>
      (Draft.finish ⟨fields, length, depth, inSize, names, acl⟩, rest)

def read : Reader Config := fun text =>
  match skipBlanks text with
  | '[' :: rest => readArray rest
  | '{' :: rest => (readObjectRest accept .empty rest).map fun (d, rest) => (d.finish, rest)
  | text => mismatch "struct Config" text

/-- The settings a JSON text holds. -/
def ofJson (text : String) : Except ReadError Config := readAll read text

/-- Settings as an object, with the members in the order of declaration. -/
def toJson (c : Config) : Json :=
  .object
    [("fields", .array (c.fields.map FieldSetting.toJson)),
     ("max_expression_length", .int c.maxExpressionLength),
     ("max_expression_depth", .int c.maxExpressionDepth),
     ("max_in_clause_size", .int c.maxInClauseSize),
     ("public_fields", .array (c.publicFields.map Json.string)),
     ("field_acl", .object (c.fieldAcl.map fun (field, roles) =>
       (field, .array (roles.map Json.string))))]

end Config

end RowFilter
