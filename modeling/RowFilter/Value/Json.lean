/-
Values in JSON. As a document of its own a value says which kind it is; as a
parameter in a report it is just the JSON value closest to it.
-/
import RowFilter.Json.Reader
import RowFilter.Value

set_option autoImplicit false

namespace RowFilter.Value

/-! ## Writing -/

def bytesJson (bs : List UInt8) : Json := .array (bs.map fun b => .int b.toNat)

/-- The value under the name of its kind; `null`, which has no contents, is only the
name. -/
def tagged : Value → Json
  | .int v => .object [("Int", .int v.toInt)]
  | .uint v => .object [("Uint", .int v.toNat)]
  | .float v => .object [("Float", .float v)]
  | .string v => .object [("String", .string v)]
  | .boolean v => .object [("Boolean", .bool v)]
  | .bytes v => .object [("Bytes", bytesJson v)]
  | .null => .string "Null"

/-- The value by itself. A number that is not finite is reported as `null`. -/
def plainJson : Value → Json
  | .int v => .int v.toInt
  | .uint v => .int v.toNat
  | .float v =>
    match v.magnitude with
    | .finite _ _ => .float v
    | _ => .null
  | .string v => .string v
  | .boolean v => .bool v
  | .bytes v => bytesJson v
  | .null => .null

/-! ## Reading -/

/-- The names of the kinds. -/
def kindNames : List String := ["Int", "Uint", "Float", "String", "Boolean", "Bytes", "Null"]

/-- A result put into a constructor. -/
def read {α : Type} (reader : Json.Reader α) (make : α → Value) : Json.Reader Value :=
  fun text => (reader text).map fun (a, rest) => (make a, rest)

/-- The contents of a value of a named kind. -/
def contents (kind : String) : Except Json.ShapeError (Json.Reader Value) :=
  match kind with
  | "Int" => .ok (read Json.readInt64 .int)
  | "Uint" => .ok (read (Json.readNatural "u64" (UInt64.size - 1)) fun n => .uint (UInt64.ofNat n))
  | "Float" => .ok (read Json.readDouble .float)
  | "String" => .ok (read Json.readString .string)
  | "Boolean" => .ok (read Json.readBool .boolean)
  | "Bytes" =>
    .ok (read (Json.readSequence (Json.readNatural "u8" 255)) fun ns =>
      .bytes (ns.map UInt8.ofNat))
  | "Null" => .ok (read Json.readNull fun _ => .null)
  | other => .error (.unknownVariant other kindNames)

/-- A name without contents, which only `null` may be. -/
def bare (kind : String) : Except Json.ShapeError Value :=
  match contents kind with
  | .error why => .error why
  | .ok _ =>
    if kind = "Null" then .ok .null
    else .error (.invalidType .unitVariant "newtype variant")

/-- The name of a kind, at the place where it has to stand. It is the name of a
member, so whatever is no string is no JSON. -/
def readKindName : Json.Reader String := fun text =>
  match Json.skipBlanks text with
  | '\x22' :: rest => Json.readStringRest rest
  | _ => .error .syntactic

/-- A value that says which kind it is. -/
def readTagged : Json.Reader Value := fun text =>
  match Json.skipBlanks text with
  | '{' :: rest =>
    match readKindName rest with
    | .error e => .error e
    | .ok (kind, rest) =>
      -- the kind is decided before its value is looked at
      match contents kind with
      | .error why => .error (.shape why)
      | .ok reader =>
        match Json.readColon rest with
        | .error e => .error e
        | .ok rest =>
          match reader rest with
          | .error e => .error e
          | .ok (value, rest) =>
            match Json.skipBlanks rest with
            | '}' :: rest => .ok (value, rest)
            | _ => .error .syntactic
  -- a kind without contents is written as its name alone
  | '\x22' :: rest =>
    match Json.readStringRest rest with
    | .error e => .error e
    | .ok (kind, rest) =>
      match bare kind with
      | .error why => .error (.shape why)
      | .ok value => .ok (value, rest)
  | _ => .error .syntactic

/-- The value a JSON text stands for. -/
def ofJson (text : String) : Except Json.ReadError Value := Json.readAll readTagged text

end RowFilter.Value
