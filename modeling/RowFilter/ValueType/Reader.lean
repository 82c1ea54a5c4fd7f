/-
Reading type texts such as `map(string, list(int))`.

A type is read from the front of a text by descent over the two type constructors,
and the text behind it is handed on. Blanks may stand in front of every word and
every mark, and behind the type. A text is refused as a whole, with nothing but the
text itself in the error.
-/
import RowFilter.Text
import RowFilter.ValueType

set_option autoImplicit false

namespace RowFilter.ValueType

/-! ## Words and marks -/

/-- The characters words are made of; dots occur in the long names of the two
types of time. -/
def isWordChar (c : Char) : Bool := c.isAlphanum || c == '_' || c == '.'

/-- A text without the blanks in front. -/
def skipBlanks (text : List Char) : List Char := text.dropWhile Text.isBlank

/-- The word in front of a text, which is empty if there is none, and the rest
behind it. -/
def splitWord (text : List Char) : String × List Char :=
  let front := skipBlanks text
  (String.ofList (front.takeWhile isWordChar), front.dropWhile isWordChar)

/-- The rest behind one expected mark. -/
def expectMark (symbol : Char) (text : List Char) : Option (List Char) :=
  match skipBlanks text with
  | c :: rest => if c = symbol then some rest else none
  | [] => none

/-! ## Types -/

/-- The types that are one word. The types of time answer to two names each. -/
def ofWord? : String → Option ValueType
  | "string" => some .string
  | "int" => some .int
  | "uint" => some .uint
  | "double" => some .double
  | "bool" => some .bool
  | "timestamp" | "google.protobuf.Timestamp" => some .timestamp
  | "duration" | "google.protobuf.Duration" => some .duration
  | "bytes" => some .bytes
  | "null_type" => some .null
  | _ => none

/-- One type from the front of a text, with the text behind it. Every level of
nesting takes up a bracket, so the length of the text bounds the `depth` that is
needed. -/
def readFrom : (depth : Nat) → List Char → Option (ValueType × List Char)
  | 0, _ => none
  | depth + 1, text =>
    let (name, rest) := splitWord text
    match ofWord? name with
    -- what follows a word is left to whoever has asked for the type
    | some type => some (type, rest)
    | none =>
      -- blanks may stand in front of every mark
      match expectMark '(' rest with
      | none => none
      | some rest =>
        if name = "list" then
          match readFrom depth rest with
          | none => none
          | some (elem, rest) => (expectMark ')' rest).map fun rest => (.list elem, rest)
        else if name = "map" then
          match readFrom depth rest with
          | none => none
          | some (key, rest) =>
            match expectMark ',' rest with
            | none => none
            | some rest =>
              match readFrom depth rest with
              | none => none
              | some (value, rest) =>
                (expectMark ')' rest).map fun rest => (.map key value, rest)
        else none

/-- The type written by a text, if there are only blanks behind it. -/
def ofText? (text : String) : Option ValueType :=
  match readFrom text.length text.toList with
  | some (type, rest) => if rest.all Text.isBlank then some type else none
  | none => none

/-- A text that names no type. -/
structure UnknownType where
  text : String
  deriving DecidableEq, Repr

def UnknownType.message (e : UnknownType) : String :=
  "unknown value type '" ++ e.text ++ "'"

/-- The type written by a text, or the refusal that quotes it. -/
def ofText (text : String) : Except UnknownType ValueType :=
  match ofText? text with
  | some type => .ok type
  | none => .error ⟨text⟩

end RowFilter.ValueType
