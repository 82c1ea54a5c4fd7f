/-
Why a JSON text cannot be read as what is wanted: it is no JSON, or it is and has
another shape. A text is read from front to back, and the first error ends it.
-/
import RowFilter.Json
import RowFilter.Text

set_option autoImplicit false

namespace RowFilter.Json

/-- What stands where something else was wanted. -/
inductive Found where
  | null
  | boolean (value : Bool)
  | integer (value : Int)
  | float (value : Double)
  | string (value : String)
  | sequence
  | map
  | unitVariant
  deriving DecidableEq, Repr

def Found.text : Found → String
  | .null => "null"
  | .boolean b => "boolean `" ++ (if b then "true" else "false") ++ "`"
  | .integer n => "integer `" ++ Text.decimal n ++ "`"
  | .float d => "floating point `" ++ floatText d ++ "`"
  | .string s => "string " ++ Text.quoted s
  | .sequence => "sequence"
  | .map => "map"
  | .unitVariant => "unit variant"

/-- A JSON text of the wrong shape. -/
inductive ShapeError where
  | invalidType (found : Found) (wanted : String)
  /-- The right kind of thing, out of range. -/
  | invalidValue (found : Found) (wanted : String)
  | invalidLength (length : Nat) (wanted : String)
  | unknownField (name : String) (known : List String)
  | unknownVariant (name : String) (known : List String)
  | missingField (name : String)
  | duplicateField (name : String)
  /-- A string that does not say what it should. -/
  | refused (message : String)
  deriving DecidableEq, Repr

/-- Names in the quotes that error texts put around them. -/
def ticked (names : List String) : String :=
  ", ".intercalate (names.map fun name => "`" ++ name ++ "`")

def ShapeError.message : ShapeError → String
  | .invalidType found wanted => "invalid type: " ++ found.text ++ ", expected " ++ wanted
  | .invalidValue found wanted => "invalid value: " ++ found.text ++ ", expected " ++ wanted
  | .invalidLength length wanted =>
    "invalid length " ++ Nat.repr length ++ ", expected " ++ wanted
  | .unknownField name known =>
    "unknown field `" ++ name ++ "`, expected one of " ++ ticked known
  | .unknownVariant name known =>
    "unknown variant `" ++ name ++ "`, expected one of " ++ ticked known
  | .missingField name => "missing field `" ++ name ++ "`"
  | .duplicateField name => "duplicate field `" ++ name ++ "`"
  | .refused message => message

/-- Why a text is not read. -/
inductive ReadError where
  | syntactic
  | shape (why : ShapeError)
  deriving DecidableEq, Repr

end RowFilter.Json
