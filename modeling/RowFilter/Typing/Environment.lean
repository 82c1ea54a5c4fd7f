/-
Declarations: the names an expression may use, with their types.
-/
import RowFilter.ValueType

set_option autoImplicit false

namespace RowFilter

/-- Why a declaration is refused. -/
inductive DeclarationError where
  | invalidName (name : String)
  | duplicate (name : String)
  deriving DecidableEq, Repr

def DeclarationError.message : DeclarationError → String
  | .invalidName name => "invalid variable name '" ++ name ++ "'"
  | .duplicate name => "variable '" ++ name ++ "' is declared more than once"

/-! ## Names -/

def isNameStart (c : Char) : Bool := c.isAlpha || c == '_'

def isNameChar (c : Char) : Bool := c.isAlphanum || c == '_'

/-- Whether a text goes on as a name should, at the start of a segment or inside
one. Segments are set apart by single dots and none is empty. -/
def isNameFrom : (atStart : Bool) → List Char → Bool
  | atStart, [] => !atStart
  | true, c :: rest => isNameStart c && isNameFrom false rest
  | false, c :: rest =>
    if c = '.' then isNameFrom true rest else isNameChar c && isNameFrom false rest

/-- A name that can be declared: identifiers joined by dots, such as `user.name`. -/
def isDeclarable (name : String) : Bool := isNameFrom true name.toList

/-! ## Environments -/

/-- Typed declarations in the order in which they were made. -/
structure Environment where
  declarations : List (String × ValueType)
  deriving DecidableEq, Repr, Inhabited

namespace Environment

def empty : Environment := ⟨[]⟩

/-- The type a name is declared with. -/
def lookup? (env : Environment) (name : String) : Option ValueType :=
  env.declarations.lookup name

def size (env : Environment) : Nat := env.declarations.length

def isEmpty (env : Environment) : Bool := env.declarations.isEmpty

/-- One more declaration: what is answered, and the environment that is left. A malformed name is
refused before a repeated one, and both before anything is entered. -/
def declare (env : Environment) (name : String) (type : ValueType) :
    Except DeclarationError Unit × Environment :=
  -- the environment is handed back as it was
  if isDeclarable name = false then (.error (.invalidName name), env)
  else if (env.lookup? name).isSome then (.error (.duplicate name), env)
  else (.ok (), ⟨env.declarations ++ [(name, type)]⟩)

/-- Declarations one after the other; the first that is refused decides. -/
def declareAll (env : Environment) : List (String × ValueType) →
    Except DeclarationError Environment
  | [] => .ok env
  | (name, type) :: rest =>
    match env.declare name type with
    | (.error why, _) => .error why
    | (.ok (), next) => next.declareAll rest

/-- The environment of some declarations. -/
def ofDeclarations (declarations : List (String × ValueType)) :
    Except DeclarationError Environment :=
  empty.declareAll declarations

end Environment

end RowFilter
