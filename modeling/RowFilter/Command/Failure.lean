/-
Why a command fails, and how the failure is shown.
-/
import RowFilter.Conversion.Error
import RowFilter.Typing.Environment

set_option autoImplicit false

namespace RowFilter.Command

inductive Failure where
  /-- The settings cannot be read from their file. -/
  | unreadable
  /-- The settings are not what settings look like. -/
  | badConfig
  | setup (why : DeclarationError)
  | convert (why : ConvertError)
  /-- The result cannot be written to its file. -/
  | unwritable
  deriving DecidableEq, Repr

/-! ## As text -/

/-- The name of a code among failures. -/
def codeWord : ErrorCode → String
  | .invalidSyntax => "InvalidSyntax"
  | .invalidType => "InvalidType"
  | .tooLong => "TooLong"
  | .tooComplex => "TooComplex"
  | .unsupportedOperation => "UnsupportedOperation"
  | .typeMismatch => "TypeMismatch"
  | .unauthorizedField => "UnauthorizedField"
  | .listTooLarge => "ListTooLarge"

/-- The name of a type among failures, its parameters in parentheses. -/
def typeWord : ValueType → String
  | .string => "String"
  | .int => "Int"
  | .uint => "Uint"
  | .double => "Double"
  | .bool => "Bool"
  | .timestamp => "Timestamp"
  | .duration => "Duration"
  | .bytes => "Bytes"
  | .list elem => "List(" ++ typeWord elem ++ ")"
  | .map key value => "Map(" ++ typeWord key ++ ", " ++ typeWord value ++ ")"
  | .null => "Null"

def breachText : Breach → String
  | .arity function expected found =>
    "Arity \x7b function: " ++ Text.quoted function ++ ", expected: " ++ Nat.repr expected
      ++ ", found: " ++ Nat.repr found ++ " \x7d"
  | .missingReceiver function => "MissingReceiver(" ++ Text.quoted function ++ ")"
  | .nonBooleanLiteral type => "NonBooleanLiteral(" ++ typeWord type ++ ")"

def convertErrorText : ConvertError → String
  | .rejected why =>
    "Rejected(ConversionError \x7b code: " ++ codeWord why.code ++ ", internal: "
      ++ Text.quoted why.internal ++ " \x7d)"
  | .contract breach => "Contract(" ++ breachText breach ++ ")"

def declarationErrorText : DeclarationError → String
  | .invalidName name => "InvalidName(" ++ Text.quoted name ++ ")"
  | .duplicate name => "Duplicate(" ++ Text.quoted name ++ ")"

/-- The whole failure, with everything it holds. -/
def Failure.text : Failure → String
  | .unreadable => "Config(Io)"
  | .badConfig => "Config(Parse)"
  | .setup why => "Setup(Environment(" ++ declarationErrorText why ++ "))"
  | .convert why => "Convert(" ++ convertErrorText why ++ ")"
  | .unwritable => "Write"

end RowFilter.Command
