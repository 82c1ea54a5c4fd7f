/-
Why an expression is not converted.

A rejected expression has a code and a public text, which say nothing about fields
or input, and an internal text for the log, which may. Apart from these stand
breaches of contract: a typed tree that no compiler keeping its promises produces.
-/
import RowFilter.Text
import RowFilter.Typing.Diagnostic

set_option autoImplicit false

namespace RowFilter

/-! ## Codes -/

/-- The outward classification of a rejection. -/
inductive ErrorCode where
  | invalidSyntax
  | invalidType
  | tooLong
  | tooComplex
  | unsupportedOperation
  | typeMismatch
  | unauthorizedField
  | listTooLarge
  deriving DecidableEq, Repr, Inhabited

namespace ErrorCode

def name : ErrorCode → String
  | .invalidSyntax => "INVALID_SYNTAX"
  | .invalidType => "INVALID_TYPE"
  | .tooLong => "TOO_LONG"
  | .tooComplex => "TOO_COMPLEX"
  | .unsupportedOperation => "UNSUPPORTED_OPERATION"
  | .typeMismatch => "TYPE_MISMATCH"
  | .unauthorizedField => "UNAUTHORIZED_FIELD"
  | .listTooLarge => "LIST_TOO_LARGE"

/-- A fixed text that may be shown to whoever sent the expression. -/
def publicMessage : ErrorCode → String
  | .invalidSyntax => "invalid filter expression syntax"
  | .invalidType => "filter expression must evaluate to boolean"
  | .tooLong => "filter expression is too long"
  | .tooComplex => "filter expression is too complex"
  | .unsupportedOperation => "unsupported filter operation"
  | .typeMismatch => "invalid comparison type"
  | .unauthorizedField => "access denied: insufficient permissions for requested filter"
  | .listTooLarge => "too many values in filter list"

end ErrorCode

/-! ## Rejections -/

/-- Why an expression is rejected. -/
inductive Rejection where
  | tooLong (limit length : Nat)
  | notCompiled (diagnostics : List Diagnostic)
  | notBoolean (type : ValueType)
  | tooDeep (limit depth : Nat)
  | restrictedField (roles : List String) (field : String)
  | notACondition
  | unsupportedFunction (function : String)
  | notAField
  | notAConstant
  | bytesConstant
  | wrongLiteral (field : String) (declared found : ValueType)
  | nullOrdering (field : String)
  | nullElement (index : Nat) (field : String)
  | notAList
  | listTooLarge (limit size : Nat)
  | testOnType (function field : String) (type : ValueType)
  | testArgument (function : String)
  deriving DecidableEq, Repr

namespace Rejection

def code : Rejection → ErrorCode
  | .tooLong _ _ => .tooLong
  | .notCompiled _ => .invalidSyntax
  | .notBoolean _ => .invalidType
  | .tooDeep _ _ => .tooComplex
  | .restrictedField _ _ => .unauthorizedField
  | .notACondition => .unsupportedOperation
  | .unsupportedFunction _ => .unsupportedOperation
  | .notAField => .unsupportedOperation
  | .notAConstant => .unsupportedOperation
  | .bytesConstant => .unsupportedOperation
  | .wrongLiteral _ _ _ => .typeMismatch
  | .nullOrdering _ => .typeMismatch
  | .nullElement _ _ => .typeMismatch
  | .notAList => .unsupportedOperation
  | .listTooLarge _ _ => .listTooLarge
  | .testOnType _ _ _ => .typeMismatch
  | .testArgument _ => .typeMismatch

/-- The text for the log. -/
def internal : Rejection → String
  | .tooLong limit length =>
    "expression exceeds maximum length of " ++ Nat.repr limit ++ " characters (got "
      ++ Nat.repr length ++ ")"
  | .notCompiled diagnostics =>
    "expression compilation failed: " ++ Diagnostic.listText diagnostics
  | .notBoolean type => "expected bool, got " ++ type.toText
  | .tooDeep limit depth =>
    "expression exceeds maximum depth of " ++ Nat.repr limit ++ " (got " ++ Nat.repr depth ++ ")"
  | .restrictedField roles field =>
    "roles " ++ Text.quotedList roles ++ " attempted to filter by restricted field: " ++ field
  | .notACondition => "field selections and lists cannot be used as a condition"
  | .unsupportedFunction function => "unsupported function: " ++ function
  | .notAField => "operand is not a field identifier"
  | .notAConstant => "operand is not a constant"
  | .bytesConstant => "unsupported constant type: bytes"
  | .wrongLiteral field declared found =>
    "type mismatch for field " ++ field ++ ": expected " ++ declared.toText ++ ", got "
      ++ found.toText
  | .nullOrdering field => "ordering comparison of field " ++ field ++ " against null"
  | .nullElement index field =>
    "null at position " ++ Nat.repr index ++ " in list for field " ++ field
  | .notAList => "right operand of 'in' is not a list literal"
  | .listTooLarge limit size =>
    "IN clause size " ++ Nat.repr size ++ " exceeds maximum of " ++ Nat.repr limit
  | .testOnType function field type =>
    function ++ "() on field " ++ field ++ " of type " ++ type.toText
  | .testArgument function => function ++ "() requires a string argument"

end Rejection

/-! ## Breaches of contract -/

/-- A typed tree that breaks what an expression compiler promises. -/
inductive Breach where
  | arity (function : String) (expected found : Nat)
  | missingReceiver (function : String)
  | nonBooleanLiteral (type : ValueType)
  deriving DecidableEq, Repr

def Breach.message : Breach → String
  | .arity function expected found =>
    "'" ++ function ++ "' expects " ++ Nat.repr expected ++ " argument(s), found "
      ++ Nat.repr found
  | .missingReceiver function => "'" ++ function ++ "' called without a receiver"
  | .nonBooleanLiteral type => "literal of type " ++ type.toText ++ " used as a predicate"

/-- Why a conversion fails. -/
inductive ConvertError where
  | rejected (why : Rejection)
  | contract (breach : Breach)
  deriving DecidableEq, Repr

namespace ConvertError

/-- The code of a rejection; a breach of contract has none. -/
def code? : ConvertError → Option ErrorCode
  | .rejected why => some why.code
  | .contract _ => none

/-- The text that may be shown outside. -/
def publicMessage : ConvertError → String
  | .rejected why => why.code.publicMessage
  | .contract _ => "internal error while converting filter expression"

/-- The text for the log. -/
def internal : ConvertError → String
  | .rejected why => why.internal
  | .contract breach => breach.message

/-- The name of the code in logs. -/
def codeName (e : ConvertError) : String :=
  match e.code? with
  | some code => code.name
  | none => "INTERNAL"

end ConvertError

end RowFilter
