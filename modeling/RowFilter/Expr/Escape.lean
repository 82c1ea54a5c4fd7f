/-
Escapes in quoted literals.

A literal is decoded into bytes. In a string an escape denotes a character and
contributes its UTF-8 form; in a byte literal `\x` denotes a single byte, whatever
it is, and code points have no place.
-/
import RowFilter.Text

set_option autoImplicit false

namespace RowFilter.Escape

/-- What is wrong with the inside of a quoted literal. -/
inductive Fault where
  /-- A backslash before a character that begins no escape. -/
  | unknown (c : Char)
  /-- Fewer characters than the escape takes. -/
  | tooShort (width : Nat)
  | notHex (digits : List Char)
  | notScalar (code : Nat)
  /-- A code point escape in a byte literal. -/
  | notInBytes (c : Char)
  /-- A backslash with nothing behind it. -/
  | dangling
  | unterminated
  | notUtf8
  deriving DecidableEq, Repr

def Fault.message : Fault → String
  | .unknown c => "Invalid escape sequence '\\" ++ String.singleton c ++ "'"
  | .tooShort width => "Escape needs " ++ Nat.repr width ++ " hex digits"
  | .notHex digits => "Invalid hex escape '" ++ String.ofList digits ++ "'"
  | .notScalar code => "Invalid code point 0x" ++ Text.hex code
  | .notInBytes c => "Escape '\\" ++ String.singleton c ++ "' is not allowed in bytes"
  | .dangling => "Dangling escape at end of literal"
  | .unterminated => "Unterminated quoted literal"
  | .notUtf8 => "String literal is not valid UTF-8"

/-- The two kinds of quoted literal. -/
inductive Mode where
  | string
  | bytes
  deriving DecidableEq, Repr

/-- The characters that stand for a single byte behind a backslash. -/
def simple? : Char → Option UInt8
  | '\\' => some 0x5C
  | '\x22' => some 0x22
  | '\x27' => some 0x27
  | '\x60' => some 0x60
  | '?' => some 0x3F
  | 'a' => some 0x07
  | 'b' => some 0x08
  | 'f' => some 0x0C
  | 'n' => some 0x0A
  | 'r' => some 0x0D
  | 't' => some 0x09
  | 'v' => some 0x0B
  | _ => none

/-- How many digits follow an escape that is written in digits. -/
def width? : Char → Option Nat
  | 'x' | 'X' => some 2
  | 'u' => some 4
  | 'U' => some 8
  | _ => none

/-- The number written by the digits of an escape. A plus sign may stand in place
of the first digit. -/
def code? (digits : List Char) : Option Nat :=
  match digits with
  -- what reads the digits of a number accepts a sign in front of them
  | '+' :: more => Text.digitsValue? 16 0 more
  | more => Text.digitsValue? 16 0 more

/-- The bytes of the character with a code point. -/
def scalar (code : Nat) : Except Fault (List UInt8) :=
  if code.isValidChar then .ok (String.utf8EncodeChar (Char.ofNat code))
  else .error (.notScalar code)

/-- The bytes an escape in digits stands for. -/
def coded (mode : Mode) (digits : List Char) : Except Fault (List UInt8) :=
  match code? digits with
  | none => .error (.notHex digits)
  | some code =>
    match mode with
    | .bytes => .ok [UInt8.ofNat code]
    | .string => scalar code

/-- Where decoding stands between two characters. -/
inductive State where
  | plain
  /-- Behind a backslash. -/
  | escaped
  /-- Inside an escape of `width` digits, `taken` of which have been seen. -/
  | digits (width : Nat) (taken : List Char)
  deriving DecidableEq, Repr

/-- Decoding from left to right; the first fault ends it. The digits of an escape
are taken whatever they are and judged once there are enough of them. -/
def decodeFrom (mode : Mode) : State → List Char → Except Fault (List UInt8)
  | .plain, [] => .ok []
  | .escaped, [] => .error .dangling
  | .digits width _, [] => .error (.tooShort width)
  | .plain, c :: rest =>
    if c = '\\' then decodeFrom mode .escaped rest
    else (decodeFrom mode .plain rest).map (String.utf8EncodeChar c ++ ·)
  | .escaped, c :: rest =>
    match simple? c, width? c with
    | some byte, _ => (decodeFrom mode .plain rest).map (byte :: ·)
    | none, none => .error (.unknown c)
    | none, some width =>
      -- two digits are a byte, in bytes anything longer would be a code point
      if mode = .bytes ∧ width ≠ 2 then .error (.notInBytes c)
      else decodeFrom mode (.digits width []) rest
  | .digits width taken, c :: rest =>
    let taken := taken ++ [c]
    if taken.length < width then decodeFrom mode (.digits width taken) rest
    else
      match coded mode taken with
      | .error fault => .error fault
      | .ok bytes => (decodeFrom mode .plain rest).map (bytes ++ ·)

/-- The bytes denoted by the inside of a literal that is not raw. -/
def decode (mode : Mode) (body : List Char) : Except Fault (List UInt8) :=
  decodeFrom mode .plain body

/-! ## Whole literals -/

/-- The bytes of a text as it stands. -/
def plain (body : List Char) : List UInt8 := body.flatMap String.utf8EncodeChar

/-- A literal without its delimiters. -/
def inside (quoted : List Char) : Except Fault (List Char) :=
  if quoted.length < 2 then .error .unterminated else .ok (quoted.drop 1).dropLast

/-- The bytes of a quoted literal, which may be marked as raw. -/
def literal (mode : Mode) (text : List Char) : Except Fault (List UInt8) :=
  match text with
  | 'r' :: quoted | 'R' :: quoted => (inside quoted).map plain
  | quoted =>
    match inside quoted with
    | .error fault => .error fault
    | .ok body => decode mode body

/-- The value of a string token. -/
def string (text : List Char) : Except Fault String :=
  match literal .string text with
  | .error fault => .error fault
  | .ok bytes =>
    match String.fromUTF8? ⟨bytes.toArray⟩ with
    | some value => .ok value
    | none => .error .notUtf8

/-- The value of a byte token, which begins with a letter `b`. -/
def bytes (text : List Char) : Except Fault (List UInt8) := literal .bytes (text.drop 1)

end RowFilter.Escape
