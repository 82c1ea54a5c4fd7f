/-
Text that is written into messages and read from sources: numbers in decimal and hexadecimal digits,
blank characters, and strings in quotes.
-/
import RowFilter.Text.Printable

set_option autoImplicit false

namespace RowFilter.Text

/-! ## Digits -/

/-- The digits of an integer, behind a minus sign if it is negative. -/
def decimal (n : Int) : String :=
  if n < 0 then "-" ++ Nat.repr n.natAbs else Nat.repr n.natAbs

/-- The hexadecimal digits of `n`, as few as will do, in lower case. -/
def hex (n : Nat) : String :=
  String.ofList (Nat.toDigits 16 n)

/-- The hexadecimal digits of `n`, filled up with zeros to `width` digits. -/
def hexPadded (width n : Nat) : String :=
  let digits := Nat.toDigits 16 n
  String.ofList (List.replicate (width - digits.length) '0' ++ digits)

/-- The value of one hexadecimal digit, of either case. -/
def hexDigit? (c : Char) : Option Nat :=
  if '0' ≤ c ∧ c ≤ '9' then some (c.toNat - '0'.toNat)
  else if 'a' ≤ c ∧ c ≤ 'f' then some (c.toNat - 'a'.toNat + 10)
  else if 'A' ≤ c ∧ c ≤ 'F' then some (c.toNat - 'A'.toNat + 10)
  else none

/-- The value of a digit run in base `radix` (at most sixteen), continuing from
`start`; `none` if a character is no digit of that base. -/
def digitsValue? (radix : Nat) : (start : Nat) → List Char → Option Nat
  | start, [] => some start
  | start, c :: rest =>
    match hexDigit? c with
    -- the letters are digits of base sixteen only
    | some d => if d < radix then digitsValue? radix (start * radix + d) rest else none
    | none => none

/-! ## Blanks -/

/-- The characters with the property `White_Space`: the ASCII controls from tab
to carriage return, the space, NEL, and the separators of the classes Zs, Zl
and Zp. Type texts may be laid out freely, and their reader drops every one of
these, not only the ASCII blanks. -/
def isBlank (c : Char) : Bool :=
  let n := c.toNat
  (0x09 ≤ n && n ≤ 0x0D) || n == 0x20 || n == 0x85 || n == 0xA0 || n == 0x1680
    || (0x2000 ≤ n && n ≤ 0x200A) || n == 0x2028 || n == 0x2029 || n == 0x202F
    || n == 0x205F || n == 0x3000

/-! ## Quotes -/

/-- What stands for one character between the quotes: a short escape for the
quote, the backslash and the common controls, a code point escape for whatever
has no mark of its own, the character itself otherwise. -/
def quotedChar (c : Char) : List Char :=
  match c with
  | '\x22' => ['\\', '\x22']
  | '\\' => ['\\', '\\']
  | '\n' => ['\\', 'n']
  | '\r' => ['\\', 'r']
  | '\t' => ['\\', 't']
  -- the expression language has no such escape
  | '\x00' => ['\\', '0']
  | c =>
    if isPrintable c then [c]
    else '\\' :: 'u' :: '\x7b' :: (Nat.toDigits 16 c.toNat ++ ['\x7d'])

/-- A string in quotes, as it stands in diagnostics. -/
def quoted (s : String) : String :=
  String.ofList ('\x22' :: (s.toList.flatMap quotedChar ++ ['\x22']))

/-- Strings in quotes, set apart by commas, in brackets. -/
def quotedList (ss : List String) : String :=
  "[" ++ ", ".intercalate (ss.map quoted) ++ "]"

end RowFilter.Text
