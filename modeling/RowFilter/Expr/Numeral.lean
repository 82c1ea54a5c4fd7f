/-
The values of number tokens. A numeral denotes its exact value or is refused; only
doubles are rounded.
-/
import RowFilter.Double
import RowFilter.Text

set_option autoImplicit false

namespace RowFilter.Numeral

/-- The base a numeral is written in, and its digits. -/
def radix : List Char → Nat × List Char
  | '0' :: 'x' :: digits => (16, digits)
  | '0' :: 'X' :: digits => (16, digits)
  -- zeros in front do not make a numeral octal
  | digits => (10, digits)

/-- The value of a numeral without sign and suffix. -/
def value? (text : List Char) : Option Nat :=
  let (base, digits) := radix text
  Text.digitsValue? base 0 digits

/-- A signed numeral; the smallest integer has no positive counterpart, so the
bound depends on the sign. -/
def int? (negative : Bool) (text : List Char) : Option Int64 :=
  match value? text with
  | none => none
  | some v =>
    if negative then (if v ≤ Nat.pow 2 63 then some (Int64.ofInt (-(v : Int))) else none)
    else if v < Nat.pow 2 63 then some (Int64.ofInt v) else none

/-- A text without the letters `u` and `U` at its end. -/
def withoutSuffix (text : List Char) : List Char :=
  (text.reverse.dropWhile fun c => c == 'u' || c == 'U').reverse

/-- An unsigned numeral, with its suffix. -/
def uint? (text : List Char) : Option UInt64 :=
  match value? (withoutSuffix text) with
  | none => none
  | some v => if v < UInt64.size then some (UInt64.ofNat v) else none

/-- The exponent behind its letter, with an optional sign. -/
def exponent? : List Char → Option Int
  | '-' :: digits => (Text.digitsValue? 10 0 digits).map fun n => -(n : Int)
  | '+' :: digits => (Text.digitsValue? 10 0 digits).map fun n => (n : Int)
  | digits => (Text.digitsValue? 10 0 digits).map fun n => (n : Int)

/-- A decimal with a point, an exponent or both: the nearest double. -/
def double? (text : List Char) : Option Double :=
  let whole := text.takeWhile Char.isDigit
  let rest := text.dropWhile Char.isDigit
  let (fraction, rest) := match rest with
    | '.' :: rest => (rest.takeWhile Char.isDigit, rest.dropWhile Char.isDigit)
    | rest => ([], rest)
  -- without a letter there is no exponent, and anything else is no number
  let exponent := match rest with
    | [] => some 0
    | 'e' :: rest | 'E' :: rest => exponent? rest
    | _ => none
  match Text.digitsValue? 10 0 (whole ++ fraction), exponent with
  | some digits, some e => some (Double.ofDecimal false digits (e - fraction.length))
  | _, _ => none

end RowFilter.Numeral
