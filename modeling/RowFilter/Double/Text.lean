/-
The two written forms of a double: the spelling used in diagnostics and the one
used in JSON. Both write the shortest decimal that reads back; they differ in
where positional writing ends, in the sign of the exponent, in ties and in what
stands for numbers that are not finite.
-/
import RowFilter.Double.Shortest

set_option autoImplicit false

namespace RowFilter.Double

/-- The choices a written form makes. -/
structure Style where
  /-- Of two equally near shortest decimals, which is written. -/
  tie : Tie
  /-- The least place of a leading digit that is still written positionally. -/
  least : Int
  /-- The first place of a leading digit that is no longer written positionally. -/
  limit : Int
  /-- What stands before a positive exponent. -/
  plus : List Char

/-- The spelling in diagnostics: positional from a ten-thousandth to below ten to
the sixteenth, `1e16` beyond, a tie upward. -/
def Style.spelled : Style := ⟨.up, -4, 16, []⟩

/-- The spelling in JSON: positional from a hundred-thousandth to below ten to the
sixteenth, `1e+16` beyond, a tie to the even digit. -/
def Style.json : Style := ⟨.even, -5, 16, ['+']⟩

/-- Digits with a point behind the one at place zero, the leading digit being at
`place`. At least one digit stands on either side of the point. -/
def positional (digits : List Char) : (place : Int) → List Char
  | .ofNat p =>
    let whole := digits.take (p + 1)
    let rest := digits.drop (p + 1)
    whole ++ List.replicate (p + 1 - whole.length) '0'
      ++ '.' :: (if rest.isEmpty then ['0'] else rest)
  | .negSucc p => '0' :: '.' :: (List.replicate p '0' ++ digits)

/-- One digit, the others behind a point if there are any, and the exponent. -/
def scientific (plus : List Char) (digits : List Char) (place : Int) : List Char :=
  let rest := digits.drop 1
  let exponent := if place < 0 then '-' :: Nat.toDigits 10 place.natAbs
    else plus ++ Nat.toDigits 10 place.natAbs
  digits.take 1 ++ (if rest.isEmpty then [] else '.' :: rest) ++ 'e' :: exponent

/-- A finite magnitude in a style. Zero is `0.0`. -/
def Style.write (style : Style) (significand : Nat) (exponent : Int) : List Char :=
  if significand = 0 then ['0', '.', '0']
  else
    let decimal := shortest style.tie significand exponent
    let digits := Nat.toDigits 10 decimal.digits
    let place := decimal.exponent + digits.length - 1
    -- the place of the leading digit decides, not the number of digits
    if style.least ≤ place ∧ place < style.limit then positional digits place
    else scientific style.plus digits place

/-- The sign, which is written for a negative zero too. -/
def sign (d : Double) : List Char := if d.isNegative then ['-'] else []

/-- The spelling in diagnostics. -/
def spelled (d : Double) : String :=
  match d.magnitude with
  | .notANumber => "NaN"
  | .infinite => String.ofList (d.sign ++ ['i', 'n', 'f'])
  | .finite m e => String.ofList (d.sign ++ Style.spelled.write m e)

/-- The spelling in JSON, which has none for numbers that are not finite. -/
def json? (d : Double) : Option String :=
  match d.magnitude with
  | .finite m e => some (String.ofList (d.sign ++ Style.json.write m e))
  | _ => none

end RowFilter.Double
