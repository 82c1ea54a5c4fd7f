/-
Numbers in JSON texts.

A number without point and exponent is an integer as far as 64 bits reach; every
other one is a double. A double is computed from its leading digits, as many as
fit into 64 bits, scaled by one power of ten: one rounded product or quotient, not
the nearest double to the decimal. Numbers beyond the doubles are refused.
-/
import RowFilter.Json.Error

set_option autoImplicit false

namespace RowFilter.Json

/-- A number as it is read. -/
inductive Number where
  | natural (value : UInt64)
  | negative (value : Int64)
  | float (value : Double)
  deriving DecidableEq, Repr

/-- What a number looks like to an error text. -/
def Number.found : Number → Found
  | .natural v => .integer v.toNat
  | .negative v => .integer v.toInt
  | .float d => .float d

/-! ## Scaling -/

/-- The double nearest to a power of ten. -/
def powerOfTen (exponent : Nat) : Double := Double.ofDecimal false 1 exponent

/-- The greatest power of ten among the doubles. -/
def greatestPower : Nat := 308

/-- `f * 10 ^ exponent`, or nothing if that is too large. Large negative exponents
are worked off in steps; after a few of them nothing is left of any significand. -/
def scaled : (steps : Nat) → (f : Double) → (exponent : Int) → Option Double
  | 0, _, _ => some Double.zero
  | steps + 1, f, exponent =>
    if exponent.natAbs ≤ greatestPower then
      if 0 ≤ exponent then
        let product := f.scaleUp (powerOfTen exponent.natAbs)
        if product = Double.infinity then none else some product
      else some (f.scaleDown (powerOfTen exponent.natAbs))
    else if f = Double.zero then some f
    else if 0 ≤ exponent then none
    else scaled steps (f.scaleDown (powerOfTen greatestPower)) (exponent + greatestPower)

/-- The double of a significand and an exponent, with a sign. -/
def ofParts (positive : Bool) (significand : Nat) (exponent : Int) : Except ReadError Number :=
  match scaled 4 (Double.ofNat significand) exponent with
  | none => .error .syntactic
  | some f => .ok (.float (if positive then f else f.negate))

/-! ## Digits -/

def digitValue (c : Char) : Nat := c.toNat - '0'.toNat

/-- Digits put behind a significand as long as it fits into 64 bits: the longer
significand, how many digits were put, and the text behind them. -/
def growing (significand : Nat) : List Char → Nat × Nat × List Char
  | [] => (significand, 0, [])
  | c :: rest =>
    let next := significand * 10 + digitValue c
    if c.isDigit ∧ next < UInt64.size then
      let (s, count, rest) := growing next rest
      (s, count + 1, rest)
    else (significand, 0, c :: rest)

/-- The digits at the front of a text, and the text behind them. -/
def digitRun (text : List Char) : List Char × List Char :=
  (text.takeWhile Char.isDigit, text.dropWhile Char.isDigit)

/-! ## Reading -/

/-- The greatest exponent that is computed with. -/
def greatestExponent : Nat := Nat.pow 2 31 - 1

/-- Whether a text goes on with the letter of an exponent. -/
def startsExponent : List Char → Bool
  | c :: _ => c == 'e' || c == 'E'
  | [] => false

/-- The exponent at the front of a text, its letter left out, added to one that is
known. One that is too large to compute with leaves a zero or is refused. -/
def readExponent (positive : Bool) (significand : Nat) (known : Int) (text : List Char) :
    Except ReadError (Number × List Char) :=
  let (upward, text) := match text with
    | '+' :: rest => (true, rest)
    | '-' :: rest => (false, rest)
    | rest => (true, rest)
  let (digits, rest) := digitRun text
  if digits.isEmpty then .error .syntactic
  else
    let size := digits.foldl (fun n c => n * 10 + digitValue c) 0
    if greatestExponent < size then
      if significand ≠ 0 ∧ upward then .error .syntactic
      else .ok (.float (if positive then Double.zero else Double.zero.negate), rest)
    else
      let exponent := if upward then known + size else known - size
      (ofParts positive significand exponent).map fun n => (n, rest)

/-- The end of a number that has become a double. -/
def readFloatEnd (positive : Bool) (significand : Nat) (exponent : Int) (text : List Char) :
    Except ReadError (Number × List Char) :=
  if startsExponent text then readExponent positive significand exponent (text.drop 1)
  else (ofParts positive significand exponent).map fun n => (n, text)

/-- The digits behind a point, of which there has to be one. Those that do not fit
are dropped. -/
def readFraction (positive : Bool) (significand : Nat) (exponent : Int) (text : List Char) :
    Except ReadError (Number × List Char) :=
  let (s, count, rest) := growing significand text
  let (dropped, rest) := digitRun rest
  if count = 0 ∧ dropped.isEmpty then .error .syntactic
  else readFloatEnd positive s (exponent - count) rest

/-- A number behind its sign. Whole digits that do not fit count as places. A minus
sign before zero, or before more than 64 bits hold, makes a double. -/
def readUnsigned (positive : Bool) (text : List Char) : Except ReadError (Number × List Char) :=
  match text with
  | [] => .error .syntactic
  | first :: rest =>
    if first.isDigit = false then .error .syntactic
    -- no further digits stand behind a zero
    else if first = '0' ∧ (digitRun rest).1.isEmpty = false then .error .syntactic
    else
      let (significand, _, rest) := growing (digitValue first) rest
      let (dropped, rest) := digitRun rest
      match rest with
      | '.' :: fraction => readFraction positive significand dropped.length fraction
      | rest =>
        -- digits that were left out have to be made good by the exponent
        if startsExponent rest || !dropped.isEmpty then
          readFloatEnd positive significand dropped.length rest
        else if positive then .ok (.natural (UInt64.ofNat significand), rest)
        -- minus zero has no integer, nor has what lies below the least one
        else if significand = 0 ∨ Nat.pow 2 63 < significand then
          .ok (.float (Double.ofNat significand).negate, rest)
        else .ok (.negative (Int64.ofInt (-(significand : Int))), rest)

/-- The number at the front of a text. -/
def readNumber : List Char → Except ReadError (Number × List Char)
  | '-' :: rest => readUnsigned false rest
  | text => readUnsigned true text

end RowFilter.Json
