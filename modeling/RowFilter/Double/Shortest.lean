/-
The shortest decimal that reads back as a given double.

A positive finite double is the nearest one to every real in a certain interval
around it. For one, two, three ... digits the two neighbours of the double on the
grid of decimals with that many digits are tried; the first grid that has a
neighbour in the interval gives the digits, and of two such neighbours the nearer
is taken. Everything is a comparison of natural numbers.
-/
import RowFilter.Double

set_option autoImplicit false

namespace RowFilter.Double

/-- A positive decimal `digits * 10 ^ exponent`. -/
structure Decimal where
  digits : Nat
  exponent : Int
  deriving DecidableEq, Repr

/-- Which of two equally near decimals is taken. -/
inductive Tie where
  | even
  | up
  deriving DecidableEq, Repr

/-- A fraction `num / den`, compared without being computed. -/
structure Ratio where
  num : Nat
  den : Nat
  deriving Repr

/-- `digits * 10 ^ exponent` as a fraction. -/
def Ratio.ofDecimal (digits : Nat) : (exponent : Int) → Ratio
  | .ofNat k => ⟨digits * Nat.pow 10 k, 1⟩
  | .negSucc k => ⟨digits, Nat.pow 10 (k + 1)⟩

/-- `units * 2 ^ exponent` as a fraction. -/
def Ratio.ofBinary (units : Nat) : (exponent : Int) → Ratio
  | .ofNat k => ⟨units * Nat.pow 2 k, 1⟩
  | .negSucc k => ⟨units, Nat.pow 2 (k + 1)⟩

def Ratio.le (a b : Ratio) : Bool := a.num * b.den ≤ b.num * a.den

def Ratio.lt (a b : Ratio) : Bool := a.num * b.den < b.num * a.den

/-- The reals that round to a double, and the double itself. The ends belong to
the interval exactly when the significand is even, since halves go to even. -/
structure Interval where
  low : Ratio
  middle : Ratio
  high : Ratio
  closed : Bool

/-- The interval of `significand * 2 ^ exponent`: half a unit to either side, but
only a quarter below a power of two, where the doubles underneath are twice as
dense. -/
def Interval.around (significand : Nat) (exponent : Int) : Interval :=
  let below := if significand = exponentWeight ∧ exponent ≠ leastExponent then 1 else 2
  { low := .ofBinary (4 * significand - below) (exponent - 2)
    middle := .ofBinary (4 * significand) (exponent - 2)
    high := .ofBinary (4 * significand + 2) (exponent - 2)
    closed := significand % 2 = 0 }

def Interval.holds (i : Interval) (r : Ratio) : Bool :=
  if i.closed then i.low.le r && r.le i.high else i.low.lt r && r.lt i.high

/-- The place of the leading digit: the greatest `p` with `10 ^ p ≤ r`. The first
guess comes from the length in bits and is at most one off. -/
def Ratio.leadingPlace (r : Ratio) : Int :=
  -- the logarithm of two to base ten, near enough for one place
  let guess : Int := ((r.num.log2 : Int) - r.den.log2) * 30103 / 100000
  if (Ratio.ofDecimal 1 (guess + 1)).le r then guess + 1
  else if (Ratio.ofDecimal 1 guess).le r then guess
  else guess - 1

/-- How many whole steps of `10 ^ exponent` fit into `r`. -/
def Ratio.steps (r : Ratio) : (exponent : Int) → Nat
  | .ofNat k => r.num / (r.den * Nat.pow 10 k)
  | .negSucc k => r.num * Nat.pow 10 (k + 1) / r.den

/-- The neighbour taken on one grid, if one of the two lies in the interval. -/
def Interval.onGrid (i : Interval) (tie : Tie) (exponent : Int) : Option Nat :=
  let below := i.middle.steps exponent
  let lowIn := i.holds (.ofDecimal below exponent)
  let highIn := i.holds (.ofDecimal (below + 1) exponent)
  if lowIn && highIn then
    -- Twice the middle against the sum of the neighbours tells which is nearer.
    let twice : Ratio := ⟨2 * i.middle.num, i.middle.den⟩
    let sum := Ratio.ofDecimal (2 * below + 1) exponent
    if twice.lt sum then some below
    else if sum.lt twice then some (below + 1)
    else match tie with
      | .up => some (below + 1)
      | .even => some (if below % 2 = 0 then below else below + 1)
  else if lowIn then some below
  else if highIn then some (below + 1)
  else none

/-- Trying the grids from `exponent` downward, at most `fuel` of them. -/
def Interval.search (i : Interval) (tie : Tie) : (fuel : Nat) → (exponent : Int) → Decimal
  | 0, exponent => ⟨i.middle.steps exponent, exponent⟩
  | fuel + 1, exponent =>
    match i.onGrid tie exponent with
    | some digits => ⟨digits, exponent⟩
    | none => i.search tie fuel (exponent - 1)

/-- Zeros at the end moved into the exponent, at most `fuel` of them. -/
def Decimal.trimmed : (fuel : Nat) → Decimal → Decimal
  | 0, d => d
  | fuel + 1, d =>
    if d.digits % 10 = 0 then Decimal.trimmed fuel ⟨d.digits / 10, d.exponent + 1⟩ else d

/-- The shortest decimal for the positive double `significand * 2 ^ exponent`.
Seventeen digits always suffice. -/
def shortest (tie : Tie) (significand : Nat) (exponent : Int) : Decimal :=
  -- the grid of the leading digit is the coarsest that can have a neighbour
  let interval := Interval.around significand exponent
  Decimal.trimmed 17 (interval.search tie 17 interval.middle.leadingPlace)

end RowFilter.Double
