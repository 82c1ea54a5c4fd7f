/-
Double-precision numbers, kept as their 64 bits. The bits decide equality, so two
zeros of different sign are different values here, as they are when written out;
all arithmetic is exact arithmetic on natural numbers followed by one rounding.
-/

set_option autoImplicit false

namespace RowFilter

/-- An IEEE 754 double: sign, eleven bits of exponent, fifty-two of fraction. -/
structure Double where
  bits : UInt64
  deriving DecidableEq, Repr, Inhabited

namespace Double

/-! ## Taking a double apart -/

/-- What a double stands for, its sign left aside. -/
inductive Magnitude where
  | notANumber
  | infinite
  /-- The number `significand * 2 ^ exponent`. -/
  | finite (significand : Nat) (exponent : Int)
  deriving DecidableEq, Repr

/-- The weight of the sign bit. -/
def signWeight : Nat := Nat.pow 2 63

/-- The weight of the lowest exponent bit; below it lies the fraction. -/
def exponentWeight : Nat := Nat.pow 2 52

/-- The magnitude of infinity as bits; every greater one is not a number. -/
def infinityBits : Nat := 2047 * exponentWeight

/-- The exponent of the unit in the last place of the smallest doubles. -/
def leastExponent : Int := -1074

def isNegative (d : Double) : Bool := signWeight ≤ d.bits.toNat

/-- The bits without the sign. -/
def magnitudeBits (d : Double) : Nat := d.bits.toNat % signWeight

/-- The smallest exponent field means no hidden bit, the greatest means infinity
or not a number; every other one has a hidden leading bit. -/
def magnitude (d : Double) : Magnitude :=
  let field := d.magnitudeBits / exponentWeight
  let fraction := d.magnitudeBits % exponentWeight
  if field = 2047 then (if fraction = 0 then .infinite else .notANumber)
  -- the smallest doubles share the exponent of the ones with field one
  else if field = 0 then .finite fraction leastExponent
  else .finite (exponentWeight + fraction) (leastExponent + (field - 1 : Nat))

def isNaN (d : Double) : Bool := d.magnitude = .notANumber

/-- The double with the given sign and magnitude bits. -/
def ofBits (negative : Bool) (magnitudeBits : Nat) : Double :=
  ⟨UInt64.ofNat (magnitudeBits + if negative then signWeight else 0)⟩

/-- The sign flipped; this is how a literal is negated, so `-0.0` is a value of its own. -/
def negate (d : Double) : Double := ofBits (!d.isNegative) d.magnitudeBits

def zero : Double := ofBits false 0

def infinity : Double := ofBits false infinityBits

/-! ## Rounding -/

/-- The integer nearest to `num / den`; a half goes to the even neighbour. -/
def roundHalfEven (num den : Nat) : Nat :=
  let low := num / den
  let rest := num % den
  -- above the half, or at the half with an odd number below it
  if 2 * rest > den ∨ (2 * rest = den ∧ low % 2 = 1) then low + 1 else low

/-- `num / den` measured in units of `2 ^ exponent`, again as a fraction. -/
def inUnits (num den : Nat) : (exponent : Int) → Nat × Nat
  | .ofNat k => (num, den * Nat.pow 2 k)
  | .negSucc k => (num * Nat.pow 2 (k + 1), den)

/-- The exponent of the unit in the last place of the doubles around `num / den`:
the one that leaves fifty-three bits before the point, and never below the least.
The quotient of the leading bits may be one too small, which a look at the scaled
value corrects. -/
def unitExponent (num den : Nat) : Int :=
  let guess := max ((num.log2 : Int) - den.log2 - 53) leastExponent
  let (n, d) := inUnits num den guess
  if 2 * exponentWeight ≤ n / d then guess + 1 else guess

/-- The magnitude bits of the double nearest to `num / den`, half to even, with
infinity beyond the greatest double. A significand that rounds up to the next
power of two carries into the exponent by itself. -/
def roundedBits (num den : Nat) : Nat :=
  if num = 0 then 0
  else
    let exponent := unitExponent num den
    let (n, d) := inUnits num den exponent
    let significand := roundHalfEven n d
    -- without a hidden bit the exponent field is zero
    if significand < exponentWeight then significand
    else
      min infinityBits
        (significand - exponentWeight + (exponent - leastExponent + 1).toNat * exponentWeight)

/-- The double nearest to `num / den`. -/
def ofRatio (negative : Bool) (num den : Nat) : Double :=
  ofBits negative (roundedBits num den)

/-- The double nearest to a natural number. -/
def ofNat (n : Nat) : Double := ofRatio false n 1

/-- The double nearest to an integer. -/
def ofInt (n : Int) : Double := ofRatio (n < 0) n.natAbs 1

/-! ## Products and quotients of non-negative numbers -/

/-- A finite magnitude as a fraction. -/
def Magnitude.ratio? : Magnitude → Option (Nat × Nat)
  | .finite m (.ofNat k) => some (m * Nat.pow 2 k, 1)
  | .finite m (.negSucc k) => some (m, Nat.pow 2 (k + 1))
  | _ => none

/-- The rounded product of two non-negative finite numbers; infinity otherwise. -/
def scaleUp (a b : Double) : Double :=
  match a.magnitude.ratio?, b.magnitude.ratio? with
  | some (an, ad), some (bn, bd) => ofRatio false (an * bn) (ad * bd)
  | _, _ => infinity

/-- The rounded quotient of two non-negative finite numbers; infinity otherwise. -/
def scaleDown (a b : Double) : Double :=
  match a.magnitude.ratio?, b.magnitude.ratio? with
  | some (an, ad), some (bn, bd) => ofRatio false (an * bd) (ad * bn)
  | _, _ => infinity

/-! ## Decimals -/

/-- The double nearest to `digits * 10 ^ exponent`. Decimals with more than 310
places before the point are beyond every double and those whose first digit lies
more than 330 places behind it are nearer to zero than to the smallest one; they
are decided by their length, so that no exponent asks for a huge power of ten. -/
def ofDecimal (negative : Bool) (digits : Nat) (exponent : Int) : Double :=
  let places := exponent + (Nat.toDigits 10 digits).length
  if digits = 0 then ofBits negative 0
  else if places > 310 then ofBits negative infinityBits
  else if places < -330 then ofBits negative 0
  else
    match exponent with
    | .ofNat k => ofRatio negative (digits * Nat.pow 10 k) 1
    | .negSucc k => ofRatio negative digits (Nat.pow 10 (k + 1))

end Double

end RowFilter
