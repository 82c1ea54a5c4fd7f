/-
Sign and magnitude of a double.

A double is put together from a sign and the bits of its magnitude, and taken apart into the same
two; everything here goes by the number that the bits make (`toNat_ofBits`). Among the magnitudes
are some that are no numbers. Up to infinity there is none of these, and rounding goes no further,
so whatever a decimal is rounded to is a number (`isNaN_ofDecimal`), and remains one behind a minus
sign.
-/
import RowFilter.Double

set_option autoImplicit false

namespace RowFilter.Double

variable {bits : Nat}

/-! ## Both parts -/

/-- A sign adds its weight to the bits of the magnitude. -/
theorem toNat_ofBits (negative : Bool) (h : bits < signWeight) :
    (ofBits negative bits).bits.toNat = bits + if negative = true then signWeight else 0 := by
  have hweight : signWeight = 9223372036854775808 := rfl
  refine UInt64.toNat_ofNat_of_lt' ?_
  show _ < 18446744073709551616
  split <;> omega

/-- The bits of the magnitude are read back, whatever the sign is. -/
theorem magnitudeBits_ofBits (negative : Bool) (h : bits < signWeight) :
    (ofBits negative bits).magnitudeBits = bits := by
  rw [magnitudeBits, toNat_ofBits negative h]
  split
  · rw [Nat.add_mod_right, Nat.mod_eq_of_lt h]
  · rw [Nat.add_zero, Nat.mod_eq_of_lt h]

/-- The sign is read back too, as long as the magnitude leaves its place free. -/
theorem isNegative_ofBits (negative : Bool) (h : bits < signWeight) :
    (ofBits negative bits).isNegative = negative := by
  rw [isNegative, toNat_ofBits negative h]
  cases negative <;> simp [h]

/-- The bits of a magnitude do not reach up to the sign. -/
theorem magnitudeBits_lt (d : Double) : d.magnitudeBits < signWeight := Nat.mod_lt _ (by decide)

/-- A sign and a magnitude make a double. -/
theorem ofBits_self (d : Double) : ofBits d.isNegative d.magnitudeBits = d := by
  have hlt : d.bits.toNat < 18446744073709551616 := d.bits.toNat_lt
  have hweight : signWeight = 9223372036854775808 := rfl
  -- below the sign the bits are a remainder, and the sign is what is left
  have hsum : d.magnitudeBits + (if d.isNegative = true then signWeight else 0)
      = d.bits.toNat := by
    simp only [magnitudeBits, isNegative, decide_eq_true_iff, hweight]
    split <;> omega
  rw [ofBits, hsum, UInt64.ofNat_toNat]

/-! ## Signs -/

/-- The sign in front of a number that has none. -/
theorem negate_ofBits (h : bits < signWeight) : (ofBits false bits).negate = ofBits true bits := by
  rw [negate, isNegative_ofBits false h, magnitudeBits_ofBits false h, Bool.not_false]

/-- Another sign leaves the magnitude as it is. -/
theorem magnitude_negate (d : Double) : d.negate.magnitude = d.magnitude := by
  have hbits : d.negate.magnitudeBits = d.magnitudeBits :=
    magnitudeBits_ofBits (!d.isNegative) d.magnitudeBits_lt
  rw [magnitude, magnitude, hbits]

/-- Whether a double is a number is no question of its sign. -/
theorem isNaN_negate (d : Double) : d.negate.isNaN = d.isNaN := by
  rw [isNaN, isNaN, magnitude_negate]

/-! ## Numbers -/

/-- Up to infinity all bits are those of a number. -/
theorem isNaN_ofBits (negative : Bool) (h : bits ≤ infinityBits) :
    (ofBits negative bits).isNaN = false := by
  have hinfinity : infinityBits = 2047 * exponentWeight := rfl
  have hweight : exponentWeight = 4503599627370496 := rfl
  have hsign : signWeight = 9223372036854775808 := rfl
  -- the greatest field leaves no room for a fraction below infinity
  have hfraction : bits / exponentWeight = 2047 → bits % exponentWeight = 0 := by
    rw [hweight] at hinfinity ⊢
    omega
  rw [isNaN, magnitude, magnitudeBits_ofBits negative (by omega)]
  split
  · next hfield => rw [if_pos (hfraction hfield)]; rfl
  · split <;> rfl

/-- Rounding never goes beyond infinity. -/
theorem roundedBits_le (num den : Nat) : roundedBits num den ≤ infinityBits := by
  have hweight : exponentWeight = 4503599627370496 := rfl
  have hinfinity : infinityBits = 2047 * exponentWeight := rfl
  unfold roundedBits
  dsimp only
  split
  · exact Nat.zero_le _
  · split
    · omega
    · exact Nat.min_le_left _ _

/-- Every decimal is read as a number, if it may be infinite. -/
theorem isNaN_ofDecimal (negative : Bool) (digits : Nat) (exponent : Int) :
    (ofDecimal negative digits exponent).isNaN = false := by
  -- zero, too large, too small, or rounded: in no case does a fraction stand behind the greatest
  -- field
  unfold ofDecimal
  dsimp only
  split
  · exact isNaN_ofBits negative (Nat.zero_le _)
  · split
    · exact isNaN_ofBits negative (Nat.le_refl _)
    · split
      · exact isNaN_ofBits negative (Nat.zero_le _)
      · split <;> exact isNaN_ofBits negative (roundedBits_le _ _)

end RowFilter.Double
