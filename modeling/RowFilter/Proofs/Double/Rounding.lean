/-
Which reals round to a given double.

The program rounds fractions of natural numbers, and all that matters about a fraction is the
rational number it stands for. So rounding is described here on rationals: every positive
number has a unit in the last place (`UnitOf`), and the numbers that round to a double are those of
an interval around it (`RoundsTo`), half a unit to either side, less below a power of two, where
the units are smaller. That the program agrees is `RoundsTo.roundedBits_eq`: any fraction in the
interval is rounded to the bits of the double. Below a power of two the significand carries into
the exponent, which is the one case where the unit of the fraction is not that of the double.
-/
import Mathlib.Algebra.Order.Field.Power
import Mathlib.Data.Nat.Log
import Mathlib.Tactic.Linarith
import Mathlib.Tactic.Positivity
import Mathlib.Tactic.Ring
import Mathlib.Tactic.NormNum
import Mathlib.Tactic.FieldSimp
import RowFilter.Double

set_option autoImplicit false

namespace RowFilter.Double

/-! ## Fractions in units -/

/-- A fraction counted in other units is another fraction of the same value. -/
theorem inUnits_value (num den : Nat) (exponent : Int) :
    ((inUnits num den exponent).1 : ℚ) / (inUnits num den exponent).2
      = num / den / 2 ^ exponent := by
  cases exponent with
  | ofNat k => simp [inUnits, div_div]
  | negSucc k =>
      simp only [inUnits, zpow_negSucc, Nat.pow_eq, Nat.cast_mul, Nat.cast_pow, Nat.cast_ofNat,
        div_inv_eq_mul]
      ring

theorem inUnits_den_pos {den : Nat} (num : Nat) (hden : 0 < den) (exponent : Int) :
    0 < (inUnits num den exponent).2 := by
  cases exponent with
  | ofNat k => exact Nat.mul_pos hden (Nat.pow_pos (by decide))
  | negSucc k => exact hden

/-! ## Rounding to an integer -/

/-- An integer within half a unit is the one that is rounded to; an odd one has to be nearer. -/
theorem roundHalfEven_eq {num den k : Nat} (hden : 0 < den)
    (hlow : 2 * k * den ≤ 2 * num + den) (hhigh : 2 * num ≤ (2 * k + 1) * den)
    (hodd : k % 2 = 1 → 2 * k * den < 2 * num + den ∧ 2 * num < (2 * k + 1) * den) :
    roundHalfEven num den = k := by
  have hsplit : den * (num / den) + num % den = num := Nat.div_add_mod num den
  have hrest : num % den < den := Nat.mod_lt num hden
  -- half a unit around `k` leaves two quotients only
  have hle : num / den ≤ k := by
    rw [← Nat.lt_add_one_iff, Nat.div_lt_iff_lt_mul hden]
    linarith
  have hge : k ≤ num / den + 1 := by
    have hlt : 2 * k * den < (2 * (num / den) + 3) * den := by linarith
    have := Nat.lt_of_mul_lt_mul_right hlt
    omega
  rw [roundHalfEven]
  -- the quotient is rounded down or up, and on a tie to the even one of the two
  obtain hk | hk : k = num / den ∨ k = num / den + 1 := by omega
  · rw [if_neg, ← hk]
    rintro (h | ⟨h, hparity⟩)
    · rw [← hk] at hsplit
      linarith
    · rw [← hk] at hsplit hparity
      have hstrict := (hodd hparity).2
      linarith
  · rw [if_pos, ← hk]
    by_cases h : 2 * (num % den) > den
    · exact Or.inl h
    · -- what is not above a half and not below it is a half
      have heq : 2 * (num % den) = den := by
        rw [hk] at hlow
        linarith
      refine Or.inr ⟨heq, ?_⟩
      by_contra hparity
      have hstrict := (hodd (by omega)).1
      rw [hk] at hstrict
      linarith

/-- The same of the rational number that is rounded. -/
theorem roundHalfEven_of_value {num den k : Nat} (hden : 0 < den) {x : ℚ}
    (hx : (num : ℚ) / den = x) (hlow : 2 * k - 1 ≤ 2 * x) (hhigh : 2 * x ≤ 2 * k + 1)
    (hodd : k % 2 = 1 → 2 * k - 1 < 2 * x ∧ 2 * x < 2 * k + 1) :
    roundHalfEven num den = k := by
  have hpos : (0 : ℚ) < den := by exact_mod_cast hden
  have hnum : (num : ℚ) = x * den := by
    rw [← hx]
    field_simp
  -- the bounds on the value, multiplied by the denominator
  have hlow' : (2 * k * den : ℚ) ≤ 2 * num + den := by
    rw [hnum]
    nlinarith
  have hhigh' : (2 * num : ℚ) ≤ (2 * k + 1) * den := by
    rw [hnum]
    nlinarith
  refine roundHalfEven_eq hden (by exact_mod_cast hlow') (by exact_mod_cast hhigh') fun h => ?_
  obtain ⟨hl, hh⟩ := hodd h
  have hl' : (2 * k * den : ℚ) < 2 * num + den := by
    rw [hnum]
    nlinarith
  have hh' : (2 * num : ℚ) < (2 * k + 1) * den := by
    rw [hnum]
    nlinarith
  exact ⟨by exact_mod_cast hl', by exact_mod_cast hh'⟩

/-! ## Units in the last place -/

/-- The unit in the last place of `x` is `2 ^ exponent`: fifty-three bits reach up to `x`, and
fifty-two do not, unless the exponent is the least. -/
structure UnitOf (x : ℚ) (exponent : Int) : Prop where
  least : leastExponent ≤ exponent
  high : x < 2 ^ 53 * 2 ^ exponent
  low : exponent = leastExponent ∨ 2 ^ 52 * 2 ^ exponent ≤ x

/-- Of two units of a number neither is below the other. -/
theorem UnitOf.le {x : ℚ} {e e' : Int} (h : UnitOf x e) (h' : UnitOf x e') : e ≤ e' := by
  by_contra hlt
  rcases h.low with heq | hlow
  · have := h'.least
    omega
  · have hpow : (2 : ℚ) ^ (e' + 1) ≤ 2 ^ e := zpow_le_zpow_right₀ (by norm_num) (by omega)
    rw [zpow_add_one₀ two_ne_zero] at hpow
    have := h'.high
    linarith

/-- So a number has one unit in the last place. -/
theorem UnitOf.unique {x : ℚ} {e e' : Int} (h : UnitOf x e) (h' : UnitOf x e') : e = e' :=
  le_antisymm (h.le h') (h'.le h)

/-- A number lies between the power of two that its length tells and the next one. -/
theorem log2_bounds {n : Nat} (hn : n ≠ 0) :
    (2 : ℚ) ^ (n.log2 : Int) ≤ n ∧ (n : ℚ) < 2 ^ ((n.log2 : Int) + 1) := by
  have hlow : ((2 ^ n.log2 : Nat) : ℚ) ≤ n := by exact_mod_cast Nat.log2_self_le hn
  have hhigh : (n : ℚ) < ((2 ^ (n.log2 + 1) : Nat) : ℚ) := by exact_mod_cast Nat.lt_log2_self
  rw [Nat.cast_pow] at hlow hhigh
  exact ⟨by exact_mod_cast hlow, by exact_mod_cast hhigh⟩

/-- A fraction lies between the powers of two that the lengths of its parts tell. -/
theorem log2_ratio {num den : Nat} (hnum : num ≠ 0) (hden : den ≠ 0) :
    (2 : ℚ) ^ ((num.log2 : Int) - den.log2 - 1) < num / den
      ∧ (num / den : ℚ) < 2 ^ ((num.log2 : Int) - den.log2 + 1) := by
  obtain ⟨hnumlow, hnumhigh⟩ := log2_bounds hnum
  obtain ⟨hdenlow, hdenhigh⟩ := log2_bounds hden
  have hpos : (0 : ℚ) < den := by exact_mod_cast Nat.pos_of_ne_zero hden
  constructor
  · rw [lt_div_iff₀ hpos]
    calc (2 : ℚ) ^ ((num.log2 : Int) - den.log2 - 1) * den
        < 2 ^ ((num.log2 : Int) - den.log2 - 1) * 2 ^ ((den.log2 : Int) + 1) :=
          mul_lt_mul_of_pos_left hdenhigh (by positivity)
      _ = 2 ^ (num.log2 : Int) := by
          rw [← zpow_add₀ two_ne_zero]
          congr 1
          ring
      _ ≤ num := hnumlow
  · rw [div_lt_iff₀ hpos]
    calc (num : ℚ) < 2 ^ ((num.log2 : Int) + 1) := hnumhigh
      _ = 2 ^ ((num.log2 : Int) - den.log2 + 1) * 2 ^ (den.log2 : Int) := by
          rw [← zpow_add₀ two_ne_zero]
          congr 1
          ring
      _ ≤ 2 ^ ((num.log2 : Int) - den.log2 + 1) * den :=
          mul_le_mul_of_nonneg_left hdenlow (by positivity)

/-- The program finds the unit: its first guess is at most one too small, which it notices. -/
theorem unitOf_unitExponent {num den : Nat} (hnum : num ≠ 0) (hden : 0 < den) :
    UnitOf (num / den) (unitExponent num den) := by
  obtain ⟨hlow, hhigh⟩ := log2_ratio hnum hden.ne'
  generalize hguess : max ((num.log2 : Int) - den.log2 - 53) leastExponent = guess
  have hunits := inUnits_value num den guess
  have hpos := inUnits_den_pos num hden guess
  have hpow : (0 : ℚ) < 2 ^ guess := by positivity
  -- the test of the program, said of the number that is rounded
  have hlook : 2 * exponentWeight ≤ (inUnits num den guess).1 / (inUnits num den guess).2
      ↔ 2 ^ 53 * 2 ^ guess ≤ (num / den : ℚ) := by
    rw [Nat.le_div_iff_mul_le hpos, ← le_div_iff₀ hpow, ← hunits,
      le_div_iff₀ (by exact_mod_cast hpos)]
    norm_cast
  -- unless it is the least, the guess was made low enough for fifty-two bits
  have hbelow : guess = leastExponent ∨ 2 ^ 52 * 2 ^ guess ≤ (num / den : ℚ) := by
    by_cases h : guess = leastExponent
    · exact Or.inl h
    · obtain rfl : (num.log2 : Int) - den.log2 - 53 = guess := by omega
      refine Or.inr (le_trans (le_of_eq ?_) hlow.le)
      rw [show (2 : ℚ) ^ 52 = 2 ^ (52 : Int) by norm_cast, ← zpow_add₀ two_ne_zero]
      congr 1
      ring
  -- and it is one too small at most
  have habove : (num / den : ℚ) < 2 ^ 54 * 2 ^ guess := by
    refine lt_of_lt_of_le hhigh ?_
    rw [show (2 : ℚ) ^ 54 = 2 ^ (54 : Int) by norm_cast, ← zpow_add₀ two_ne_zero]
    exact zpow_le_zpow_right₀ (by norm_num) (by omega)
  have hleast : leastExponent ≤ guess := by omega
  rw [unitExponent]
  simp only [hguess]
  by_cases h : 2 * exponentWeight ≤ (inUnits num den guess).1 / (inUnits num den guess).2
  · rw [if_pos h]
    rw [hlook] at h
    refine ⟨by omega, ?_, Or.inr ?_⟩ <;> rw [zpow_add_one₀ two_ne_zero] <;> linarith
  · rw [if_neg h]
    rw [hlook, not_le] at h
    exact ⟨hleast, h, hbelow⟩

/-! ## Bits of finite doubles -/

/-- The magnitude bits of the finite number `significand * 2 ^ exponent`. -/
structure Encodes (significand : Nat) (exponent : Int) (bits : Nat) : Prop where
  lt : significand < 2 * exponentWeight
  least : leastExponent ≤ exponent
  low : exponent = leastExponent ∨ exponentWeight ≤ significand
  bits_eq : bits = if significand < exponentWeight then significand
    else significand - exponentWeight + (exponent - leastExponent + 1).toNat * exponentWeight
  bits_lt : bits < infinityBits

/-- The bits of a finite double encode its significand and its exponent. -/
theorem encodes_of_magnitude {d : Double} {significand : Nat} {exponent : Int}
    (h : d.magnitude = .finite significand exponent) :
    Encodes significand exponent d.magnitudeBits := by
  have hweight : exponentWeight = 4503599627370496 := rfl
  have hinfinity : infinityBits = 2047 * exponentWeight := rfl
  have hleast : leastExponent = -1074 := rfl
  have hbits : d.magnitudeBits < 2048 * exponentWeight := Nat.mod_lt _ (by decide)
  have hsplit := Nat.div_add_mod d.magnitudeBits exponentWeight
  have hfraction : d.magnitudeBits % exponentWeight < exponentWeight := Nat.mod_lt _ (by decide)
  have hfield : d.magnitudeBits / exponentWeight < 2048 :=
    (Nat.div_lt_iff_lt_mul (by decide)).mpr hbits
  unfold magnitude at h
  simp only at h
  generalize d.magnitudeBits / exponentWeight = field at h hsplit hfield
  generalize d.magnitudeBits % exponentWeight = fraction at h hsplit hfraction
  -- the products are kept linear for what follows
  rw [hweight] at hsplit hinfinity
  by_cases hspecial : field = 2047
  · rw [if_pos hspecial] at h
    split at h <;> cases h
  · rw [if_neg hspecial] at h
    -- the least field is that of the subnormal numbers, without the leading bit
    by_cases hzero : field = 0
    · rw [if_pos hzero] at h
      obtain ⟨rfl, rfl⟩ := Magnitude.finite.inj h
      refine ⟨by omega, by omega, Or.inl rfl, ?_, by omega⟩
      rw [if_pos hfraction]
      omega
    · rw [if_neg hzero] at h
      obtain ⟨rfl, rfl⟩ := Magnitude.finite.inj h
      refine ⟨by omega, by omega, Or.inr (by omega), ?_, by omega⟩
      have hback : (leastExponent + ((field - 1 : Nat) : Int) - leastExponent + 1).toNat
          = field := by omega
      rw [if_neg (by omega), hback, hweight]
      omega

section Encodes

variable {significand bits : Nat} {exponent : Int}

/-- The exponent of a finite double is bounded by its bits being below infinity. -/
theorem Encodes.exponent_le (h : Encodes significand exponent bits) : exponent ≤ 971 := by
  have hweight : exponentWeight = 4503599627370496 := rfl
  have hleast : leastExponent = -1074 := rfl
  have hinfinity : infinityBits = 2047 * 4503599627370496 := rfl
  have hbits := h.bits_eq
  have hlt := h.bits_lt
  have hlow := h.low
  by_cases hsmall : significand < exponentWeight
  · omega
  · rw [if_neg hsmall, hweight] at hbits
    omega

/-- A positive finite double, and the unit above it, are within the range of doubles. -/
theorem Encodes.value_bounds (h : Encodes significand exponent bits) (hpos : 0 < significand) :
    (2 : ℚ) ^ (-1074 : Int) ≤ significand * 2 ^ exponent
      ∧ (significand + 1) * (2 : ℚ) ^ exponent ≤ 2 ^ (1024 : Int) := by
  have hone : (1 : ℚ) ≤ significand := by exact_mod_cast hpos
  have hlt : (significand + 1 : ℚ) ≤ 2 ^ (53 : Int) := by exact_mod_cast h.lt
  constructor
  · have hleast : (2 : ℚ) ^ (-1074 : Int) ≤ 2 ^ exponent :=
      zpow_le_zpow_right₀ (by norm_num) h.least
    have hunit : (0 : ℚ) < 2 ^ exponent := by positivity
    -- one unit at least, and no unit is smaller than the least
    nlinarith
  · have hexponent := h.exponent_le
    calc (significand + 1) * (2 : ℚ) ^ exponent ≤ 2 ^ (53 : Int) * 2 ^ exponent :=
          mul_le_mul_of_nonneg_right hlt (by positivity)
      _ = 2 ^ (53 + exponent) := by rw [zpow_add₀ two_ne_zero]
      _ ≤ 2 ^ (1024 : Int) := zpow_le_zpow_right₀ (by norm_num) (by omega)

end Encodes

/-! ## The interval of a double -/

/-- How far the interval of a double reaches down, in quarters of the unit in its last place. -/
def quartersBelow (significand : Nat) (exponent : Int) : Nat :=
  if significand = exponentWeight ∧ exponent ≠ leastExponent then 1 else 2

/-- The interval of a double reaches down by half a unit at most. -/
theorem quartersBelow_le (significand : Nat) (exponent : Int) :
    quartersBelow significand exponent ≤ 2 := by
  unfold quartersBelow
  split <;> omega

theorem cast_quartersBelow_le (significand : Nat) (exponent : Int) :
    (quartersBelow significand exponent : ℚ) ≤ 2 := by
  exact_mod_cast quartersBelow_le significand exponent

/-- The number rounds to `significand * 2 ^ exponent`. The ends of the interval do so only if the
significand is even. -/
structure RoundsTo (significand : Nat) (exponent : Int) (x : ℚ) : Prop where
  low : (4 * significand - quartersBelow significand exponent) * 2 ^ (exponent - 2) ≤ x
  high : x ≤ (4 * significand + 2) * 2 ^ (exponent - 2)
  strict : significand % 2 = 1 →
    (4 * significand - quartersBelow significand exponent) * 2 ^ (exponent - 2) < x
      ∧ x < (4 * significand + 2) * 2 ^ (exponent - 2)

/-- A quarter of the unit, as a power of two. -/
theorem zpow_sub_two (e : Int) : (2 : ℚ) ^ (e - 2) = 2 ^ e / 4 := by
  rw [zpow_sub₀ two_ne_zero]
  norm_num

section RoundsTo

variable {significand bits num den : Nat} {exponent : Int} {x : ℚ}

/-- What is strictly inside the interval rounds to the double, even or odd. -/
theorem RoundsTo.of_between
    (hlow : significand * 2 ^ exponent - quartersBelow significand exponent * 2 ^ exponent / 4 < x)
    (hhigh : x < significand * 2 ^ exponent + 2 ^ exponent / 2) :
    RoundsTo significand exponent x := by
  have hlow' : (4 * significand - quartersBelow significand exponent) * 2 ^ (exponent - 2) < x := by
    rw [zpow_sub_two]
    linarith
  have hhigh' : x < (4 * significand + 2) * 2 ^ (exponent - 2) := by
    rw [zpow_sub_two]
    linarith
  exact ⟨hlow'.le, hhigh'.le, fun _ => ⟨hlow', hhigh'⟩⟩

/-- What rounds to a positive double is half its unit at least. -/
theorem RoundsTo.half_unit_le (h : RoundsTo significand exponent x) (hpos : 0 < significand) :
    2 ^ exponent / 2 ≤ x := by
  have hone : (1 : ℚ) ≤ significand := by exact_mod_cast hpos
  have hunit : (0 : ℚ) < 2 ^ exponent := by positivity
  have hquarters := cast_quartersBelow_le significand exponent
  have hlow := h.low
  rw [zpow_sub_two] at hlow
  nlinarith

theorem RoundsTo.pos (h : RoundsTo significand exponent x) (hpos : 0 < significand) : 0 < x :=
  lt_of_lt_of_le (by positivity) (h.half_unit_le hpos)

/-- What rounds to a positive double is within the range of doubles, too. -/
theorem RoundsTo.bounds (h : RoundsTo significand exponent x)
    (hencodes : Encodes significand exponent bits) (hpos : 0 < significand) :
    (2 : ℚ) ^ (-1075 : Int) ≤ x ∧ x < 2 ^ (1024 : Int) := by
  have hunit : (0 : ℚ) < 2 ^ exponent := by positivity
  constructor
  · have hleast : (2 : ℚ) ^ (-1074 : Int) ≤ 2 ^ exponent :=
      zpow_le_zpow_right₀ (by norm_num) hencodes.least
    calc (2 : ℚ) ^ (-1075 : Int) = 2 ^ (-1074 : Int) / 2 := by
          rw [show (-1075 : Int) = -1074 - 1 by norm_num, zpow_sub_one₀ two_ne_zero]
          ring
      _ ≤ 2 ^ exponent / 2 := by linarith
      _ ≤ x := h.half_unit_le hpos
  · have hhigh := h.high
    rw [zpow_sub_two] at hhigh
    calc x ≤ (4 * significand + 2) * (2 ^ exponent / 4) := hhigh
      _ < (significand + 1) * 2 ^ exponent := by linarith
      _ ≤ 2 ^ (1024 : Int) := (hencodes.value_bounds hpos).2

/-! ## Rounding to bits -/

/-- Rounding, once the unit and the significand are known. -/
theorem roundedBits_of_unit {k : Nat} (hnum : num ≠ 0) (hden : 0 < den)
    (hunit : UnitOf (num / den) exponent)
    (hk : roundHalfEven (inUnits num den exponent).1 (inUnits num den exponent).2 = k) :
    roundedBits num den = if k < exponentWeight then k else
      min infinityBits
        (k - exponentWeight + (exponent - leastExponent + 1).toNat * exponentWeight) := by
  rw [roundedBits, if_neg hnum]
  simp only [(unitOf_unitExponent hnum hden).unique hunit, hk]

/-- Where the number has the unit of the double, it is rounded to its significand. -/
theorem RoundsTo.roundedBits_of_unit (hencodes : Encodes significand exponent bits)
    (hnum : num ≠ 0) (hden : 0 < den) (h : RoundsTo significand exponent (num / den))
    (hunit : UnitOf (num / den) exponent) : roundedBits num den = bits := by
  obtain ⟨hlow, hhigh, hstrict⟩ := h
  rw [zpow_sub_two] at hlow hhigh hstrict
  have hvalue := inUnits_value num den exponent
  have hquarters := cast_quartersBelow_le significand exponent
  have hunitpos : (0 : ℚ) < 2 ^ exponent := by positivity
  have hround : roundHalfEven (inUnits num den exponent).1 (inUnits num den exponent).2
      = significand := by
    -- divided by the unit, the interval of the double is half a unit around its significand
    refine roundHalfEven_of_value (inUnits_den_pos num hden exponent) hvalue ?_ ?_ ?_
    · rw [mul_div_assoc', le_div_iff₀ hunitpos]
      nlinarith
    · rw [mul_div_assoc', div_le_iff₀ hunitpos]
      nlinarith
    · intro hodd
      obtain ⟨hl, hh⟩ := hstrict hodd
      rw [mul_div_assoc', lt_div_iff₀ hunitpos, div_lt_iff₀ hunitpos]
      constructor <;> nlinarith
  rw [Double.roundedBits_of_unit hnum hden hunit hround, hencodes.bits_eq]
  by_cases hsmall : significand < exponentWeight
  · rw [if_pos hsmall, if_pos hsmall]
  · -- the bits of a finite double are below those of infinity, so nothing is cut off
    have hbits := hencodes.bits_eq
    rw [if_neg hsmall] at hbits
    rw [if_neg hsmall, if_neg hsmall, ← hbits]
    exact Nat.min_eq_right hencodes.bits_lt.le

/-- A number below a power of two that rounds to it has half the unit, and the significand that
it is rounded to carries into the exponent. -/
theorem RoundsTo.roundedBits_of_carry (hencodes : Encodes significand exponent bits)
    (hnum : num ≠ 0) (hden : 0 < den) (h : RoundsTo significand exponent (num / den))
    (hexponent : exponent ≠ leastExponent) (hbelow : (num / den : ℚ) < 2 ^ 52 * 2 ^ exponent) :
    roundedBits num den = bits := by
  have hweight : exponentWeight = 4503599627370496 := rfl
  have hlow := h.low
  rw [zpow_sub_two] at hlow
  have hleast := hencodes.least
  have hunitpos : (0 : ℚ) < 2 ^ exponent := by positivity
  -- the double is the power of two itself
  have hsignificand : significand = exponentWeight := by
    have hge := hencodes.low.resolve_left hexponent
    have hquarters := cast_quartersBelow_le significand exponent
    by_contra hne
    have hmore : (2 : ℚ) ^ 52 + 1 ≤ significand := by
      have : 2 ^ 52 + 1 ≤ significand := by omega
      exact_mod_cast this
    nlinarith
  have hquarter : quartersBelow significand exponent = 1 := if_pos ⟨hsignificand, hexponent⟩
  rw [hquarter, hsignificand, hweight] at hlow
  push_cast at hlow
  have hhalf : (2 : ℚ) ^ (exponent - 1) = 2 ^ exponent / 2 := by
    rw [zpow_sub_one₀ two_ne_zero]
    ring
  -- below the power of two the unit is half as large
  have hunit : UnitOf (num / den) (exponent - 1) := by
    refine ⟨by omega, ?_, Or.inr ?_⟩ <;> rw [hhalf] <;> linarith
  have hvalue := inUnits_value num den (exponent - 1)
  rw [hhalf] at hvalue
  have hhalfpos : (0 : ℚ) < 2 ^ exponent / 2 := by positivity
  have hround : roundHalfEven (inUnits num den (exponent - 1)).1
      (inUnits num den (exponent - 1)).2 = 2 * exponentWeight := by
    refine roundHalfEven_of_value (inUnits_den_pos num hden _) hvalue ?_ ?_ fun hodd => ?_
    · rw [mul_div_assoc', le_div_iff₀ hhalfpos, hweight]
      push_cast
      linarith
    · rw [mul_div_assoc', div_le_iff₀ hhalfpos, hweight]
      push_cast
      linarith
    · omega
  have hnext : (exponent - leastExponent + 1).toNat
      = (exponent - 1 - leastExponent + 1).toNat + 1 := by omega
  -- the carried bit goes into the field of the exponent
  have hcarry : 2 * exponentWeight - exponentWeight
      + (exponent - 1 - leastExponent + 1).toNat * exponentWeight = bits := by
    rw [hencodes.bits_eq, hsignificand, if_neg (lt_irrefl _), hnext, Nat.two_mul,
      Nat.add_sub_cancel, Nat.sub_self]
    ring
  rw [Double.roundedBits_of_unit hnum hden hunit hround, if_neg (by omega), hcarry]
  exact Nat.min_eq_right hencodes.bits_lt.le

/-- **Rounding is nearest.** A fraction in the interval of a positive double is rounded to the
bits of the double. -/
theorem RoundsTo.roundedBits_eq (hencodes : Encodes significand exponent bits)
    (hpos : 0 < significand) (hden : 0 < den) (h : RoundsTo significand exponent (num / den)) :
    roundedBits num den = bits := by
  -- zero is rounded apart from everything else
  have hnum : num ≠ 0 := by
    rintro rfl
    have hvalue := h.pos hpos
    rw [Nat.cast_zero, zero_div] at hvalue
    exact absurd hvalue (lt_irrefl 0)
  -- the number has the unit of the double, or it lies below the power of two that the double is
  by_cases hcase : exponent = leastExponent ∨ 2 ^ 52 * 2 ^ exponent ≤ (num / den : ℚ)
  · refine h.roundedBits_of_unit hencodes hnum hden ⟨hencodes.least, ?_, hcase⟩
    have hlt : (significand : ℚ) + 1 ≤ 2 ^ 53 := by exact_mod_cast hencodes.lt
    have hunitpos : (0 : ℚ) < 2 ^ exponent := by positivity
    have hhigh := h.high
    rw [zpow_sub_two] at hhigh
    nlinarith
  · push Not at hcase
    exact h.roundedBits_of_carry hencodes hnum hden hcase.1 hcase.2

end RoundsTo

end RowFilter.Double
