/-
The shortest decimal reads back.

The search for a short decimal tries one grid after the other and stops at the first on which a
neighbour of the double lies in its interval. That the decimal rounds to the double is clear when
it stops for this reason (`Interval.holds_of_onGrid`). The other reason would be that all
seventeen grids are used up, and this does not happen: on the last of them the steps are smaller
than the unit of the double (`onGrid_around_ne_none`), as long as the search begins no higher than
at the leading digit, which `Ratio.leadingPlace_le` makes sure of.

A decimal that rounds to a positive double is also read as it: the bounds by which the reader
leaves out hopeless exponents are far outside the range of doubles (`RoundsTo.ofDecimal_eq`).
-/
import RowFilter.Double.Shortest
import RowFilter.Proofs.Double.Rounding

set_option autoImplicit false

namespace RowFilter.Double

/-! ## Fractions compared -/

/-- The number that a fraction stands for. -/
def Ratio.value (r : Ratio) : ℚ := r.num / r.den

/-- A decimal as a fraction has the value of the decimal. -/
theorem Ratio.value_ofDecimal (digits : Nat) (exponent : Int) :
    (Ratio.ofDecimal digits exponent).value = digits * 10 ^ exponent := by
  cases exponent with
  | ofNat k => simp [ofDecimal, value]
  | negSucc k => simp [ofDecimal, value, zpow_negSucc, div_eq_mul_inv]

theorem Ratio.value_ofBinary (units : Nat) (exponent : Int) :
    (Ratio.ofBinary units exponent).value = units * 2 ^ exponent := by
  cases exponent with
  | ofNat k => simp [ofBinary, value]
  | negSucc k => simp [ofBinary, value, zpow_negSucc, div_eq_mul_inv]

/-- A power of ten in the denominator is positive. -/
theorem Ratio.den_ofDecimal_pos (digits : Nat) (exponent : Int) :
    0 < (Ratio.ofDecimal digits exponent).den := by
  cases exponent with
  | ofNat k => exact Nat.one_pos
  | negSucc k => exact Nat.pow_pos (by decide)

theorem Ratio.den_ofBinary_pos (units : Nat) (exponent : Int) :
    0 < (Ratio.ofBinary units exponent).den := by
  cases exponent with
  | ofNat k => exact Nat.one_pos
  | negSucc k => exact Nat.pow_pos (by decide)

section Compared

variable {a b : Ratio}

/-- Fractions are compared crosswise, which is as their values are. -/
theorem Ratio.le_iff (ha : 0 < a.den) (hb : 0 < b.den) : a.le b = true ↔ a.value ≤ b.value := by
  have ha' : (0 : ℚ) < a.den := by exact_mod_cast ha
  have hb' : (0 : ℚ) < b.den := by exact_mod_cast hb
  rw [le, decide_eq_true_iff, value, value, div_le_div_iff₀ ha' hb']
  norm_cast

theorem Ratio.lt_iff (ha : 0 < a.den) (hb : 0 < b.den) : a.lt b = true ↔ a.value < b.value := by
  have ha' : (0 : ℚ) < a.den := by exact_mod_cast ha
  have hb' : (0 : ℚ) < b.den := by exact_mod_cast hb
  rw [lt, decide_eq_true_iff, value, value, div_lt_div_iff₀ ha' hb']
  norm_cast

end Compared

/-! ## Intervals -/

section Around

variable {significand bits : Nat} {exponent place : Int} {tie : Tie}

/-- The middle of the interval is the double itself. -/
theorem value_middle (significand : Nat) (exponent : Int) :
    (Interval.around significand exponent).middle.value = significand * 2 ^ exponent := by
  rw [Interval.around, Ratio.value_ofBinary, zpow_sub_two]
  push_cast
  ring

/-- The interval that is searched holds the numbers that round to the double. -/
theorem holds_around_iff (hpos : 0 < significand) {r : Ratio} (hr : 0 < r.den) :
    (Interval.around significand exponent).holds r = true
      ↔ RoundsTo significand exponent r.value := by
  have hquarters : quartersBelow significand exponent ≤ 4 * significand := by
    have := quartersBelow_le significand exponent
    omega
  have hlow : (Interval.around significand exponent).low.value
      = (4 * significand - quartersBelow significand exponent) * 2 ^ (exponent - 2) := by
    rw [Interval.around, Ratio.value_ofBinary, ← quartersBelow, Nat.cast_sub hquarters]
    push_cast
    rfl
  have hhigh : (Interval.around significand exponent).high.value
      = (4 * significand + 2) * 2 ^ (exponent - 2) := by
    rw [Interval.around, Ratio.value_ofBinary]
    push_cast
    rfl
  have hlowden : 0 < (Interval.around significand exponent).low.den := Ratio.den_ofBinary_pos _ _
  have hhighden : 0 < (Interval.around significand exponent).high.den :=
    Ratio.den_ofBinary_pos _ _
  have hclosed : (Interval.around significand exponent).closed
      = decide (significand % 2 = 0) := rfl
  rw [Interval.holds, hclosed]
  -- the ends belong to the interval only if the significand is even
  by_cases heven : significand % 2 = 0
  · rw [if_pos (by simpa using heven), Bool.and_eq_true, Ratio.le_iff hlowden hr,
      Ratio.le_iff hr hhighden, hlow, hhigh]
    exact ⟨fun h => ⟨h.1, h.2, fun hodd => by omega⟩, fun h => ⟨h.low, h.high⟩⟩
  · rw [if_neg (by simpa using heven), Bool.and_eq_true, Ratio.lt_iff hlowden hr,
      Ratio.lt_iff hr hhighden, hlow, hhigh]
    exact ⟨fun h => ⟨h.1.le, h.2.le, fun _ => h⟩, fun h => h.strict (by omega)⟩

end Around

/-! ## The leading place -/

/-- Powers of two bases are compared by one pair of their powers, if the greater base has no negative
exponent. -/
theorem zpow_le_zpow_of_pow_le {a b : ℚ} {m n : Nat} {p k : Int} (ha : 1 ≤ a) (hb : 0 < b)
    (hn : n ≠ 0) (h : a ^ m ≤ b ^ n) (hk : 0 ≤ k) (hpk : n * p ≤ m * k) : a ^ p ≤ b ^ k := by
  have hpos : 0 < a := by linarith
  rw [← pow_le_pow_iff_left₀ (by positivity) (by positivity) hn]
  calc (a ^ p) ^ n = a ^ (n * p) := by rw [← zpow_natCast, ← zpow_mul, mul_comm]
    _ ≤ a ^ (m * k) := zpow_le_zpow_right₀ ha hpk
    _ = (a ^ m) ^ k := by rw [zpow_mul, zpow_natCast]
    _ ≤ (b ^ n) ^ k := zpow_le_zpow_left₀ hk (by positivity) h
    _ = (b ^ k) ^ n := by rw [← zpow_natCast, ← zpow_natCast, ← zpow_mul, ← zpow_mul, mul_comm]

/-- Powers of two against powers of ten, by `2 ^ 93 < 10 ^ 28`. -/
theorem two_zpow_le_ten_zpow {p k : Int} (hp : 0 ≤ p) (h : 28 * k ≤ 93 * p) :
    (2 : ℚ) ^ k ≤ 10 ^ p :=
  zpow_le_zpow_of_pow_le (by norm_num) (by norm_num) (by decide : 28 ≠ 0)
    (by norm_num : (2 : ℚ) ^ 93 ≤ 10 ^ 28) hp h

/-- Powers of ten against powers of two, by `10 ^ 59 < 2 ^ 196` and `2 ^ 93 < 10 ^ 28`. -/
theorem ten_zpow_le_two_zpow {p k : Int} (hpos : 196 * p ≤ 59 * k) (hneg : 93 * p ≤ 28 * k) :
    (10 : ℚ) ^ p ≤ 2 ^ k := by
  rcases le_total 0 p with hp | hp
  · exact zpow_le_zpow_of_pow_le (by norm_num) (by norm_num) (by decide : 196 ≠ 0)
      (by norm_num : (10 : ℚ) ^ 59 ≤ 2 ^ 196) (by omega) hpos
  · -- a negative power is compared the other way round, by its inverse
    have hinv : (2 : ℚ) ^ (-k) ≤ 10 ^ (-p) := two_zpow_le_ten_zpow (by omega) (by omega)
    rwa [zpow_neg, zpow_neg, inv_le_inv₀ (by positivity) (by positivity)] at hinv

/-- In the range of doubles, the search begins no higher than at the leading digit. -/
theorem Ratio.leadingPlace_le {r : Ratio} (hnum : r.num ≠ 0) (hden : 0 < r.den)
    (hlow : (2 : ℚ) ^ (-1074 : Int) ≤ r.value) (hhigh : r.value < 2 ^ (1024 : Int)) :
    (10 : ℚ) ^ r.leadingPlace ≤ r.value := by
  obtain ⟨hvaluelow, hvaluehigh⟩ := log2_ratio hnum hden.ne'
  rw [← value] at hvaluelow hvaluehigh
  rw [leadingPlace]
  generalize (r.num.log2 : Int) - r.den.log2 = bits at *
  have hbitslow : (-1074 : Int) < bits + 1 :=
    (zpow_lt_zpow_iff_right₀ (by norm_num : (1 : ℚ) < 2)).mp (lt_of_le_of_lt hlow hvaluehigh)
  have hbitshigh : bits - 1 < 1024 :=
    (zpow_lt_zpow_iff_right₀ (by norm_num : (1 : ℚ) < 2)).mp (lt_trans hvaluelow hhigh)
  have hone : ∀ p : Int, (Ratio.ofDecimal 1 p).le r = true ↔ (10 : ℚ) ^ p ≤ r.value := by
    intro p
    rw [Ratio.le_iff (Ratio.den_ofDecimal_pos 1 p) hden, Ratio.value_ofDecimal, Nat.cast_one,
      one_mul]
  -- the program looks at two places, and takes a third one without looking
  simp only [hone]
  split
  · assumption
  · split
    · assumption
    · exact le_trans (ten_zpow_le_two_zpow (by omega) (by omega)) hvaluelow.le

/-! ## Grids -/

/-- The steps that fit into a number leave less than one step. -/
theorem Ratio.steps_bounds {r : Ratio} (hden : 0 < r.den) (exponent : Int) :
    r.steps exponent * (10 : ℚ) ^ exponent ≤ r.value
      ∧ r.value < (r.steps exponent + 1) * 10 ^ exponent := by
  -- in either direction the steps are a quotient of naturals
  have hquotient : ∀ num den : Nat, 0 < den → (num : ℚ) / den = r.value / 10 ^ exponent →
      r.steps exponent = num / den →
      r.steps exponent * (10 : ℚ) ^ exponent ≤ r.value
        ∧ r.value < (r.steps exponent + 1) * 10 ^ exponent := by
    intro num den hden' hvalue hsteps
    have hpow : (0 : ℚ) < 10 ^ exponent := by positivity
    have hden'' : (0 : ℚ) < den := by exact_mod_cast hden'
    rw [← le_div_iff₀ hpow, ← div_lt_iff₀ hpow, ← hvalue, hsteps, le_div_iff₀ hden'',
      div_lt_iff₀ hden'']
    constructor
    · exact_mod_cast Nat.div_mul_le_self num den
    · exact_mod_cast Nat.lt_mul_of_div_lt (Nat.lt_succ_self (num / den)) hden'
  cases exponent with
  | ofNat k =>
      refine hquotient r.num (r.den * Nat.pow 10 k) (Nat.mul_pos hden (Nat.pow_pos (by decide)))
        ?_ rfl
      simp [value, div_div]
  | negSucc k =>
      refine hquotient (r.num * Nat.pow 10 (k + 1)) r.den hden ?_ rfl
      simp only [value, zpow_negSucc, Nat.pow_eq, Nat.cast_mul, Nat.cast_pow, Nat.cast_ofNat,
        div_inv_eq_mul]
      ring

section Search

variable {i : Interval} {tie : Tie} {exponent : Int} {digits : Nat}

/-- What is taken on a grid lies in the interval. -/
theorem Interval.holds_of_onGrid (h : i.onGrid tie exponent = some digits) :
    i.holds (.ofDecimal digits exponent) = true := by
  unfold onGrid at h
  simp only at h
  generalize i.middle.steps exponent = below at h
  by_cases hboth : (i.holds (.ofDecimal below exponent)
      && i.holds (.ofDecimal (below + 1) exponent)) = true
  · rw [if_pos hboth] at h
    obtain ⟨hlow, hhigh⟩ := Bool.and_eq_true_iff.mp hboth
    -- whatever decides between the two neighbours, it is one of them
    have hone : digits = below ∨ digits = below + 1 := by
      split at h
      · exact Or.inl (Option.some.inj h).symm
      · split at h
        · exact Or.inr (Option.some.inj h).symm
        · cases tie with
          | up => exact Or.inr (Option.some.inj h).symm
          | even =>
              have h := Option.some.inj h
              split at h
              · exact Or.inl h.symm
              · exact Or.inr h.symm
    rcases hone with rfl | rfl
    · exact hlow
    · exact hhigh
  · rw [if_neg hboth] at h
    split at h
    · next hlow =>
        rw [← Option.some.inj h]
        exact hlow
    · split at h
      · next hhigh =>
          rw [← Option.some.inj h]
          exact hhigh
      · cases h

/-- A grid is left out only if both neighbours are outside. -/
theorem Interval.not_holds_of_onGrid (h : i.onGrid tie exponent = none) :
    i.holds (.ofDecimal (i.middle.steps exponent) exponent) = false
      ∧ i.holds (.ofDecimal (i.middle.steps exponent + 1) exponent) = false := by
  unfold onGrid at h
  simp only at h
  generalize i.middle.steps exponent = below at h ⊢
  -- each of the branches that take a neighbour would have come to something
  by_cases hboth : (i.holds (.ofDecimal below exponent)
      && i.holds (.ofDecimal (below + 1) exponent)) = true
  · rw [if_pos hboth] at h
    split at h
    · cases h
    · split at h
      · cases h
      · cases tie <;> cases h
  · rw [if_neg hboth] at h
    split at h
    · cases h
    · next hlow =>
        split at h
        · cases h
        · next hhigh => exact ⟨by simpa using hlow, by simpa using hhigh⟩

/-- The search ends in the interval if one of its grids has a neighbour there. -/
theorem Interval.holds_search {fuel k : Nat} (hk : k < fuel)
    (h : i.onGrid tie (exponent - k) ≠ none) :
    i.holds (.ofDecimal (i.search tie fuel exponent).digits (i.search tie fuel exponent).exponent)
      = true := by
  induction fuel generalizing exponent k with
  | zero => omega
  | succ fuel ih =>
      rw [search]
      -- the search stops here, or the grid that is known to do lies one step nearer
      rcases hgrid : i.onGrid tie exponent with _ | digits
      · cases k with
        | zero =>
            rw [Nat.cast_zero, sub_zero] at h
            exact absurd hgrid h
        | succ k =>
            apply ih (k := k) (by omega)
            have hnext : exponent - 1 - k = exponent - (k + 1 : Nat) := by
              push_cast
              ring
            rw [hnext]
            exact h
      · exact holds_of_onGrid hgrid

end Search

/-- Where the steps are fine enough, one of the two neighbours rounds to the double. -/
theorem onGrid_around_ne_none {significand bits : Nat} {exponent place : Int} {tie : Tie}
    (hencodes : Encodes significand exponent bits) (hpos : 0 < significand)
    (hfine : (10 : ℚ) ^ place * 10 ^ 16 ≤ significand * 2 ^ exponent) :
    (Interval.around significand exponent).onGrid tie place ≠ none := by
  intro hnone
  obtain ⟨hbelow, habove⟩ := Interval.not_holds_of_onGrid hnone
  obtain ⟨hlow, hhigh⟩ := Ratio.steps_bounds (r := (Interval.around significand exponent).middle)
    (Ratio.den_ofBinary_pos _ _) place
  rw [value_middle] at hlow hhigh
  generalize (Interval.around significand exponent).middle.steps place = below at *
  rw [← Bool.not_eq_true, holds_around_iff hpos (Ratio.den_ofDecimal_pos _ _),
    Ratio.value_ofDecimal] at hbelow habove
  rw [Nat.cast_add, Nat.cast_one] at habove
  have hunit : (0 : ℚ) < 2 ^ exponent := by positivity
  -- sixteen digits of ten are more than fifty-three of two
  have hstep : (10 : ℚ) ^ place < 2 ^ exponent := by
    have hsignificand : (significand : ℚ) < 2 ^ 53 := by exact_mod_cast hencodes.lt
    nlinarith
  -- the neighbour above is too far away, so the one below is near
  have hfar : significand * 2 ^ exponent + 2 ^ exponent / 2 ≤ (below + 1) * (10 : ℚ) ^ place := by
    by_contra hnear
    refine habove (RoundsTo.of_between ?_ (not_le.mp hnear))
    have hquarters : (0 : ℚ) ≤ quartersBelow significand exponent := Nat.cast_nonneg _
    nlinarith
  by_cases hquarters : significand = exponentWeight ∧ exponent ≠ leastExponent
  · -- below a power of two the interval is narrow, but so are the steps
    have hsignificand : (significand : ℚ) = 2 ^ 52 := by
      rw [hquarters.1]
      norm_cast
    rw [hsignificand] at hfine hlow hfar
    linarith
  · have htwo : quartersBelow significand exponent = 2 := if_neg hquarters
    apply hbelow
    apply RoundsTo.of_between
    · rw [htwo]
      push_cast
      linarith
    · linarith

/-! ## The shortest decimal -/

/-- Zeros at the end do not change a decimal. -/
theorem Decimal.value_trimmed (fuel : Nat) (d : Decimal) :
    ((d.trimmed fuel).digits : ℚ) * 10 ^ (d.trimmed fuel).exponent
      = d.digits * 10 ^ d.exponent := by
  induction fuel generalizing d with
  | zero => rfl
  | succ fuel ih =>
      rw [trimmed]
      split
      · next hzero =>
          -- the last digit is zero, so a tenth of them one place higher is the same
          have hdigits : d.digits = 10 * (d.digits / 10) := by omega
          rw [ih]
          dsimp only
          rw [zpow_add_one₀ (by norm_num : (10 : ℚ) ≠ 0)]
          conv => rhs; rw [hdigits]
          push_cast
          ring
      · rfl

section Shortest

variable {significand bits digits : Nat} {exponent place : Int}

/-- **The shortest decimal of a positive double rounds to it.** -/
theorem shortest_roundsTo (tie : Tie) (hencodes : Encodes significand exponent bits)
    (hpos : 0 < significand) :
    RoundsTo significand exponent ((shortest tie significand exponent).digits
      * 10 ^ (shortest tie significand exponent).exponent) := by
  have hone : (1 : ℚ) ≤ significand := by exact_mod_cast hpos
  have hunit : (0 : ℚ) < 2 ^ exponent := by positivity
  have hvalue := value_middle significand exponent
  have hden : 0 < (Interval.around significand exponent).middle.den := Ratio.den_ofBinary_pos _ _
  have hnum : (Interval.around significand exponent).middle.num ≠ 0 := by
    intro hzero
    rw [Ratio.value, hzero, Nat.cast_zero, zero_div] at hvalue
    nlinarith
  obtain ⟨hlow, hhigh⟩ := hencodes.value_bounds hpos
  -- the search begins at the leading digit of the double or above it
  have hplace := Ratio.leadingPlace_le hnum hden (by rw [hvalue]; exact hlow)
    (by rw [hvalue]; nlinarith)
  rw [hvalue] at hplace
  rw [shortest, Decimal.value_trimmed, ← Ratio.value_ofDecimal,
    ← holds_around_iff hpos (Ratio.den_ofDecimal_pos _ _)]
  -- the last of the seventeen grids would do
  apply Interval.holds_search (k := 16) (by omega)
  apply onGrid_around_ne_none hencodes hpos
  rw [← zpow_natCast, ← zpow_add₀ (by norm_num : (10 : ℚ) ≠ 0), sub_add_cancel]
  exact hplace

/-! ## Reading decimals -/

/-- A number lies between the powers of ten that the number of its digits tells. -/
theorem length_toDigits_bounds {n : Nat} (hn : 0 < n) :
    10 ^ ((Nat.toDigits 10 n).length - 1) ≤ n ∧ n < 10 ^ (Nat.toDigits 10 n).length := by
  have hlength : ∀ k, 0 < k → ((Nat.toDigits 10 n).length ≤ k ↔ n < 10 ^ k) := fun k hk =>
    Nat.length_toDigits_le_iff (by decide) hk
  have hpos : 0 < (Nat.toDigits 10 n).length := Nat.length_toDigits_pos
  generalize (Nat.toDigits 10 n).length = length at *
  refine ⟨?_, (hlength length hpos).mp (le_refl length)⟩
  -- one digit less would not be enough
  rcases Nat.lt_or_ge 1 length with hmore | hone
  · by_contra hlt
    have := (hlength (length - 1) (by omega)).mpr (by omega)
    omega
  · obtain rfl : length = 1 := by omega
    exact hn

/-- How many places a decimal in the range of doubles has before its point. -/
theorem places_bounds (hdigits : 0 < digits) (hlow : (2 : ℚ) ^ (-1075 : Int) ≤ digits * 10 ^ place)
    (hhigh : digits * (10 : ℚ) ^ place < 2 ^ (1024 : Int)) :
    -330 ≤ place + (Nat.toDigits 10 digits).length
      ∧ place + (Nat.toDigits 10 digits).length ≤ 310 := by
  obtain ⟨hlengthlow, hlengthhigh⟩ := length_toDigits_bounds hdigits
  have hten : (0 : ℚ) < 10 ^ place := by positivity
  constructor
  · -- were there fewer places, the decimal would be below the least double
    have hpow : (10 : ℚ) ^ (-330 : Int) < 10 ^ (place + (Nat.toDigits 10 digits).length) := by
      calc (10 : ℚ) ^ (-330 : Int) ≤ 2 ^ (-1075 : Int) :=
            ten_zpow_le_two_zpow (by norm_num) (by norm_num)
        _ ≤ digits * 10 ^ place := hlow
        _ < 10 ^ (Nat.toDigits 10 digits).length * 10 ^ place :=
            mul_lt_mul_of_pos_right (by exact_mod_cast hlengthhigh) hten
        _ = _ := by rw [mul_comm, zpow_add₀ (by norm_num), zpow_natCast]
    exact ((zpow_lt_zpow_iff_right₀ (by norm_num : (1 : ℚ) < 10)).mp hpow).le
  · have hpow : (10 : ℚ) ^ (place + ((Nat.toDigits 10 digits).length - 1 : Nat))
        < 10 ^ (310 : Int) := by
      calc (10 : ℚ) ^ (place + ((Nat.toDigits 10 digits).length - 1 : Nat))
          = 10 ^ ((Nat.toDigits 10 digits).length - 1) * 10 ^ place := by
            rw [mul_comm, zpow_add₀ (by norm_num), zpow_natCast]
        _ ≤ digits * 10 ^ place :=
            mul_le_mul_of_nonneg_right (by exact_mod_cast hlengthlow) hten.le
        _ < 2 ^ (1024 : Int) := hhigh
        _ ≤ 10 ^ (310 : Int) := two_zpow_le_ten_zpow (by norm_num) (by norm_num)
    have hplaces := (zpow_lt_zpow_iff_right₀ (by norm_num : (1 : ℚ) < 10)).mp hpow
    omega

/-- **A decimal that rounds to a positive double is read as it.** -/
theorem RoundsTo.ofDecimal_eq (hencodes : Encodes significand exponent bits)
    (hpos : 0 < significand) (h : RoundsTo significand exponent (digits * 10 ^ place))
    (negative : Bool) : Double.ofDecimal negative digits place = ofBits negative bits := by
  have hdigits : digits ≠ 0 := by
    rintro rfl
    have hvalue := h.pos hpos
    rw [Nat.cast_zero, zero_mul] at hvalue
    exact absurd hvalue (lt_irrefl 0)
  obtain ⟨hlow, hhigh⟩ := h.bounds hencodes hpos
  obtain ⟨hfew, hmany⟩ := places_bounds (Nat.pos_of_ne_zero hdigits) hlow hhigh
  -- the number of places is far from where a decimal is taken for zero or for infinity
  have hratio : Double.ofDecimal negative digits place
      = ofRatio negative (Ratio.ofDecimal digits place).num (Ratio.ofDecimal digits place).den := by
    unfold Double.ofDecimal
    simp only
    rw [if_neg hdigits, if_neg (by omega), if_neg (by omega)]
    cases place <;> rfl
  rw [hratio, ofRatio, RoundsTo.roundedBits_eq hencodes hpos (Ratio.den_ofDecimal_pos _ _)]
  rw [← Ratio.value, Ratio.value_ofDecimal]
  exact h

end Shortest

end RowFilter.Double
