/-
Doubles read back.

A finite double is written in one of two forms, positional or with an exponent, and both are
decimals of the grammar: digits, perhaps digits behind a point, perhaps an exponent
(`Parts`). Two things are shown of every such text whose parts are in order: as a token it is a
double literal up to where it ends, and its value is that of its digits, moved by its exponent.
The written forms only have to be taken apart then. Their digits are those of the shortest decimal,
which reads back (`RoundsTo.ofDecimal_eq`).
-/
import RowFilter.Double.Text
import RowFilter.Proofs.Double.Shortest
import RowFilter.Proofs.Expr.Literals
import RowFilter.Proofs.Grammar.Tokens

set_option autoImplicit false

namespace RowFilter

/-! ## Values of decimals -/

namespace Text

/-- Zeros at the end multiply a number by powers of its base. -/
theorem digitsValue?_append_zeros {base value : Nat} {ds : List Char} (hbase : 0 < base)
    (h : digitsValue? base 0 ds = some value) (count : Nat) :
    digitsValue? base 0 (ds ++ List.replicate count '0') = some (value * base ^ count) := by
  have hzero : hexDigit? '0' = some 0 := rfl
  -- the zeros alone move whatever has been read before them
  have hzeros : ∀ start, digitsValue? base start (List.replicate count '0')
      = some (start * base ^ count) := by
    induction count with
    | zero => simp [digitsValue?]
    | succ count ih =>
        intro start
        rw [List.replicate_succ, digitsValue?, hzero]
        dsimp only
        rw [if_pos hbase, ih, Nat.add_zero, Nat.pow_succ']
        congr 1
        ring
  rw [digitsValue?_append, h, Option.bind_some, hzeros]

end Text

namespace Numeral

open Grammar (Stopped of_stopped of_isDigit)

/-- A decimal taken apart as it is written. -/
structure Parts where
  whole : List Char
  /-- The digits behind the point, which is not written without any. -/
  fraction : List Char
  exponent : Option Int

namespace Parts

/-- The digits of an exponent behind its sign. -/
def exponentDigits (e : Int) : List Char :=
  if e < 0 then '-' :: Nat.toDigits 10 e.natAbs else Nat.toDigits 10 e.natAbs

/-- The exponent with its letter. -/
def exponentText : Option Int → List Char
  | none => []
  | some e => 'e' :: exponentDigits e

/-- What is written behind the digits before the point. -/
def behind (p : Parts) : List Char :=
  (if p.fraction = [] then [] else '.' :: p.fraction) ++ exponentText p.exponent

def text (p : Parts) : List Char := p.whole ++ p.behind

/-- The parts are digits, and a point or an exponent tells the text from an integer. -/
structure Written (p : Parts) : Prop where
  whole_ne_nil : p.whole ≠ []
  whole_digits : ∀ c ∈ p.whole, c.isDigit = true
  fraction_digits : ∀ c ∈ p.fraction, c.isDigit = true
  marked : p.fraction ≠ [] ∨ p.exponent.isSome

variable {p : Parts} {tail : List Char}

/-- No digit goes on at the end of a text. -/
theorem nil_stops : ∀ c ∈ ([] : List Char).head?, c.isDigit = false := by rintro c ⟨⟩

/-- Behind digits comes a mark that is none. -/
theorem behind_head (p : Parts) (hstop : ∀ c ∈ tail.head?, c.isDigit = false) :
    ∀ c ∈ (p.behind ++ tail).head?, c.isDigit = false := by
  intro c hc
  rw [behind] at hc
  -- a point, the letter of an exponent, or what follows the number
  by_cases hfraction : p.fraction = []
  · rw [if_pos hfraction, List.nil_append] at hc
    cases hexponent : p.exponent with
    | none =>
        rw [hexponent] at hc
        exact hstop c hc
    | some e =>
        rw [hexponent] at hc
        cases hc
        rfl
  · rw [if_neg hfraction] at hc
    cases hc
    rfl

/-- The digits of a number end in front of its exponent, if that is the next. -/
theorem exponentText_head (e : Option Int) (hstop : ∀ c ∈ tail.head?, c.isDigit = false) :
    ∀ c ∈ (exponentText e ++ tail).head?, c.isDigit = false := by
  intro c hc
  cases e with
  | none => exact hstop c hc
  | some e =>
      cases hc
      rfl

/-- A run of digits and what is behind it. -/
theorem span_digits {ds rest : List Char} (hds : ∀ c ∈ ds, c.isDigit = true)
    (hrest : ∀ c ∈ rest.head?, c.isDigit = false) :
    (ds ++ rest).takeWhile Char.isDigit = ds ∧ (ds ++ rest).dropWhile Char.isDigit = rest := by
  have hstop : rest.takeWhile Char.isDigit = [] ∧ rest.dropWhile Char.isDigit = rest := by
    cases rest with
    | nil => exact ⟨rfl, rfl⟩
    | cons c more =>
        have hc : ¬ c.isDigit = true := by simp [hrest c rfl]
        exact ⟨List.takeWhile_cons_of_neg hc, List.dropWhile_cons_of_neg hc⟩
  rw [List.takeWhile_append_of_pos hds, List.dropWhile_append_of_pos hds, hstop.1, hstop.2,
    List.append_nil]
  exact ⟨rfl, rfl⟩

/-- An exponent is read back from its digits. -/
theorem exponent?_exponentDigits (e : Int) : exponent? (exponentDigits e) = some e := by
  have hvalue := Text.digitsValue?_toDigits (by omega : 1 < 10) (by omega) e.natAbs
  rw [exponentDigits]
  -- only a negative exponent is written with a sign
  by_cases he : e < 0
  · have hsign : -(e.natAbs : Int) = e := by omega
    rw [if_pos he, exponent?, hvalue]
    exact congrArg some hsign
  · rw [if_neg he]
    have hdigit : ∀ c ∈ Nat.toDigits 10 e.natAbs, c.isDigit = true := fun c =>
      isDigit_of_mem_toDigits
    unfold exponent?
    split
    · next h =>
        rw [h] at hdigit
        exact absurd (hdigit '-' List.mem_cons_self) (by decide)
    · next h =>
        rw [h] at hdigit
        exact absurd (hdigit '+' List.mem_cons_self) (by decide)
    · have hsign : (e.natAbs : Int) = e := by omega
      rw [hvalue]
      exact congrArg some hsign

/-- The double of all the digits, with an exponent, and with some of the digits behind the
point. -/
def valued (digits : List Char) (exponent : Option Int) (behindPoint : Nat) : Option Double :=
  match Text.digitsValue? 10 0 digits, exponent with
  | some digits, some e => some (Double.ofDecimal false digits (e - behindPoint))
  | _, _ => none

/-- What is read of an exponent behind the digits. -/
def exponentOf? : List Char → Option Int
  | [] => some 0
  | 'e' :: digits | 'E' :: digits => exponent? digits
  | _ => none

/-- A number is its digits with the point moved by exponent and fraction. -/
theorem valued_of_some {ds : List Char} {digits : Nat}
    (h : Text.digitsValue? 10 0 ds = some digits) (e : Int) (behindPoint : Nat) :
    valued ds (some e) behindPoint = some (Double.ofDecimal false digits (e - behindPoint)) := by
  unfold valued
  rw [h]

/-- **The value of a written decimal** is that of its digits, moved by its exponent. -/
theorem double?_text {digits : Nat} (h : p.Written)
    (hdigits : Text.digitsValue? 10 0 (p.whole ++ p.fraction) = some digits) :
    double? p.text = some (Double.ofDecimal false digits
      (p.exponent.getD 0 - p.fraction.length)) := by
  obtain ⟨whole, fraction, exponent⟩ := p
  have hwhole := span_digits h.whole_digits
    (behind_head ⟨whole, fraction, exponent⟩ nil_stops)
  rw [List.append_nil] at hwhole
  dsimp only at hwhole hdigits
  rw [double?, text]
  simp only [hwhole.1, hwhole.2]
  -- what is left of the reader is `valued` of the parts that it has found
  by_cases hfraction : fraction = []
  · subst hfraction
    rw [List.append_nil] at hdigits
    cases exponent with
    | none =>
        show valued (whole ++ []) (some 0) 0 = _
        rw [List.append_nil, valued_of_some hdigits]
        rfl
    | some e =>
        show valued (whole ++ []) (exponent? (exponentDigits e)) 0 = _
        rw [List.append_nil, exponent?_exponentDigits, valued_of_some hdigits]
        rfl
  · have hspan := span_digits h.fraction_digits (exponentText_head exponent nil_stops)
    rw [List.append_nil] at hspan
    dsimp only at hspan
    rw [behind, if_neg hfraction]
    show valued (whole ++ (fraction ++ exponentText exponent).takeWhile Char.isDigit)
      (exponentOf? ((fraction ++ exponentText exponent).dropWhile Char.isDigit))
      ((fraction ++ exponentText exponent).takeWhile Char.isDigit).length = _
    rw [hspan.1, hspan.2]
    cases exponent with
    | none =>
        exact valued_of_some hdigits 0 _
    | some e =>
        show valued (whole ++ fraction) (exponent? (exponentDigits e)) fraction.length = _
        rw [exponent?_exponentDigits, valued_of_some hdigits]
        rfl

/-! ## Tokens of decimals -/

open Grammar Grammar.Pattern

/-- **Exponents.** The exponent is read as far as it has been written. -/
theorem split?_exponent (e : Int) (htail : Stopped tail) :
    Grammar.exponent.split? (exponentText (some e) ++ tail)
      = some (exponentText (some e), tail) := by
  have hdigits : Digits (Nat.toDigits 10 e.natAbs) tail := by
    refine ⟨?_, fun c => isDigit_of_mem_toDigits,
      fun c hc => Bool.not_inj (of_stopped htail (fun c => !c.isDigit) rfl c hc)⟩
    exact List.ne_nil_of_length_pos Nat.length_toDigits_pos
  refine split?_seq_eq_some_iff.mpr ⟨['e'], exponentDigits e ++ tail, exponentDigits e, rfl, ?_,
    rfl⟩
  rw [exponentDigits]
  -- the sign is read if there is one, else the first digit is no sign
  by_cases he : e < 0
  · rw [if_pos he]
    exact split?_seq_eq_some_iff.mpr ⟨['-'], _, _, rfl, hdigits.digits_eq, rfl⟩
  · rw [if_neg he]
    have hsign : (optional (alt (char '+') (char '-'))).split? (Nat.toDigits 10 e.natAbs ++ tail)
        = some ([], Nat.toDigits 10 e.natAbs ++ tail) := by
      rw [split?_optional, hdigits.rejected (p := alt (char '+') (char '-')) (by decide)]
      rfl
    exact split?_seq_eq_some_iff.mpr ⟨[], _, _, hsign, hdigits.digits_eq, rfl⟩

/-- The same where a number may be without an exponent. -/
theorem split?_optional_exponent (e : Option Int) (htail : Stopped tail) :
    (optional Grammar.exponent).split? (exponentText e ++ tail) = some (exponentText e, tail) := by
  cases e with
  | none =>
      have hnone : Grammar.exponent.split? tail = none := by
        cases tail with
        | nil => rfl
        | cons c rest =>
            exact split?_of_rejects (of_stopped htail Grammar.exponent.rejects rfl c rfl) rest
      rw [split?_optional]
      exact congrArg (fun found => some (found.getD ([], tail))) hnone
  | some e => rw [split?_optional, split?_exponent e htail, Option.getD_some]

/-- **A written decimal is a double literal**, up to where it ends. -/
theorem split?_doubleLiteral (h : p.Written) (htail : Stopped tail) :
    doubleLiteral.split? (p.text ++ tail) = some (p.text, tail) := by
  obtain ⟨whole, fraction, exponent⟩ := p
  have hstop : ∀ c ∈ tail.head?, c.isDigit = false := fun c hc =>
    Bool.not_inj (of_stopped htail (fun c => !c.isDigit) rfl c hc)
  have hwhole : Digits whole ((Parts.mk whole fraction exponent).behind ++ tail) :=
    ⟨h.whole_ne_nil, h.whole_digits, behind_head _ hstop⟩
  rw [text, List.append_assoc, doubleLiteral, first, first, first, split?_alt_eq_some_iff]
  by_cases hfraction : fraction = []
  · -- without a point there is an exponent
    subst hfraction
    obtain ⟨e, rfl⟩ := Option.isSome_iff_exists.mp (h.marked.resolve_left fun hne => hne rfl)
    refine .inr ⟨?_, split?_alt_eq_some_iff.mpr (.inl ?_)⟩
    · rw [split?_seq, hwhole.digits_eq]
      rfl
    · exact split?_seq_eq_some_iff.mpr ⟨whole, _, _, hwhole.digits_eq, split?_exponent e htail, rfl⟩
  · -- with one the first of the three forms matches, whether or not an exponent follows
    have hbehind : (Parts.mk whole fraction exponent).behind
        = '.' :: (fraction ++ exponentText exponent) := by
      rw [behind, if_neg hfraction]
      rfl
    rw [hbehind] at hwhole ⊢
    have hdigits : Digits fraction (exponentText exponent ++ tail) :=
      ⟨hfraction, h.fraction_digits, exponentText_head exponent hstop⟩
    rw [List.cons_append, List.append_assoc] at hwhole ⊢
    refine .inl (split?_seq_eq_some_iff.mpr ⟨whole, _, _, hwhole.digits_eq, ?_, rfl⟩)
    refine split?_seq_eq_some_iff.mpr ⟨['.'], _, _, rfl, ?_, rfl⟩
    exact split?_seq_eq_some_iff.mpr ⟨fraction, _, _, hdigits.digits_eq,
      split?_optional_exponent exponent htail, rfl⟩

end Parts

end Numeral

/-! ## Written doubles -/

namespace Double

open Numeral (Parts isDigit_of_mem_toDigits)

variable {digits : Nat} {place : Int}

theorem isDigit_of_mem_replicate {n : Nat} {c : Char} (hc : c ∈ List.replicate n '0') :
    c.isDigit = true := by
  rw [List.eq_of_mem_replicate hc]
  rfl

/-- The parts are those of a decimal text, and it stands for `digits * 10 ^ exponent`. -/
structure Spells (p : Parts) (text : List Char) (digits : Nat) (exponent : Int) : Prop where
  written : p.Written
  text_eq : text = p.text
  value : ∃ number, Text.digitsValue? 10 0 (p.whole ++ p.fraction) = some number
    ∧ (number : ℚ) * 10 ^ (p.exponent.getD 0 - p.fraction.length) = digits * 10 ^ exponent

/-- The number does not change if the digits are the same and so is the exponent. -/
theorem Spells.of_digits {p : Parts} {text : List Char} {exponent : Int} (hwritten : p.Written)
    (htext : text = p.text) (hdigits : Text.digitsValue? 10 0 (p.whole ++ p.fraction) = some digits)
    (hexponent : p.exponent.getD 0 - p.fraction.length = exponent) :
    Spells p text digits exponent :=
  ⟨hwritten, htext, digits, hdigits, by rw [hexponent]⟩

section Spelled

variable {ds : List Char}

/-- The point stands between two digits. -/
theorem spells_between {p : Nat} (hdigits : ∀ c ∈ ds, c.isDigit = true)
    (hvalue : Text.digitsValue? 10 0 ds = some digits) (hmore : p + 1 < ds.length) :
    Spells ⟨ds.take (p + 1), ds.drop (p + 1), none⟩ (positional ds p) digits
      (p - ds.length + 1) := by
  -- there are digits on both sides of the point, and none is filled up
  have hne : ds.drop (p + 1) ≠ [] := by
    rw [Ne, List.drop_eq_nil_iff]
    omega
  refine .of_digits ⟨?_, ?_, ?_, .inl hne⟩ ?_ ?_ ?_
  · rw [Ne, List.take_eq_nil_iff]
    rintro (h | rfl)
    · omega
    · cases hmore
  · exact fun c hc => hdigits c (List.mem_of_mem_take hc)
  · exact fun c hc => hdigits c (List.mem_of_mem_drop hc)
  · have hfilled : p + 1 - (ds.take (p + 1)).length = 0 := by
      rw [List.length_take]
      omega
    have hfraction : (ds.drop (p + 1)).isEmpty = false := by
      rw [List.isEmpty_eq_false_iff]
      exact hne
    show ds.take (p + 1) ++ List.replicate (p + 1 - (ds.take (p + 1)).length) '0'
      ++ '.' :: (if (ds.drop (p + 1)).isEmpty then ['0'] else ds.drop (p + 1)) = _
    rw [hfilled, hfraction, List.replicate_zero, List.append_nil, Parts.text, Parts.behind,
      if_neg hne, Parts.exponentText, List.append_nil]
    rfl
  · rw [List.take_append_drop]
    exact hvalue
  · rw [List.length_drop, Option.getD_none]
    omega

/-- Zeros are filled in up to the point, and one stands behind it. -/
theorem spells_filled {p : Nat} (hne : ds ≠ []) (hdigits : ∀ c ∈ ds, c.isDigit = true)
    (hvalue : Text.digitsValue? 10 0 ds = some digits) (hfew : ds.length ≤ p + 1) :
    Spells ⟨ds ++ List.replicate (p + 1 - ds.length) '0', ['0'], none⟩ (positional ds p) digits
      (p - ds.length + 1) := by
  refine ⟨⟨?_, ?_, ?_, .inl (by simp)⟩, ?_, digits * 10 ^ (p + 1 - ds.length + 1), ?_, ?_⟩
  · exact fun h => hne (List.append_eq_nil_iff.mp h).1
  · intro c hc
    rcases List.mem_append.mp hc with hc | hc
    · exact hdigits c hc
    · exact isDigit_of_mem_replicate hc
  · exact fun c hc => isDigit_of_mem_replicate (n := 1) hc
  · show ds.take (p + 1) ++ List.replicate (p + 1 - (ds.take (p + 1)).length) '0'
      ++ '.' :: (if (ds.drop (p + 1)).isEmpty then ['0'] else ds.drop (p + 1)) = _
    rw [List.take_of_length_le hfew, List.drop_of_length_le hfew]
    rfl
  · have hone : (['0'] : List Char) = List.replicate 1 '0' := rfl
    -- zeros up to the point and the one behind it
    have hzeros := Text.digitsValue?_append_zeros (by omega) hvalue (p + 1 - ds.length + 1)
    rw [List.replicate_add] at hzeros
    rw [hone, List.append_assoc]
    exact hzeros
  · have hten : (10 : ℚ) ≠ 0 := by norm_num
    -- all those zeros are undone by the powers of ten
    have hplaces : (p : Int) - ds.length + 1
        = ((p + 1 - ds.length + 1 : Nat) : Int) + (-1 : Int) := by omega
    rw [hplaces, zpow_add₀ hten, zpow_natCast, Nat.cast_mul, Nat.cast_pow, mul_assoc]
    rfl

/-- Zeros stand between the point and the digits. -/
theorem spells_behind {p : Nat} (hne : ds ≠ []) (hdigits : ∀ c ∈ ds, c.isDigit = true)
    (hvalue : Text.digitsValue? 10 0 ds = some digits) :
    Spells ⟨['0'], List.replicate p '0' ++ ds, none⟩ (positional ds (.negSucc p)) digits
      (.negSucc p - ds.length + 1) := by
  have hfraction : List.replicate p '0' ++ ds ≠ [] := fun h => hne (List.append_eq_nil_iff.mp h).2
  refine .of_digits ⟨by simp, ?_, ?_, .inl hfraction⟩ ?_ ?_ ?_
  · exact fun c hc => isDigit_of_mem_replicate (n := 1) hc
  · intro c hc
    rcases List.mem_append.mp hc with hc | hc
    · exact isDigit_of_mem_replicate hc
    · exact hdigits c hc
  · rw [Parts.text, Parts.behind, if_neg hfraction, Parts.exponentText, List.append_nil]
    rfl
  · -- zeros in front add nothing
    have hone : (['0'] : List Char) = List.replicate 1 '0' := rfl
    rw [hone, Text.digitsValue?_zeros (by omega), Text.digitsValue?_zeros (by omega)]
    exact hvalue
  · rw [List.length_append, List.length_replicate, Option.getD_none]
    omega

/-- The point stands behind the first digit, if there are others. -/
theorem spells_scientific (hne : ds ≠ []) (hdigits : ∀ c ∈ ds, c.isDigit = true)
    (hvalue : Text.digitsValue? 10 0 ds = some digits) (place : Int) :
    Spells ⟨ds.take 1, ds.drop 1, some place⟩ (scientific [] ds place) digits
      (place - ds.length + 1) := by
  have hpos := List.length_pos_iff.mpr hne
  refine .of_digits ⟨?_, ?_, ?_, .inr rfl⟩ ?_ ?_ ?_
  · rw [Ne, List.take_eq_nil_iff]
    rintro (h | h)
    · cases h
    · exact hne h
  · exact fun c hc => hdigits c (List.mem_of_mem_take hc)
  · exact fun c hc => hdigits c (List.mem_of_mem_drop hc)
  · -- with one digit alone no point is written
    have hpoint : (if (ds.drop 1).isEmpty then [] else '.' :: ds.drop 1)
        = if ds.drop 1 = [] then [] else '.' :: ds.drop 1 := by
      simp only [List.isEmpty_iff]
    rw [scientific, Parts.text, Parts.behind]
    simp only [hpoint, List.append_assoc]
    rfl
  · rw [List.take_append_drop]
    exact hvalue
  · rw [List.length_drop, Option.getD_some]
    omega

/-- Without an exponent the point stands among the digits, behind them or in front of them. -/
theorem exists_spells_positional (hne : ds ≠ []) (hdigits : ∀ c ∈ ds, c.isDigit = true)
    (hvalue : Text.digitsValue? 10 0 ds = some digits) (place : Int) :
    ∃ p, Spells p (positional ds place) digits (place - ds.length + 1) := by
  cases place with
  | ofNat p =>
      rcases Nat.lt_or_ge (p + 1) ds.length with hmore | hfew
      · exact ⟨_, spells_between hdigits hvalue hmore⟩
      · exact ⟨_, spells_filled hne hdigits hvalue hfew⟩
  | negSucc p => exact ⟨_, spells_behind hne hdigits hvalue⟩

end Spelled

/-- A positive finite double is spelled by its shortest decimal. -/
theorem exists_spells {significand : Nat} (hpos : 0 < significand) (exponent : Int) :
    ∃ p, Spells p (Style.spelled.write significand exponent)
      (shortest .up significand exponent).digits (shortest .up significand exponent).exponent := by
  have htie : Style.spelled.tie = .up := rfl
  rw [Style.write, if_neg (by omega), htie]
  dsimp only
  generalize shortest .up significand exponent = d
  have hvalue := Text.digitsValue?_toDigits (by omega : 1 < 10) (by omega) d.digits
  have hne : Nat.toDigits 10 d.digits ≠ [] := List.ne_nil_of_length_pos Nat.length_toDigits_pos
  have hdigits : ∀ c ∈ Nat.toDigits 10 d.digits, c.isDigit = true := fun c =>
    isDigit_of_mem_toDigits
  have hplace : d.exponent = d.exponent + (Nat.toDigits 10 d.digits).length - 1
      - (Nat.toDigits 10 d.digits).length + 1 := by omega
  generalize d.exponent + (Nat.toDigits 10 d.digits).length - 1 = place at hplace ⊢
  rw [hplace]
  -- small and large places are written with an exponent, all others without
  split
  · exact exists_spells_positional hne hdigits hvalue place
  · exact ⟨_, spells_scientific hne hdigits hvalue place⟩

/-! ## Finite doubles read back -/

variable {d : Double} {significand : Nat} {exponent : Int}

/-- **A finite double is read back from its spelling**, but for the sign. -/
theorem exists_written (h : d.magnitude = .finite significand exponent) :
    ∃ p : Parts, p.Written ∧ Style.spelled.write significand exponent = p.text
      ∧ Numeral.double? p.text = some (ofBits false d.magnitudeBits) := by
  have hencodes := encodes_of_magnitude h
  rcases Nat.eq_zero_or_pos significand with rfl | hpos
  · -- zero has no leading digit to search from and is spelled by itself
    have hbits : d.magnitudeBits = 0 := hencodes.bits_eq
    have hzero : ∀ c ∈ ['0'], c.isDigit = true := fun c hc => isDigit_of_mem_replicate (n := 1) hc
    refine ⟨⟨['0'], ['0'], none⟩, ⟨by simp, hzero, hzero, .inl (by simp)⟩, rfl, ?_⟩
    rw [hbits]
    decide
  · obtain ⟨p, hwritten, htext, number, hnumber, hvalue⟩ := exists_spells hpos exponent
    have hrounds := shortest_roundsTo .up hencodes hpos
    rw [← hvalue] at hrounds
    refine ⟨p, hwritten, htext, ?_⟩
    rw [Parts.double?_text hwritten hnumber, hrounds.ofDecimal_eq hencodes hpos]

end Double

end RowFilter
