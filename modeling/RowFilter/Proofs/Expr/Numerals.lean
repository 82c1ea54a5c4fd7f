/-
Numerals and the numbers they stand for.

What a numeral denotes is said by positional notation alone (`Denotes`): decimal digits, or
hexadecimal digits of either case behind `0x` or `0X`, each weighted by its place. The reader of
digits computes that number (`Denotes.value?_eq`), and a numeral by itself is one integer token, a
numeral with `u` or `U` behind it one unsigned token, and neither is a double.
-/
import Mathlib.Data.Nat.Digits.Defs
import RowFilter.Proofs.Expr.Literals
import RowFilter.Proofs.Grammar.Tokens

set_option autoImplicit false

namespace RowFilter.Numeral

/-! ## Positional notation -/

/-- A character stands for a digit of the base, letters in either case. -/
def StandsFor (base : Nat) (c : Char) (n : Nat) : Prop :=
  n < base ∧ (c = n.digitChar ∨ c = n.digitChar.toUpper)

instance (base : Nat) (c : Char) (n : Nat) : Decidable (StandsFor base c n) :=
  inferInstanceAs (Decidable (_ ∧ _))

/-- A numeral denotes a number. The digits are weighted from the last one on. -/
inductive Denotes : List Char → Nat → Prop
  | decimal {ds : List Char} {ns : List Nat} (hne : ds ≠ [])
      (h : List.Forall₂ (StandsFor 10) ds ns) : Denotes ds (Nat.ofDigits 10 ns.reverse)
  | hexadecimal {x : Char} {ds : List Char} {ns : List Nat} (hx : x ∈ ['x', 'X']) (hne : ds ≠ [])
      (h : List.Forall₂ (StandsFor 16) ds ns) :
      Denotes ('0' :: x :: ds) (Nat.ofDigits 16 ns.reverse)

/-- What holds of the digits of a base, in both cases, holds of what stands for one. -/
theorem StandsFor.of_digits {base n : Nat} {c : Char} (h : StandsFor base c n)
    (p : Char → Nat → Prop)
    (hp : ∀ d : Fin base, p d.val.digitChar d.val ∧ p d.val.digitChar.toUpper d.val) : p c n := by
  rcases h.2 with rfl | rfl
  · exact (hp ⟨n, h.1⟩).1
  · exact (hp ⟨n, h.1⟩).2

/-- A digit is read as the number that it stands for. -/
theorem StandsFor.hexDigit?_eq {base n : Nat} {c : Char} (hbase : base ≤ 16)
    (h : StandsFor base c n) : Text.hexDigit? c = some n := by
  have hall : ∀ d : Fin 16, Text.hexDigit? d.val.digitChar = some d.val
      ∧ Text.hexDigit? d.val.digitChar.toUpper = some d.val := by decide
  exact h.of_digits (fun c n => Text.hexDigit? c = some n)
    fun d => hall ⟨d.val, d.isLt.trans_le hbase⟩

/-- What stands for a number below ten is a decimal digit. -/
theorem StandsFor.isDigit {n : Nat} {c : Char} (h : StandsFor 10 c n) : c.isDigit = true := by
  have hall : ∀ d : Fin 10, d.val.digitChar.isDigit = true
      ∧ d.val.digitChar.toUpper.isDigit = true := by decide
  exact h.of_digits (fun c _ => c.isDigit = true) hall

/-- The characters that the grammar takes for hexadecimal digits. -/
def isHexDigit (c : Char) : Bool := c.isDigit || ('a' ≤ c && c ≤ 'f') || ('A' ≤ c && c ≤ 'F')

theorem StandsFor.isHexDigit {n : Nat} {c : Char} (h : StandsFor 16 c n) :
    Numeral.isHexDigit c = true := by
  have hall : ∀ d : Fin 16, Numeral.isHexDigit d.val.digitChar = true
      ∧ Numeral.isHexDigit d.val.digitChar.toUpper = true := by decide
  exact h.of_digits (fun c _ => Numeral.isHexDigit c = true) hall

/-- What holds of every digit holds of all that stand for a list of numbers. -/
theorem all_of_forall₂ {base : Nat} {ds : List Char} {ns : List Nat} {p : Char → Prop}
    (h : List.Forall₂ (StandsFor base) ds ns) (hp : ∀ c n, StandsFor base c n → p c) :
    ∀ c ∈ ds, p c := by
  induction h with
  | nil => simp
  | @cons c n ds ns hhead _ ih => exact List.forall_mem_cons.mpr ⟨hp c n hhead, ih⟩

/-- Characters in a row of `count` characters. -/
theorem exists_ofNat_of_between {c first last : Char} (hfirst : first ≤ c) (hlast : c ≤ last) :
    ∃ k ≤ last.toNat - first.toNat, c = Char.ofNat (first.toNat + k) := by
  have hlow : first.toNat ≤ c.toNat := hfirst
  have hhigh : c.toNat ≤ last.toNat := hlast
  refine ⟨c.toNat - first.toNat, by omega, ?_⟩
  rw [Nat.add_sub_cancel' hlow, Char.ofNat_toNat]

/-- Conversely a decimal digit stands for a number. -/
theorem exists_standsFor_of_isDigit {base : Nat} (hbase : 10 ≤ base) {c : Char}
    (h : c.isDigit = true) : ∃ n, StandsFor base c n := by
  have hall : ∀ k ≤ '9'.toNat - '0'.toNat,
      k < 10 ∧ Char.ofNat ('0'.toNat + k) = k.digitChar := by decide
  have hbounds : '0' ≤ c ∧ c ≤ '9' := by
    simp only [Char.isDigit, Bool.and_eq_true, decide_eq_true_eq, ge_iff_le] at h
    exact h
  obtain ⟨k, hk, rfl⟩ := exists_ofNat_of_between hbounds.1 hbounds.2
  exact ⟨k, (hall k hk).1.trans_le hbase, .inl (hall k hk).2⟩

/-- So does a hexadecimal one. -/
theorem exists_standsFor_of_isHexDigit {c : Char} (h : isHexDigit c = true) :
    ∃ n, StandsFor 16 c n := by
  have hlower : ∀ k ≤ 'f'.toNat - 'a'.toNat,
      10 + k < 16 ∧ Char.ofNat ('a'.toNat + k) = (10 + k).digitChar := by decide
  have hupper : ∀ k ≤ 'F'.toNat - 'A'.toNat,
      10 + k < 16 ∧ Char.ofNat ('A'.toNat + k) = (10 + k).digitChar.toUpper := by decide
  simp only [isHexDigit, Bool.or_eq_true, Bool.and_eq_true, decide_eq_true_eq] at h
  rcases h with (h | ⟨hfirst, hlast⟩) | ⟨hfirst, hlast⟩
  · exact exists_standsFor_of_isDigit (by decide) h
  · obtain ⟨k, hk, rfl⟩ := exists_ofNat_of_between hfirst hlast
    exact ⟨10 + k, (hlower k hk).1, .inl (hlower k hk).2⟩
  · obtain ⟨k, hk, rfl⟩ := exists_ofNat_of_between hfirst hlast
    exact ⟨10 + k, (hupper k hk).1, .inr (hupper k hk).2⟩

/-- And a list of digits for a list of numbers. -/
theorem exists_forall₂ {base : Nat} {ds : List Char} (h : ∀ c ∈ ds, ∃ n, StandsFor base c n) :
    ∃ ns, List.Forall₂ (StandsFor base) ds ns := by
  induction ds with
  | nil => exact ⟨[], .nil⟩
  | cons c ds ih =>
      obtain ⟨n, hn⟩ := h c List.mem_cons_self
      obtain ⟨ns, hns⟩ := ih fun c hc => h c (List.mem_cons_of_mem _ hc)
      exact ⟨n :: ns, .cons hn hns⟩

/-- Every run of decimal digits is a numeral, and every run of hexadecimal digits behind `0x`. -/
theorem exists_denotes {ds : List Char} (hne : ds ≠ []) :
    ((∀ c ∈ ds, c.isDigit = true) → ∃ v, Denotes ds v)
      ∧ ((∀ c ∈ ds, isHexDigit c = true) → ∀ x ∈ ['x', 'X'], ∃ v, Denotes ('0' :: x :: ds) v) := by
  constructor
  · intro h
    have hstands : ∀ c ∈ ds, ∃ n, StandsFor 10 c n := fun c hc =>
      exists_standsFor_of_isDigit (Nat.le_refl 10) (h c hc)
    obtain ⟨ns, hns⟩ := exists_forall₂ hstands
    exact ⟨_, .decimal hne hns⟩
  · intro h x hx
    obtain ⟨ns, hns⟩ := exists_forall₂ fun c hc => exists_standsFor_of_isHexDigit (h c hc)
    exact ⟨_, .hexadecimal hx hne hns⟩

/-! ## Reading -/

/-- Reading on from a number behind which the digits stand. -/
theorem digitsValue?_eq {base : Nat} (hbase : base ≤ 16) {ds : List Char} {ns : List Nat}
    (h : List.Forall₂ (StandsFor base) ds ns) (start : Nat) :
    Text.digitsValue? base start ds
      = some (start * base ^ ns.length + Nat.ofDigits base ns.reverse) := by
  -- the start is general, since every digit moves what has been read one place up
  induction h generalizing start with
  | nil => simp [Text.digitsValue?]
  | @cons c n ds ns hhead _ ih =>
      rw [Text.digitsValue?, hhead.hexDigit?_eq hbase]
      dsimp only
      rw [if_pos hhead.1, ih, List.length_cons, List.reverse_cons, Nat.ofDigits_append,
        Nat.ofDigits_singleton, List.length_reverse]
      congr 1
      ring

/-- **The value of a numeral.** What is computed from the digits is what they denote. -/
theorem Denotes.value?_eq {ds : List Char} {v : Nat} (h : Denotes ds v) : value? ds = some v := by
  have hzero : ∀ {base : Nat} {ns : List Nat},
      0 * base ^ ns.length + Nat.ofDigits base ns.reverse = Nat.ofDigits base ns.reverse := by
    intro base ns
    rw [Nat.zero_mul, Nat.zero_add]
  -- decimal digits, or hexadecimal ones behind their mark
  cases h with
  | decimal _ h =>
      rw [value?, radix_of_digits (all_of_forall₂ h fun c n => StandsFor.isDigit)]
      exact (digitsValue?_eq (by omega) h 0).trans (congrArg some hzero)
  | @hexadecimal x ds ns hx _ h =>
      have hradix : radix ('0' :: x :: ds) = (16, ds) := by
        simp only [List.mem_cons, List.not_mem_nil, or_false] at hx
        rcases hx with rfl | rfl <;> rfl
      rw [value?, hradix]
      exact (digitsValue?_eq (by omega) h 0).trans (congrArg some hzero)

/-- The characters of numerals. -/
def isNumeralChar (c : Char) : Bool := isHexDigit c || c == 'x' || c == 'X'

/-- The characters of a numeral are digits and the letter of its mark. -/
theorem Denotes.isNumeralChar {ds : List Char} {v : Nat} (h : Denotes ds v) :
    ∀ c ∈ ds, isNumeralChar c = true := by
  have hhex : ∀ {c : Char}, isHexDigit c = true → Numeral.isNumeralChar c = true := by
    intro c hc
    rw [Numeral.isNumeralChar, hc]
    rfl
  cases h with
  | decimal _ h =>
      intro c hc
      refine hhex ?_
      rw [isHexDigit, all_of_forall₂ h (fun _ _ => StandsFor.isDigit) c hc]
      rfl
  | hexadecimal hx _ h =>
      intro c hc
      rcases List.mem_cons.mp hc with rfl | hc
      · rfl
      · rcases List.mem_cons.mp hc with rfl | hc
        · simp only [List.mem_cons, List.not_mem_nil, or_false] at hx
          rcases hx with rfl | rfl <;> rfl
        · exact hhex (all_of_forall₂ h (fun _ _ => StandsFor.isHexDigit) c hc)

/-- What is no character of numerals does not stand in one. -/
theorem Denotes.not_mem {ds others : List Char} {v : Nat} (h : Denotes ds v)
    (hothers : others.all (fun c => !Numeral.isNumeralChar c) = true) : ∀ c ∈ ds, c ∉ others := by
  intro c hc hother
  have hnot := List.all_eq_true.mp hothers c hother
  rw [h.isNumeralChar c hc] at hnot
  cases hnot

/-- A number that fits is read without its sign. -/
theorem Denotes.int?_eq {ds : List Char} {v : Nat} (h : Denotes ds v) :
    int? false ds = if v < Nat.pow 2 63 then some (Int64.ofInt v) else none := by
  rw [int?, h.value?_eq]
  rfl

/-- A number that fits is read with its sign. -/
theorem Denotes.int?_neg {ds : List Char} {v : Nat} (h : Denotes ds v) :
    int? true ds = if v ≤ Nat.pow 2 63 then some (Int64.ofInt (-v)) else none := by
  rw [int?, h.value?_eq]
  rfl

/-- With the suffix it is read as an unsigned integer, up to the greatest. -/
theorem Denotes.uint?_eq {ds : List Char} {v : Nat} (h : Denotes ds v) {suffix : Char}
    (hsuffix : suffix ∈ ['u', 'U']) :
    uint? (ds ++ [suffix]) = if v < UInt64.size then some (UInt64.ofNat v) else none := by
  rw [uint?, withoutSuffix_append hsuffix (h.not_mem rfl), h.value?_eq]

end RowFilter.Numeral

/-! ## Numerals as tokens -/

namespace RowFilter.Grammar

open Pattern
open Numeral (Denotes StandsFor isHexDigit)

variable {d tail : List Char} {v : Nat}

theorem split?_some1_run {accepts : Char → Bool} {ds rest : List Char} (hne : ds ≠ [])
    (hall : ∀ c ∈ ds, accepts c = true) (hrest : ∀ c ∈ rest.head?, accepts c = false) :
    (some1 (one accepts)).split? (ds ++ rest) = some (ds, rest) := by
  obtain ⟨c, more, rfl⟩ := List.exists_cons_of_ne_nil hne
  have hmany := split?_many_run (fun d hd => hall d (List.mem_cons_of_mem _ hd)) hrest
  refine split?_seq_eq_some_iff.mpr ⟨[c], more ++ rest, more, ?_, hmany, rfl⟩
  exact split?_one_eq_some_iff.mpr ⟨c, hall c List.mem_cons_self, rfl, rfl⟩

/-- What may stand behind a numeral that is all of a token, or all of it but the suffix. -/
def numeralEnds : List (List Char) := [[], ['u'], ['U']]

/-- A numeral may be all of its token. -/
theorem nil_mem_numeralEnds : [] ∈ numeralEnds := by decide

/-- Or it has one of the two letters behind it. -/
theorem suffix_mem_numeralEnds {suffix : Char} (h : suffix ∈ ['u', 'U']) :
    [suffix] ∈ numeralEnds := by
  simp only [List.mem_cons, List.not_mem_nil, or_false] at h
  rcases h with rfl | rfl <;> decide

/-- What holds of both letters holds of the one behind a numeral. -/
theorem of_numeralEnds (htail : tail ∈ numeralEnds) (p : Char → Bool)
    (hp : p 'u' = true ∧ p 'U' = true) : ∀ c ∈ tail.head?, p c = true := by
  simp only [numeralEnds, List.mem_cons, List.not_mem_nil, or_false] at htail
  rcases htail with rfl | rfl | rfl
  · rintro c ⟨⟩
  · rintro c ⟨⟩
    exact hp.1
  · rintro c ⟨⟩
    exact hp.2

/-- A decimal numeral is a run of digits that ends there. -/
theorem digits_denotes {ns : List Nat} (hne : d ≠ []) (h : List.Forall₂ (StandsFor 10) d ns)
    (htail : tail ∈ numeralEnds) : Digits d tail where
  nonempty := hne
  all := Numeral.all_of_forall₂ h fun _ _ => StandsFor.isDigit
  stop c hc := Bool.not_inj (of_numeralEnds htail (fun c => !c.isDigit) ⟨rfl, rfl⟩ c hc)

/-- A numeral is an integer, and no double. -/
theorem split?_denotes (h : Denotes d v) (htail : tail ∈ numeralEnds) :
    intLiteral.split? (d ++ tail) = some (d, tail)
      ∧ doubleLiteral.split? (d ++ tail) = none := by
  cases h with
  | decimal hne h =>
      have hdigits := digits_denotes hne h htail
      exact ⟨hdigits.int (of_numeralEnds htail (letter 'x' 'X').rejects ⟨rfl, rfl⟩),
        hdigits.not_double (of_numeralEnds htail (char '.').rejects ⟨rfl, rfl⟩)
          (of_numeralEnds htail exponent.rejects ⟨rfl, rfl⟩)⟩
  | @hexadecimal x ds ns hx hne h =>
      have hrun : (some1 hexDigit).split? (ds ++ tail) = some (ds, tail) := by
        refine split?_some1_run hne (Numeral.all_of_forall₂ h fun _ _ => StandsFor.isHexDigit) ?_
        exact fun c hc =>
          Bool.not_inj (of_numeralEnds htail (fun c => !isHexDigit c) ⟨rfl, rfl⟩ c hc)
      -- to the other readers the numeral is a zero with a letter behind it
      have hzero : Digits ['0'] (x :: (ds ++ tail)) := by
        refine ⟨by simp, by simp, ?_⟩
        rintro c ⟨⟩
        simp only [List.mem_cons, List.not_mem_nil, or_false] at hx
        rcases hx with rfl | rfl <;> rfl
      have hletter : (letter 'x' 'X').split? (x :: (ds ++ tail)) = some ([x], ds ++ tail)
          ∧ (char '.').rejects x = true ∧ exponent.rejects x = true := by
        simp only [List.mem_cons, List.not_mem_nil, or_false] at hx
        rcases hx with rfl | rfl <;> exact ⟨rfl, rfl, rfl⟩
      have hhex : hexDigits.split? ('0' :: x :: (ds ++ tail)) = some ('0' :: x :: ds, tail) :=
        split?_seq_eq_some_iff.mpr ⟨['0'], _, x :: ds, rfl,
          split?_seq_eq_some_iff.mpr ⟨[x], _, ds, hletter.1, hrun, rfl⟩, rfl⟩
      refine ⟨split?_alt_eq_some_iff.mpr (.inl hhex), ?_⟩
      refine hzero.not_double ?_ ?_
      · rintro c ⟨⟩
        exact hletter.2.1
      · rintro c ⟨⟩
        exact hletter.2.2

/-- A numeral by itself is no unsigned number. -/
theorem not_uint_denotes (h : Denotes d v) : uintLiteral.split? (d ++ []) = none := by
  have hint := (split?_denotes h nil_mem_numeralEnds).1
  rw [uintLiteral, split?, show (alt hexDigits digits).split? (d ++ []) = some (d, []) from hint]
  rfl

/-- A numeral with a suffix is an unsigned number. -/
theorem uint_denotes (h : Denotes d v) {suffix : Char} (hsuffix : suffix ∈ ['u', 'U']) :
    uintLiteral.split? (d ++ [suffix]) = some (d ++ [suffix], []) := by
  have hint := (split?_denotes h (suffix_mem_numeralEnds hsuffix)).1
  refine split?_seq_eq_some_iff.mpr ⟨d, [suffix], [suffix], hint, ?_, rfl⟩
  simp only [List.mem_cons, List.not_mem_nil, or_false] at hsuffix
  rcases hsuffix with rfl | rfl <;> rfl

/-- A numeral begins with decimal digits, if only with the zero of `0x`. -/
theorem exists_digits_denotes (h : Denotes d v) (htail : tail ∈ numeralEnds) :
    ∃ ds rest, d = ds ++ rest ∧ Digits ds (rest ++ tail) := by
  cases h with
  | decimal hne h => exact ⟨d, [], (List.append_nil d).symm, digits_denotes hne h htail⟩
  | @hexadecimal x ds ns hx hne h =>
      refine ⟨['0'], x :: ds, rfl, by simp, by simp, ?_⟩
      rintro c ⟨⟩
      simp only [List.mem_cons, List.not_mem_nil, or_false] at hx
      rcases hx with rfl | rfl <;> rfl

end RowFilter.Grammar
