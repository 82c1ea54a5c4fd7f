/-
Escapes, by what they denote.

A literal that is not raw is made of characters that stand for themselves and of escapes, each
behind a backslash (`Spells`): some characters denote a byte, and some take a fixed number of
hexadecimal digits with them, which name a byte or a character (`Denotes`). The decoder goes through
a literal one character at a time and judges digits when it has enough of them. Read as a whole it
finds what the literal spells, with one liberty: a plus sign may stand for the first digit
(`SignedNumber`). So it decodes more than there are escapes, but only where an escape has such a
sign (`SignedEscape`).
-/
import Mathlib.Data.List.Forall2
import Mathlib.Data.Nat.Digits.Defs
import RowFilter.Proofs.Expr.Numerals

set_option autoImplicit false

namespace RowFilter

namespace Escape

open Numeral (StandsFor digitsValue?_eq)

variable {mode : Mode} {c : Char} {ds body rest before escape : List Char} {n : Nat}
  {bytes first : List UInt8}

/-! ## Hexadecimal numbers -/

/-- The digits are those of a number, in either case. -/
def HexNumber (ds : List Char) (n : Nat) : Prop :=
  ∃ ns, List.Forall₂ (StandsFor 16) ds ns ∧ n = Nat.ofDigits 16 ns.reverse

/-- The digits are those of a number, or follow a plus sign that stands for the first one. -/
def SignedNumber (ds : List Char) (n : Nat) : Prop :=
  HexNumber ds n ∨ ∃ more, ds = '+' :: more ∧ HexNumber more n

/-- What is read as a hexadecimal digit stands for the value read. -/
theorem standsFor_of_hexDigit? (h : Text.hexDigit? c = some n) : StandsFor 16 c n := by
  have hdigit : Numeral.isHexDigit c = true := by
    unfold Text.hexDigit? at h
    simp only [Numeral.isHexDigit, Char.isDigit, Bool.or_eq_true, Bool.and_eq_true,
      decide_eq_true_eq, ge_iff_le]
    split at h
    · next hc => exact .inl (.inl hc)
    · split at h
      · next hc => exact .inl (.inr hc)
      · split at h
        · next hc => exact .inr hc
        · cases h
  obtain ⟨m, hm⟩ := Numeral.exists_standsFor_of_isHexDigit hdigit
  rw [hm.hexDigit?_eq (Nat.le_refl 16)] at h
  exact Option.some.inj h ▸ hm

/-- What has a value is made of digits. -/
theorem exists_digits_of_value {start : Nat} (h : Text.digitsValue? 16 start ds = some n) :
    ∃ ns, List.Forall₂ (StandsFor 16) ds ns := by
  induction ds generalizing start with
  | nil => exact ⟨[], .nil⟩
  | cons c ds ih =>
      rw [Text.digitsValue?] at h
      -- with one character that is no digit there is no value
      rcases hc : Text.hexDigit? c with _ | d
      · rw [hc] at h
        cases h
      · have hd := standsFor_of_hexDigit? hc
        rw [hc] at h
        dsimp only at h
        rw [if_pos hd.1] at h
        obtain ⟨ns, hns⟩ := ih h
        exact ⟨d :: ns, .cons hd hns⟩

/-- Digits have the value that they stand for, and other texts have none. -/
theorem value_eq_some_iff : Text.digitsValue? 16 0 ds = some n ↔ HexNumber ds n := by
  have hvalue : ∀ {ns : List Nat}, List.Forall₂ (StandsFor 16) ds ns →
      Text.digitsValue? 16 0 ds = some (Nat.ofDigits 16 ns.reverse) := by
    intro ns hns
    rw [digitsValue?_eq (Nat.le_refl 16) hns, Nat.zero_mul, Nat.zero_add]
  constructor
  · intro h
    obtain ⟨ns, hns⟩ := exists_digits_of_value h
    rw [hvalue hns] at h
    exact ⟨ns, hns, (Option.some.inj h).symm⟩
  · rintro ⟨ns, hns, rfl⟩
    exact hvalue hns

/-- A plus sign is no digit. -/
theorem not_hexNumber_plus (ds : List Char) (n : Nat) : ¬ HexNumber ('+' :: ds) n := by
  intro h
  cases value_eq_some_iff.mpr h

/-- A code is a hexadecimal number, perhaps behind a plus sign. -/
theorem code?_eq_some_iff : code? ds = some n ↔ SignedNumber ds n := by
  unfold code?
  split
  · next more =>
      rw [value_eq_some_iff]
      refine ⟨fun h => .inr ⟨more, rfl, h⟩, ?_⟩
      rintro (h | ⟨_, hcons, h⟩)
      · exact absurd h (not_hexNumber_plus more n)
      · rwa [(List.cons.inj hcons).2]
  · next hplus =>
      rw [value_eq_some_iff]
      refine ⟨.inl, ?_⟩
      rintro (h | ⟨more, rfl, -⟩)
      · exact h
      · exact absurd rfl (hplus more)

/-- A number is below the power of sixteen that its digits tell. -/
theorem HexNumber.lt (h : HexNumber ds n) : n < 16 ^ ds.length := by
  obtain ⟨ns, hns, rfl⟩ := h
  have hdigits : ∀ m ∈ ns.reverse, m < 16 := by
    have hall : ∀ m ∈ ns, m < 16 := by
      induction hns with
      | nil => simp
      | cons hc _ ih => exact List.forall_mem_cons.mpr ⟨hc.1, ih⟩
    exact fun m hm => hall m (List.mem_reverse.mp hm)
  rw [hns.length_eq, ← List.length_reverse]
  exact Nat.ofDigits_lt_base_pow_length (by omega) hdigits

/-- A number is below the power of the base for all of its places, the one of the sign included. -/
theorem SignedNumber.lt (h : SignedNumber ds n) : n < 16 ^ ds.length := by
  rcases h with h | ⟨more, rfl, h⟩
  · exact h.lt
  · exact h.lt.trans_le (Nat.pow_le_pow_right (by omega) (Nat.le_succ more.length))

/-! ## What escapes denote -/

/-- The characters that denote a byte behind a backslash. -/
def simpleEscapes : List (Char × UInt8) :=
  [('\\', 0x5C), ('\x22', 0x22), ('\x27', 0x27), ('\x60', 0x60), ('?', 0x3F), ('a', 0x07),
   ('b', 0x08), ('f', 0x0C), ('n', 0x0A), ('r', 0x0D), ('t', 0x09), ('v', 0x0B)]

/-- The characters that take digits with them, and how many. -/
def digitEscapes : Mode → List (Char × Nat)
  | .string => [('x', 2), ('X', 2), ('u', 4), ('U', 8)]
  | .bytes => [('x', 2), ('X', 2)]

/-- `Denotes number mode escape bytes`: what stands behind a backslash denotes the bytes, where
`number` says which digits are those of which number. A number names a byte or a character. -/
inductive Denotes (number : List Char → Nat → Prop) : Mode → List Char → List UInt8 → Prop
  | simple {mode : Mode} {c : Char} {byte : UInt8} (h : (c, byte) ∈ simpleEscapes) :
      Denotes number mode [c] [byte]
  | byte {c : Char} {ds : List Char} {byte : UInt8} (hc : (c, ds.length) ∈ digitEscapes .bytes)
      (h : number ds byte.toNat) : Denotes number .bytes (c :: ds) [byte]
  | character {c : Char} {ds : List Char} {named : Char}
      (hc : (c, ds.length) ∈ digitEscapes .string) (h : number ds named.toNat) :
      Denotes number .string (c :: ds) (String.utf8EncodeChar named)

/-- `Spells number mode body bytes`: the inside of a literal is made of characters that stand for
themselves, in UTF-8, and of escapes, and the bytes are what these denote, one after the other. -/
inductive Spells (number : List Char → Nat → Prop) (mode : Mode) :
    List Char → List UInt8 → Prop
  | nil : Spells number mode [] []
  | plain {c : Char} {rest : List Char} {bytes : List UInt8} (hc : c ≠ '\\')
      (h : Spells number mode rest bytes) :
      Spells number mode (c :: rest) (String.utf8EncodeChar c ++ bytes)
  | escape {escape rest : List Char} {first bytes : List UInt8}
      (he : Denotes number mode escape first) (h : Spells number mode rest bytes) :
      Spells number mode ('\\' :: (escape ++ rest)) (first ++ bytes)

/-- Behind escapes and characters that are in order there is an escape with a plus sign for its
first digit. -/
def SignedEscape (mode : Mode) (body : List Char) : Prop :=
  ∃ before bytes c width rest, body = before ++ '\\' :: c :: '+' :: rest
    ∧ (c, width) ∈ digitEscapes mode ∧ Spells SignedNumber mode before bytes

/-! ## Decoding escapes -/

/-- The escapes of one letter are those of the table. -/
theorem simple?_eq_some_iff {byte : UInt8} :
    simple? c = some byte ↔ (c, byte) ∈ simpleEscapes := by
  constructor
  · intro h
    unfold simple? at h
    split at h <;> first | (obtain rfl := Option.some.inj h; decide) | cases h
  · intro h
    simp only [simpleEscapes, List.mem_cons, List.not_mem_nil, or_false, Prod.mk.injEq] at h
    rcases h with h | h | h | h | h | h | h | h | h | h | h | h <;>
      (obtain ⟨rfl, rfl⟩ := h; rfl)

/-- The letters of digits are no simple escapes, and each has its own number of digits. -/
theorem of_mem_digitEscapes {width : Nat} (h : (c, width) ∈ digitEscapes mode) :
    simple? c = none ∧ width? c = some width ∧ 0 < width ∧ ¬ (mode = .bytes ∧ width ≠ 2) := by
  cases mode <;>
    simp only [digitEscapes, List.mem_cons, List.not_mem_nil, or_false, Prod.mk.injEq] at h
  · rcases h with h | h | h | h <;> (obtain ⟨rfl, rfl⟩ := h; decide)
  · rcases h with h | h <;> (obtain ⟨rfl, rfl⟩ := h; decide)

/-- The letters that take digits are those of the table. Bytes have none with more than two digits.
-/
theorem mem_digitEscapes {width : Nat} (hwidth : width? c = some width)
    (hmode : ¬ (mode = .bytes ∧ width ≠ 2)) : (c, width) ∈ digitEscapes mode := by
  unfold width? at hwidth
  split at hwidth
  · obtain rfl := Option.some.inj hwidth
    cases mode <;> decide
  · obtain rfl := Option.some.inj hwidth
    cases mode <;> decide
  · obtain rfl := Option.some.inj hwidth
    -- four and eight digits are for strings alone
    cases mode with
    | string => decide
    | bytes => exact absurd ⟨rfl, by decide⟩ hmode
  · obtain rfl := Option.some.inj hwidth
    cases mode with
    | string => decide
    | bytes => exact absurd ⟨rfl, by decide⟩ hmode
  · cases hwidth

/-- Digits are judged by the number they are. -/
theorem coded_eq_ok_iff :
    coded mode ds = .ok bytes ↔ ∃ n, SignedNumber ds n ∧
      match mode with
      | .bytes => bytes = [UInt8.ofNat n]
      | .string => ∃ named : Char, named.toNat = n ∧ bytes = String.utf8EncodeChar named := by
  simp only [← code?_eq_some_iff]
  unfold coded
  rcases code? ds with _ | n
  · simp
  · -- two digits are a byte as they stand, while in a string the code has to be that of a character
    cases mode with
    | bytes => simp [eq_comm]
    | string =>
        simp only [scalar, Option.some.injEq, exists_eq_left']
        constructor
        · intro h
          split at h
          · next hvalid =>
              obtain rfl := Except.ok.inj h
              have hnat : (Char.ofNat n).toNat = n := by
                rw [Char.ofNat, dif_pos hvalid]
                rfl
              exact ⟨Char.ofNat n, hnat, rfl⟩
          · cases h
        · rintro ⟨named, rfl, rfl⟩
          have hvalid : named.toNat.isValidChar := named.valid
          rw [if_pos hvalid, Char.ofNat_toNat]

/-- Too few digits are never judged. -/
theorem decodeFrom_short {width : Nat} {taken : List Char}
    (h : taken.length + ds.length < width) :
    decodeFrom mode (.digits width taken) ds = .error (.tooShort width) := by
  induction ds generalizing taken with
  | nil => rfl
  | cons c ds ih =>
      rw [List.length_cons] at h
      rw [decodeFrom, List.length_append, List.length_singleton, if_pos (by omega)]
      exact ih (by rw [List.length_append, List.length_singleton]; omega)

/-- A letter that takes digits, with as many of them as it takes. -/
theorem decodeFrom_digitEscape (hc : (c, ds.length) ∈ digitEscapes mode) :
    decodeFrom mode .plain ('\\' :: c :: (ds ++ rest)) =
      match coded mode ds with
      | .error fault => .error fault
      | .ok bytes => (decodeFrom mode .plain rest).map (bytes ++ ·) := by
  obtain ⟨hsimple, hwidth, hpos, hmode⟩ := of_mem_digitEscapes hc
  rw [decodeFrom, if_pos rfl, decodeFrom, hsimple, hwidth]
  dsimp only
  rw [if_neg hmode, decodeFrom_digits (List.length_pos_iff.mp hpos) (Nat.zero_add _)]
  rfl

/-- An escape is decoded to what it denotes. -/
theorem Denotes.decodeFrom_eq (h : Denotes SignedNumber mode escape first) (rest : List Char) :
    decodeFrom mode .plain ('\\' :: (escape ++ rest))
      = (decodeFrom mode .plain rest).map (first ++ ·) := by
  -- a letter of the table, or a letter with its digits in the mode in question
  cases h with
  | @simple _ c byte h =>
      rw [decodeFrom, if_pos rfl, List.singleton_append, decodeFrom, simple?_eq_some_iff.mpr h]
      rfl
  | @byte c ds byte hc h =>
      have hcoded : coded .bytes ds = .ok [byte] :=
        coded_eq_ok_iff.mpr ⟨byte.toNat, h, by rw [UInt8.ofNat_toNat]⟩
      rw [List.cons_append, decodeFrom_digitEscape hc, hcoded]
  | @character c ds named hc h =>
      have hcoded : coded .string ds = .ok (String.utf8EncodeChar named) :=
        coded_eq_ok_iff.mpr ⟨named.toNat, h, named, rfl, rfl⟩
      rw [List.cons_append, decodeFrom_digitEscape hc, hcoded]

/-- What is spelled is decoded. -/
theorem Spells.decodeFrom_eq (h : Spells SignedNumber mode body bytes) :
    decodeFrom mode .plain body = .ok bytes := by
  induction h with
  | nil => rfl
  | plain hc _ ih =>
      rw [decodeFrom, if_neg hc, ih]
      rfl
  | escape he _ ih =>
      rw [he.decodeFrom_eq, ih]
      rfl

/-- Digits that are taken for bytes are those of an escape. -/
theorem denotes_of_coded (hc : (c, ds.length) ∈ digitEscapes mode) (h : coded mode ds = .ok first) :
    Denotes SignedNumber mode (c :: ds) first := by
  obtain ⟨n, hn, hfirst⟩ := coded_eq_ok_iff.mp h
  cases mode with
  | bytes =>
      obtain rfl := hfirst
      have hlength : ds.length = 2 := by
        simp only [digitEscapes, List.mem_cons, List.not_mem_nil, or_false, Prod.mk.injEq] at hc
        rcases hc with hc | hc <;> exact hc.2
      -- two digits fit in a byte, so none of the code is lost
      have hlt : n < 256 := by
        have h := hn.lt
        rwa [hlength] at h
      refine .byte hc ?_
      rwa [UInt8.toNat_ofNat_of_lt' hlt]
  | string =>
      obtain ⟨named, rfl, rfl⟩ := hfirst
      exact .character hc hn

/-- What follows an escape has been decoded if the whole has. -/
theorem exists_of_map_ok {result : Except Fault (List UInt8)}
    (h : result.map (first ++ ·) = .ok bytes) : ∃ more, result = .ok more ∧ bytes = first ++ more := by
  rcases result with fault | more
  · cases h
  · exact ⟨more, rfl, (Except.ok.inj h).symm⟩

/-- An escape that is decoded denotes something, and what is behind it is decoded by itself. -/
theorem exists_escape_of_decodeFrom (h : decodeFrom mode .escaped body = .ok bytes) :
    ∃ escape rest first more, body = escape ++ rest ∧ Denotes SignedNumber mode escape first
      ∧ decodeFrom mode .plain rest = .ok more ∧ bytes = first ++ more := by
  cases body with
  | nil => cases h
  | cons c rest =>
      rw [decodeFrom] at h
      rcases hsimple : simple? c with _ | byte
      · rcases hwidth : width? c with _ | width
        · rw [hsimple, hwidth] at h
          cases h
        · rw [hsimple, hwidth] at h
          dsimp only at h
          split at h
          · cases h
          · next hmode =>
              have hc := mem_digitEscapes hwidth hmode
              by_cases hshort : rest.length < width
              · rw [decodeFrom_short (by rw [List.length_nil]; omega)] at h
                cases h
              · -- the digits, and what is left behind them
                have hlength : (rest.take width).length = width :=
                  List.length_take_of_le (Nat.le_of_not_lt hshort)
                obtain ⟨-, -, hpos, -⟩ := of_mem_digitEscapes hc
                rw [← List.take_append_drop width rest,
                  decodeFrom_digits (List.length_pos_iff.mp (by omega))
                    (by rw [hlength, List.length_nil, Nat.zero_add]), List.nil_append] at h
                rw [← hlength] at hc
                rcases hcoded : coded mode (rest.take width) with fault | first
                · rw [hcoded] at h
                  cases h
                · rw [hcoded] at h
                  obtain ⟨more, hmore, rfl⟩ := exists_of_map_ok h
                  exact ⟨c :: rest.take width, rest.drop width, first, more,
                    by rw [List.cons_append, List.take_append_drop],
                    denotes_of_coded hc hcoded, hmore, rfl⟩
      · rw [hsimple] at h
        have hrest : ((decodeFrom mode .plain rest).map ([byte] ++ ·)) = .ok bytes := h
        obtain ⟨more, hmore, rfl⟩ := exists_of_map_ok hrest
        exact ⟨[c], rest, [byte], more, rfl, .simple (simple?_eq_some_iff.mp hsimple), hmore, rfl⟩

/-- What is decoded is spelled. -/
theorem spells_of_decodeFrom (h : decodeFrom mode .plain body = .ok bytes) :
    Spells SignedNumber mode body bytes := by
  -- an escape takes several characters at once
  induction hn : body.length using Nat.strong_induction_on generalizing body bytes with
  | h n ih =>
    cases body with
    | nil =>
        obtain rfl := Except.ok.inj h
        exact .nil
    | cons c rest =>
        rw [List.length_cons] at hn
        rw [decodeFrom] at h
        by_cases hc : c = '\\'
        · subst hc
          rw [if_pos rfl] at h
          obtain ⟨escape, rest, first, more, rfl, hdenotes, hmore, rfl⟩ :=
            exists_escape_of_decodeFrom h
          rw [List.length_append] at hn
          exact .escape hdenotes (ih _ (by omega) hmore rfl)
        · rw [if_neg hc] at h
          obtain ⟨more, hmore, rfl⟩ := exists_of_map_ok h
          exact .plain hc (ih _ (by omega) hmore rfl)

/-- **The decoder finds what is spelled**, with signs taken for digits. -/
theorem decode_eq_ok_iff : decode mode body = .ok bytes ↔ Spells SignedNumber mode body bytes :=
  ⟨spells_of_decodeFrom, Spells.decodeFrom_eq⟩

/-! ## Signs -/

/-- Digits without a sign may be read as digits with one. -/
theorem Denotes.signed (h : Denotes HexNumber mode escape first) :
    Denotes SignedNumber mode escape first := by
  cases h with
  | simple h => exact .simple h
  | byte hc h => exact .byte hc (.inl h)
  | character hc h => exact .character hc (.inl h)

theorem Spells.signed (h : Spells HexNumber mode body bytes) :
    Spells SignedNumber mode body bytes := by
  induction h with
  | nil => exact .nil
  | plain hc _ ih => exact .plain hc ih
  | escape he _ ih => exact .escape he.signed ih

/-- An escape has digits without a sign, or a sign for its first digit. -/
theorem Denotes.hex_or_sign (h : Denotes SignedNumber mode escape first) :
    Denotes HexNumber mode escape first
      ∨ ∃ c width more, escape = c :: '+' :: more ∧ (c, width) ∈ digitEscapes mode := by
  cases h with
  | simple h => exact .inl (.simple h)
  | byte hc h =>
      rcases h with h | ⟨more, rfl, -⟩
      · exact .inl (.byte hc h)
      · exact .inr ⟨_, _, more, rfl, hc⟩
  | character hc h =>
      rcases h with h | ⟨more, rfl, -⟩
      · exact .inl (.character hc h)
      · exact .inr ⟨_, _, more, rfl, hc⟩

/-- Digits without a sign do not begin with one. -/
theorem HexNumber.ne_sign (h : HexNumber ds n) (hpos : 0 < ds.length) :
    ds ++ rest ≠ '+' :: body := by
  intro heq
  obtain ⟨d, more, rfl⟩ := List.exists_cons_of_length_pos hpos
  obtain ⟨rfl, -⟩ := List.cons.inj heq
  exact not_hexNumber_plus more n h

/-- An escape without signs does not go on with one behind its letter. -/
theorem Denotes.ne_sign {width : Nat} (h : Denotes HexNumber mode escape first)
    (hc : (c, width) ∈ digitEscapes mode) : escape ++ rest ≠ c :: '+' :: body := by
  intro heq
  cases h with
  | simple h =>
      -- the letters that take digits are not among the simple escapes
      obtain ⟨rfl, -⟩ := List.cons.inj heq
      have hsimple := (of_mem_digitEscapes hc).1
      rw [simple?_eq_some_iff.mpr h] at hsimple
      cases hsimple
  | byte hmem h =>
      obtain ⟨-, -, hpos, -⟩ := of_mem_digitEscapes hmem
      exact h.ne_sign hpos (List.cons.inj heq).2
  | character hmem h =>
      obtain ⟨-, -, hpos, -⟩ := of_mem_digitEscapes hmem
      exact h.ne_sign hpos (List.cons.inj heq).2

/-- How long an escape is shows in its first character. -/
theorem Denotes.width_eq {number : List Char → Nat → Prop} (h : Denotes number mode escape first) :
    ∃ c ds, escape = c :: ds ∧ ds.length = (width? c).getD 0 := by
  cases h with
  | @simple _ c byte h =>
      refine ⟨c, [], rfl, ?_⟩
      have hall : ∀ p ∈ simpleEscapes, (width? p.1).getD 0 = 0 := by decide
      exact (hall _ h).symm
  | byte hc _ | character hc _ =>
      obtain ⟨-, hwidth, -⟩ := of_mem_digitEscapes hc
      exact ⟨_, _, rfl, by rw [hwidth, Option.getD_some]⟩

/-- No escape is the beginning of another one. -/
theorem Denotes.append_inj {number number' : List Char → Nat → Prop} {escape' rest' : List Char}
    {first' : List UInt8} (h : Denotes number mode escape first)
    (h' : Denotes number' mode escape' first') (heq : escape ++ rest = escape' ++ rest') :
    escape = escape' ∧ rest = rest' := by
  obtain ⟨c, ds, rfl, hds⟩ := h.width_eq
  obtain ⟨c', ds', rfl, hds'⟩ := h'.width_eq
  obtain rfl : c = c' := (List.cons.inj heq).1
  exact List.append_inj heq (by rw [List.length_cons, List.length_cons, hds, hds'])

section Spelled

variable {number : List Char → Nat → Prop}

/-- Behind a character that is no backslash the literal goes on. -/
theorem Spells.behind (hc : c ≠ '\\') (h : Spells number mode (c :: rest) bytes) :
    ∃ more, Spells number mode rest more := by
  generalize htext : c :: rest = text at h
  cases h with
  | nil => cases htext
  | plain _ h =>
      obtain ⟨rfl, rfl⟩ := List.cons.inj htext
      exact ⟨_, h⟩
  | escape _ _ => exact absurd (List.cons.inj htext).1 hc

/-- Behind a backslash stands an escape, and behind this the literal goes on. -/
theorem Spells.behind_backslash (h : Spells number mode ('\\' :: body) bytes) :
    ∃ escape rest first more, body = escape ++ rest ∧ Denotes number mode escape first
      ∧ Spells number mode rest more := by
  generalize htext : '\\' :: body = text at h
  cases h with
  | nil => cases htext
  | plain hc _ =>
      obtain ⟨rfl, -⟩ := List.cons.inj htext
      exact absurd rfl hc
  | escape he h =>
      obtain ⟨-, rfl⟩ := List.cons.inj htext
      exact ⟨_, _, _, _, rfl, he, h⟩

end Spelled

/-- Where everything is spelled without signs, no escape has one. -/
theorem Spells.not_signedEscape (h : Spells HexNumber mode body bytes) :
    ¬ SignedEscape mode body := by
  rintro ⟨before, others, c, width, rest, rfl, hc, hbefore⟩
  -- both readings go through the text in front of the sign step by step
  induction hbefore generalizing bytes with
  | nil =>
      obtain ⟨escape, behind, first, more, hbehind, hdenotes, -⟩ := h.behind_backslash
      exact hdenotes.ne_sign hc hbehind.symm
  | plain hne _ ih =>
      obtain ⟨more, hmore⟩ := h.behind hne
      exact ih hmore
  | escape he _ ih =>
      obtain ⟨escape, behind, first, more, hbehind, hdenotes, hmore⟩ := h.behind_backslash
      obtain ⟨-, rfl⟩ := he.append_inj hdenotes ((List.append_assoc _ _ _).symm.trans hbehind)
      exact ih hmore

/-- What is in order up to a place is in order in front of an escape that ends there. -/
theorem SignedEscape.behind_escape (he : Denotes SignedNumber mode escape first)
    (h : SignedEscape mode rest) : SignedEscape mode ('\\' :: (escape ++ rest)) := by
  obtain ⟨before, bytes, c, width, behind, rfl, hc, hbefore⟩ := h
  refine ⟨'\\' :: (escape ++ before), _, c, width, behind, ?_, hc, .escape he hbefore⟩
  rw [List.cons_append, List.append_assoc]

/-- A plain character in front does not hide a signed escape. -/
theorem SignedEscape.behind_plain (hne : c ≠ '\\') (h : SignedEscape mode rest) :
    SignedEscape mode (c :: rest) := by
  obtain ⟨before, bytes, d, width, behind, rfl, hd, hbefore⟩ := h
  exact ⟨c :: before, _, d, width, behind, rfl, hd, .plain hne hbefore⟩

/-- Where no escape has a sign, everything is spelled without signs. -/
theorem Spells.hex (h : Spells SignedNumber mode body bytes) (hsign : ¬ SignedEscape mode body) :
    Spells HexNumber mode body bytes := by
  induction h with
  | nil => exact .nil
  | plain hc _ ih => exact .plain hc (ih fun hrest => hsign (hrest.behind_plain hc))
  | escape he _ ih =>
      refine .escape ?_ (ih fun hrest => hsign (hrest.behind_escape he))
      rcases he.hex_or_sign with hhex | ⟨c, width, more, rfl, hc⟩
      · exact hhex
      · exact absurd ⟨[], [], c, width, _, rfl, hc, .nil⟩ hsign

/-! ## Whole literals -/

/-- What a literal spells as a text is the UTF-8 of characters. -/
theorem Spells.exists_text (h : Spells SignedNumber .string body bytes) :
    ∃ s : List Char, bytes = s.flatMap String.utf8EncodeChar := by
  -- the bytes of the table are those of characters, as they are all below 128
  have hsimple : ∀ p ∈ simpleEscapes,
      [p.2] = String.utf8EncodeChar (Char.ofNat p.2.toNat) := by decide
  induction h with
  | nil => exact ⟨[], rfl⟩
  | @plain c _ _ hc _ ih =>
      obtain ⟨s, rfl⟩ := ih
      exact ⟨c :: s, rfl⟩
  | escape he _ ih =>
      obtain ⟨s, rfl⟩ := ih
      cases he with
      | @simple _ c byte h =>
          refine ⟨Char.ofNat byte.toNat :: s, ?_⟩
          rw [List.flatMap_cons, ← hsimple _ h]
      | @character c ds named _ _ => exact ⟨named :: s, rfl⟩

/-- The quotes that a literal stands between. -/
def quoteMarks : List Char := ['\x22', '\x27']

/-- A literal with one of the quotes around it is decoded inside them. -/
theorem literal_between (hc : c ∈ quoteMarks) (body : List Char) :
    literal mode (c :: (body ++ [c])) = decode mode body := by
  have hraw : c ≠ 'r' ∧ c ≠ 'R' := by
    have hall : ∀ c ∈ quoteMarks, c ≠ 'r' ∧ c ≠ 'R' := by simp [quoteMarks]
    exact hall c hc
  unfold literal
  split
  · next h => exact absurd (List.cons.inj h).1 hraw.1
  · next h => exact absurd (List.cons.inj h).1 hraw.2
  · rw [inside_between]

/-- A text has the bytes of no other text. -/
theorem utf8_inj {s t : List Char}
    (h : s.flatMap String.utf8EncodeChar = t.flatMap String.utf8EncodeChar) : s = t := by
  have hread := fromUTF8?_flatMap s
  rw [h, fromUTF8?_flatMap] at hread
  exact (String.ofList_injective (Option.some.inj hread)).symm

/-- A string token stands for the text whose UTF-8 its inside is decoded to. -/
theorem string_eq_ok_iff (hc : c ∈ quoteMarks) {s : String} :
    string (c :: (body ++ [c])) = .ok s
      ↔ decode .string body = .ok (s.toList.flatMap String.utf8EncodeChar) := by
  rw [string, literal_between hc]
  -- what has been decoded is always the text of some characters
  rcases hdecode : decode .string body with fault | bytes
  · simp
  · obtain ⟨text, rfl⟩ := (decode_eq_ok_iff.mp hdecode).exists_text
    dsimp only
    rw [fromUTF8?_flatMap]
    dsimp only
    constructor
    · intro h
      obtain rfl := Except.ok.inj h
      rw [String.toList_ofList]
    · intro h
      rw [utf8_inj (Except.ok.inj h), String.ofList_toList]

/-- **Escapes are decoded exactly**, signs apart. A literal of either kind is decoded if and only if
it is made of characters that stand for themselves and of escapes, a plus sign being taken for the
first digit of an escape, and then to what these denote, one after the other. Without that liberty
it is the same: what is spelled with digits alone is what is decoded and has no escape with a sign.
A token is decoded inside its quotes, and a string token stands for the text with these bytes. -/
theorem decode_exactly (mode : Mode) (body : List Char) :
    (∀ bytes, decode mode body = .ok bytes ↔ Spells SignedNumber mode body bytes)
      ∧ (∀ bytes, Spells HexNumber mode body bytes ↔
          decode mode body = .ok bytes ∧ ¬ SignedEscape mode body)
      ∧ ∀ c ∈ quoteMarks,
        (∀ s, string (c :: (body ++ [c])) = .ok s ↔
          decode .string body = .ok (s.toList.flatMap String.utf8EncodeChar))
        ∧ ∀ b, Escape.bytes (b :: c :: (body ++ [c])) = decode .bytes body := by
  refine ⟨fun bytes => decode_eq_ok_iff, fun bytes => ?_, fun c hc => ⟨fun s => ?_, fun b => ?_⟩⟩
  · rw [decode_eq_ok_iff]
    exact ⟨fun h => ⟨h.signed, h.not_signedEscape⟩, fun ⟨h, hsign⟩ => h.hex hsign⟩
  · exact string_eq_ok_iff hc
  · rw [Escape.bytes, List.drop_succ_cons, List.drop_zero, literal_between hc]

/-- A character of two bytes and its escape, and an escape of a whole quote. -/
theorem decode_exactly_quote : '\x27' ∈ quoteMarks
    ∧ string "'\u00e9\\u00E9\\X27'".toList = .ok "\u00e9\u00e9'"
    ∧ ∀ bytes, ¬ Spells SignedNumber .string "\\uD800".toList bytes := by
  have hquote : '\x27' ∈ quoteMarks := by decide
  obtain ⟨-, -, htoken⟩ := decode_exactly .string "\u00e9\\u00E9\\X27".toList
  obtain ⟨hsurrogate, -⟩ := decode_exactly .string "\\uD800".toList
  refine ⟨hquote, ((htoken '\x27' hquote).1 "\u00e9\u00e9'").mpr (by decide), fun bytes h => ?_⟩
  cases (hsurrogate bytes).mpr h

/-- A sign is taken for the first of two digits: the grammar admits the literal, it is decoded, and
no escape is spelled like that. -/
theorem sign_taken_for_digit :
    Grammar.quotedString.split? "\"\\x+1\"".toList = some ("\"\\x+1\"".toList, [])
      ∧ string "\"\\x+1\"".toList = .ok "\x01"
      ∧ ∀ bytes, ¬ Spells HexNumber .string "\\x+1".toList bytes := by
  refine ⟨by decide, by decide, fun bytes h => ?_⟩
  obtain ⟨escape, rest, first, more, htext, hdenotes, -⟩ := h.behind_backslash
  exact hdenotes.ne_sign (by decide : ('x', 2) ∈ digitEscapes .string) htext.symm

end Escape

end RowFilter
