/-
Tokens can be read.

A token is matched by its pattern first and read by its value later, by readers that know nothing of
the patterns and have an answer for texts that are no tokens. Here is what a pattern promises to the
reader: an integer is a numeral (`denotes_of_intLiteral`), so the value is missing only where it is
out of range; a double has a value always (`double?_of_doubleLiteral`); and a quoted literal stands
between two delimiters, with a character behind every backslash (`Quoted`), so nothing is wrong with
it but its escapes (`Quoted.invalid_of_literal`). That holds although the digits of an escape are
taken whatever they are: a window of digits with a backslash in it is no number, and then the
literal is refused for that (`State.Fed`).
-/
import RowFilter.Proofs.Expr.Doubles
import RowFilter.Proofs.Expr.Escapes

set_option autoImplicit false

namespace RowFilter.Grammar

open Pattern

variable {text w rest : List Char}

/-! ## Integers -/

/-- **An integer token is a numeral.** -/
theorem denotes_of_intLiteral (h : intLiteral.split? text = some (w, rest)) :
    ∃ v, Numeral.Denotes w v := by
  rcases split?_alt_eq_some_iff.mp h with h | ⟨-, h⟩
  · obtain ⟨_, _, _, hzero, hmore, rfl⟩ := split?_seq_eq_some_iff.mp h
    obtain ⟨_, _, ds, hletter, hdigits, rfl⟩ := split?_seq_eq_some_iff.mp hmore
    obtain rfl := eq_of_char hzero
    obtain ⟨x, hx, rfl⟩ := mem_of_letter hletter
    obtain ⟨hne, hall⟩ := run_of_some1 hdigits
    exact (Numeral.exists_denotes hne).2 hall x hx
  · obtain ⟨hne, hall⟩ := run_of_some1 h
    exact (Numeral.exists_denotes hne).1 hall

/-- An unsigned token is a numeral with its suffix. -/
theorem denotes_of_uintLiteral (h : uintLiteral.split? text = some (w, rest)) :
    ∃ d v, ∃ suffix ∈ ['u', 'U'], w = d ++ [suffix] ∧ Numeral.Denotes d v := by
  obtain ⟨d, _, _, hint, hletter, rfl⟩ := split?_seq_eq_some_iff.mp h
  obtain ⟨v, hv⟩ := denotes_of_intLiteral hint
  obtain ⟨suffix, hsuffix, rfl⟩ := mem_of_letter hletter
  exact ⟨d, v, suffix, hsuffix, rfl, hv⟩

end RowFilter.Grammar

/-! ## Doubles -/

namespace RowFilter.Numeral

open Grammar (run_of_some1 eq_of_char mem_of_letter)
open Grammar.Pattern

variable {text w rest whole fraction behind ds : List Char}

/-- Digits have a value. -/
theorem exists_value_of_digits (h : ∀ c ∈ ds, c.isDigit = true) :
    ∃ v, Text.digitsValue? 10 0 ds = some v := by
  obtain ⟨ns, hns⟩ :=
    exists_forall₂ fun c hc => exists_standsFor_of_isDigit (Nat.le_refl 10) (h c hc)
  exact ⟨_, digitsValue?_eq (by decide) hns 0⟩

/-- What may stand behind the digits of a double: nothing, or an exponent with a value. -/
structure IsExponent (behind : List Char) : Prop where
  letter : ∀ c ∈ behind.head?, c ∈ ['e', 'E']
  value : ∃ e, Parts.exponentOf? behind = some e

/-- No digit stands at the front of an exponent. -/
theorem IsExponent.stops (h : IsExponent behind) : ∀ c ∈ behind.head?, c.isDigit = false := by
  have hall : ∀ c ∈ ['e', 'E'], c.isDigit = false := by simp
  exact fun c hc => hall c (h.letter c hc)

theorem isExponent_nil : IsExponent [] := ⟨by rintro c ⟨⟩, 0, rfl⟩

/-- An exponent is read with its sign, if it has one. -/
theorem exists_exponent {sign : List Char} (hsign : sign ∈ [[], ['+'], ['-']])
    (h : ∀ c ∈ ds, c.isDigit = true) : ∃ e, exponent? (sign ++ ds) = some e := by
  obtain ⟨v, hv⟩ := exists_value_of_digits h
  simp only [List.mem_cons, List.not_mem_nil, or_false] at hsign
  rcases hsign with rfl | rfl | rfl
  · -- without a sign the first character is a digit, so none is read
    have hnone : ∀ c ∈ ['-', '+'], ∀ more, ds ≠ c :: more := by
      rintro c hc more rfl
      have hdigit := h c List.mem_cons_self
      simp only [List.mem_cons, List.not_mem_nil, or_false] at hc
      rcases hc with rfl | rfl <;> cases hdigit
    rw [List.nil_append, exponent?, hv]
    · exact ⟨_, rfl⟩
    · exact fun more => hnone '-' (by simp) more
    · exact fun more => hnone '+' (by simp) more
  · exact ⟨_, by rw [List.singleton_append, exponent?, hv]; rfl⟩
  · exact ⟨_, by rw [List.singleton_append, exponent?, hv]; rfl⟩

/-- What the grammar takes for an exponent is one. -/
theorem isExponent_of_exponent (h : Grammar.exponent.split? text = some (w, rest)) :
    IsExponent w := by
  obtain ⟨_, _, _, hletter, hmore, rfl⟩ := split?_seq_eq_some_iff.mp h
  obtain ⟨sign, _, ds, hsign, hdigits, rfl⟩ := split?_seq_eq_some_iff.mp hmore
  obtain ⟨c, hc, rfl⟩ := mem_of_letter hletter
  -- the sign is a plus, a minus or missing
  have hmem : sign ∈ [[], ['+'], ['-']] := by
    rcases split?_optional_eq_some_iff.mp hsign with hsign | ⟨-, hnone⟩
    · rcases split?_alt_eq_some_iff.mp hsign with hplus | ⟨-, hminus⟩
      · rw [eq_of_char hplus]
        decide
      · rw [eq_of_char hminus]
        decide
    · rw [(Prod.mk.inj hnone).1]
      decide
  obtain ⟨e, he⟩ := exists_exponent hmem (run_of_some1 hdigits).2
  have hvalue : Parts.exponentOf? (c :: (sign ++ ds)) = some e := by
    simp only [List.mem_cons, List.not_mem_nil, or_false] at hc
    rcases hc with rfl | rfl <;> exact he
  refine ⟨?_, e, hvalue⟩
  rintro _ ⟨⟩
  exact hc

theorem isExponent_of_optional
    (h : (optional Grammar.exponent).split? text = some (w, rest)) : IsExponent w := by
  rcases split?_optional_eq_some_iff.mp h with hexponent | ⟨-, hnone⟩
  · exact isExponent_of_exponent hexponent
  · rw [(Prod.mk.inj hnone).1]
    exact isExponent_nil

/-- Digits and an exponent have a value. -/
theorem exists_valued (hds : ∀ c ∈ ds, c.isDigit = true) (hbehind : IsExponent behind)
    (places : Nat) : ∃ d, Parts.valued ds (Parts.exponentOf? behind) places = some d := by
  obtain ⟨v, hv⟩ := exists_value_of_digits hds
  obtain ⟨e, he⟩ := hbehind.value
  rw [he]
  exact ⟨_, Parts.valued_of_some hv e places⟩

/-- Digits have a value, with or without an exponent. -/
theorem exists_double_of_digits (hwhole : ∀ c ∈ whole, c.isDigit = true)
    (hbehind : IsExponent behind) : ∃ d, double? (whole ++ behind) = some d := by
  have hspan := Parts.span_digits hwhole hbehind.stops
  have hdigits : ∀ c ∈ whole ++ [], c.isDigit = true := by rwa [List.append_nil]
  have hvalued := exists_valued hdigits hbehind 0
  rw [double?]
  simp only [hspan.1, hspan.2]
  -- no point follows the digits
  cases behind with
  | nil => exact hvalued
  | cons c more =>
      have hc := hbehind.letter c rfl
      simp only [List.mem_cons, List.not_mem_nil, or_false] at hc
      rcases hc with rfl | rfl <;> exact hvalued

/-- Digits around a point have a value, with or without an exponent. -/
theorem exists_double_of_point (hwhole : ∀ c ∈ whole, c.isDigit = true)
    (hfraction : ∀ c ∈ fraction, c.isDigit = true) (hbehind : IsExponent behind) :
    ∃ d, double? (whole ++ '.' :: (fraction ++ behind)) = some d := by
  have hpoint : ∀ c ∈ ('.' :: (fraction ++ behind)).head?, c.isDigit = false := by
    rintro c ⟨⟩
    rfl
  -- the digits end at the point, and those behind it at the exponent
  have hspan := Parts.span_digits hwhole hpoint
  have hspan' := Parts.span_digits hfraction hbehind.stops
  have hdigits : ∀ c ∈ whole ++ fraction, c.isDigit = true := by
    intro c hc
    exact (List.mem_append.mp hc).elim (hwhole c) (hfraction c)
  rw [double?]
  simp only [hspan.1, hspan.2, hspan'.1, hspan'.2]
  exact exists_valued hdigits hbehind fraction.length

/-- **A double token has a value.** -/
theorem double?_of_doubleLiteral (h : Grammar.doubleLiteral.split? text = some (w, rest)) :
    ∃ d, double? w = some d := by
  -- the point, its digits and an exponent are common to two of the three forms
  have hfraction : ∀ {text w rest : List Char},
      (seq (char '.') (seq Grammar.digits (optional Grammar.exponent))).split? text
        = some (w, rest) → ∃ fraction behind, w = '.' :: (fraction ++ behind)
          ∧ (∀ c ∈ fraction, c.isDigit = true) ∧ IsExponent behind := by
    intro text w rest h
    obtain ⟨_, _, _, hpoint, hmore, rfl⟩ := split?_seq_eq_some_iff.mp h
    obtain ⟨fraction, _, behind, hdigits, hexponent, rfl⟩ := split?_seq_eq_some_iff.mp hmore
    obtain rfl := eq_of_char hpoint
    exact ⟨fraction, behind, rfl, (run_of_some1 hdigits).2, isExponent_of_optional hexponent⟩
  rcases split?_alt_eq_some_iff.mp h with h | ⟨-, h⟩
  · obtain ⟨whole, _, _, hwhole, hmore, rfl⟩ := split?_seq_eq_some_iff.mp h
    obtain ⟨fraction, behind, rfl, hall, hbehind⟩ := hfraction hmore
    exact exists_double_of_point (run_of_some1 hwhole).2 hall hbehind
  · rcases split?_alt_eq_some_iff.mp h with h | ⟨-, h⟩
    · obtain ⟨whole, _, behind, hwhole, hexponent, rfl⟩ := split?_seq_eq_some_iff.mp h
      exact exists_double_of_digits (run_of_some1 hwhole).2 (isExponent_of_exponent hexponent)
    · obtain ⟨fraction, behind, rfl, hall, hbehind⟩ := hfraction h
      -- without digits in front of the point
      have hnone : ∀ c ∈ ([] : List Char), c.isDigit = true := by simp
      exact exists_double_of_point hnone hall hbehind

end RowFilter.Numeral

/-! ## Quoted literals -/

namespace RowFilter.Escape

open Grammar (eq_of_char mem_of_letter)
open Grammar.Pattern

variable {mode : Mode} {text w rest body : List Char} {fault : Fault}

/-- A backslash takes the next character with it, whatever this is. -/
inductive Paired : List Char → Prop
  | nil : Paired []
  | plain {c : Char} {rest : List Char} (hc : c ≠ '\\') (h : Paired rest) : Paired (c :: rest)
  | pair (c : Char) {rest : List Char} (h : Paired rest) : Paired ('\\' :: c :: rest)

/-- A quoted literal: between two delimiters, and either marked as raw or without a backslash that
would take the second one with it. -/
inductive Quoted : List Char → Prop
  | raw {mark delimiter : Char} {body : List Char} (hmark : mark ∈ ['r', 'R']) :
      Quoted (mark :: delimiter :: (body ++ [delimiter]))
  | escaped {delimiter : Char} {body : List Char} (hdelimiter : delimiter ∈ quoteMarks)
      (h : Paired body) : Quoted (delimiter :: (body ++ [delimiter]))

/-- What is wrong with an escape, and that it is. -/
inductive Fault.Invalid : Fault → Prop
  | unknown {c : Char} (hsimple : simple? c = none) (hwidth : width? c = none) :
      Invalid (.unknown c)
  | tooShort {c : Char} {width : Nat} (hc : width? c = some width) : Invalid (.tooShort width)
  | notHex {ds : List Char} (h : ∀ n, ¬ SignedNumber ds n) : Invalid (.notHex ds)
  | notScalar {code : Nat} (h : ¬ code.isValidChar) : Invalid (.notScalar code)
  | notInBytes {c : Char} {width : Nat} (hc : width? c = some width) (hwidth : width ≠ 2) :
      Invalid (.notInBytes c)

/-! ### Patterns -/

/-- Between two delimiters stands what the pattern takes. -/
theorem between_of_delimited {delimiter : Char} {p : Grammar.Pattern}
    (h : (seq (char delimiter) (seq p (char delimiter))).split? text = some (w, rest)) :
    ∃ text body rest, p.split? text = some (body, rest)
      ∧ w = delimiter :: (body ++ [delimiter]) := by
  obtain ⟨_, _, _, hfirst, hmore, rfl⟩ := split?_seq_eq_some_iff.mp h
  obtain ⟨body, _, _, hbody, hlast, rfl⟩ := split?_seq_eq_some_iff.mp hmore
  obtain rfl := eq_of_char hfirst
  obtain rfl := eq_of_char hlast
  exact ⟨_, body, _, hbody, rfl⟩

/-- A raw string is quoted, behind its letter. -/
theorem quoted_of_rawString (h : Grammar.rawString.split? text = some (w, rest)) : Quoted w := by
  obtain ⟨_, _, _, hletter, hmore, rfl⟩ := split?_seq_eq_some_iff.mp h
  obtain ⟨mark, hmark, rfl⟩ := mem_of_letter hletter
  rcases split?_alt_eq_some_iff.mp hmore with hbody | ⟨-, hbody⟩
  · obtain ⟨_, body, _, -, rfl⟩ := between_of_delimited hbody
    exact .raw hmark
  · obtain ⟨_, body, _, -, rfl⟩ := between_of_delimited hbody
    exact .raw hmark

/-- In a quoted literal every backslash has a character behind it. -/
theorem paired_of_quotedBody {delimiter : Char}
    (h : (Grammar.quotedBody delimiter).split? text = some (w, rest)) :
    ∃ body, w = delimiter :: (body ++ [delimiter]) ∧ Paired body := by
  obtain ⟨_, body, _, hbody, rfl⟩ := between_of_delimited h
  refine ⟨body, rfl, split?_many_induction (motive := fun _ taken _ => Paired taken) hbody
    (fun _ => .nil) fun text taken middle more rest hitem hmore => ?_⟩
  -- a backslash is taken with what it escapes, and no other one can be taken
  rcases split?_alt_eq_some_iff.mp hitem with hpair | ⟨-, hplain⟩
  · obtain ⟨_, _, _, hbackslash, hany, rfl⟩ := split?_seq_eq_some_iff.mp hpair
    obtain rfl := eq_of_char hbackslash
    obtain ⟨c, -, rfl, -⟩ := split?_one_eq_some_iff.mp hany
    exact .pair c hmore
  · obtain ⟨c, hc, rfl, -⟩ := split?_one_eq_some_iff.mp hplain
    refine .plain ?_ hmore
    rintro rfl
    simp at hc

/-- **A string token is a quoted literal.** -/
theorem quoted_of_stringLiteral (h : Grammar.stringLiteral.split? text = some (w, rest)) :
    Quoted w := by
  rcases split?_alt_eq_some_iff.mp h with hraw | ⟨-, hquoted⟩
  · exact quoted_of_rawString hraw
  · rcases split?_alt_eq_some_iff.mp hquoted with hbody | ⟨-, hbody⟩
    · obtain ⟨body, rfl, hpaired⟩ := paired_of_quotedBody hbody
      exact .escaped (by decide) hpaired
    · obtain ⟨body, rfl, hpaired⟩ := paired_of_quotedBody hbody
      exact .escaped (by decide) hpaired

/-- A byte token is a quoted literal behind a letter. -/
theorem quoted_of_bytesLiteral (h : Grammar.bytesLiteral.split? text = some (w, rest)) :
    Quoted (w.drop 1) := by
  obtain ⟨_, _, _, hletter, hquoted, rfl⟩ := split?_seq_eq_some_iff.mp h
  obtain ⟨_, -, rfl⟩ := mem_of_letter hletter
  exact quoted_of_stringLiteral hquoted

/-! ### Decoding -/

/-- What may be left of the inside of a literal when the decoder stands in a state. -/
inductive State.Fed : State → List Char → Prop
  | plain {rest : List Char} (h : Paired rest) : Fed .plain rest
  | escaped (c : Char) {rest : List Char} (h : Paired rest) : Fed .escaped (c :: rest)
  /-- A backslash among the digits has taken a character with it, and spoils the number. -/
  | digits {c : Char} {width : Nat} {taken rest : List Char} (hc : width? c = some width)
      (h : '\\' ∈ taken ∨ Paired rest) : Fed (.digits width taken) rest

/-- The digits of a hexadecimal number are hexadecimal. -/
theorem isHexDigit_of_hexNumber {ds : List Char} {n : Nat} (h : HexNumber ds n) :
    ∀ c ∈ ds, Numeral.isHexDigit c = true := by
  obtain ⟨ns, hns, -⟩ := h
  exact Numeral.all_of_forall₂ hns fun _ _ => Numeral.StandsFor.isHexDigit

/-- A number has no backslash in it. -/
theorem SignedNumber.not_mem {ds : List Char} {n : Nat} (h : SignedNumber ds n) : '\\' ∉ ds := by
  intro hmem
  rcases h with h | ⟨more, rfl, h⟩
  · cases isHexDigit_of_hexNumber h _ hmem
  · rcases List.mem_cons.mp hmem with heq | hmem
    · cases heq
    · cases isHexDigit_of_hexNumber h _ hmem

/-- Digits that are refused are those of no number, or of one that is no character. -/
theorem invalid_of_coded {ds : List Char} (h : coded mode ds = .error fault) : fault.Invalid := by
  -- the code is no number, or it is none of a character
  unfold coded at h
  split at h
  · next hcode =>
      obtain rfl := Except.error.inj h
      refine .notHex fun n hn => ?_
      rw [code?_eq_some_iff.mpr hn] at hcode
      cases hcode
  · split at h
    · cases h
    · unfold scalar at h
      split at h
      · cases h
      · next hvalid =>
          obtain rfl := Except.error.inj h
          exact .notScalar hvalid

/-- Digits have no backslash among them. -/
theorem not_mem_of_coded {ds : List Char} {bytes : List UInt8} (h : coded mode ds = .ok bytes) :
    '\\' ∉ ds := by
  obtain ⟨n, hn, -⟩ := coded_eq_ok_iff.mp h
  exact hn.not_mem

/-- What is made of a result fails only if the result does. -/
theorem error_of_map {result : Except Fault (List UInt8)} {f : List UInt8 → List UInt8}
    (h : result.map f = .error fault) : result = .error fault := by
  rcases result with err | bytes
  · exact h
  · cases h

/-- **Decoding fails for invalid escapes only**, as long as every backslash has a character behind
it. -/
theorem invalid_of_decodeFrom {s : State} (hfed : s.Fed text)
    (h : decodeFrom mode s text = .error fault) : fault.Invalid := by
  -- a character at a time, and every step leaves the decoder fed
  induction text generalizing s with
  | nil =>
      cases hfed with
      | plain => cases h
      | digits hletter _ =>
          obtain rfl := Except.error.inj h
          exact .tooShort hletter
  | cons c rest ih =>
      cases hfed with
      | plain hpaired =>
          rw [decodeFrom] at h
          cases hpaired with
          | plain hc hrest =>
              rw [if_neg hc] at h
              exact ih (.plain hrest) (error_of_map h)
          | pair d hrest =>
              rw [if_pos rfl] at h
              exact ih (.escaped d hrest) h
      | escaped _ hrest =>
          rw [decodeFrom] at h
          split at h
          · exact ih (.plain hrest) (error_of_map h)
          · next hsimple hwidth =>
              obtain rfl := Except.error.inj h
              exact .unknown hsimple hwidth
          · next width _ hwidth =>
              split at h
              · next hbytes =>
                  obtain rfl := Except.error.inj h
                  exact .notInBytes hwidth hbytes.2
              · exact ih (.digits hwidth (.inr hrest)) h
      | @digits _ width taken _ hletter hleft =>
          have hnext : '\\' ∈ taken ++ [c] ∨ Paired rest := by
            rcases hleft with hmem | hpaired
            · exact .inl (List.mem_append_left _ hmem)
            · cases hpaired with
              | plain _ hrest => exact .inr hrest
              | pair _ _ => exact .inl (List.mem_append_right _ List.mem_cons_self)
          rw [decodeFrom] at h
          split at h
          · exact ih (.digits hletter hnext) h
          · split at h
            · next hcoded =>
                obtain rfl := Except.error.inj h
                exact invalid_of_coded hcoded
            · next hcoded =>
                -- a window without a backslash leaves the pairs as they are
                exact ih (.plain (hnext.resolve_left (not_mem_of_coded hcoded))) (error_of_map h)

/-- A literal that is marked as raw is taken as it stands. -/
theorem literal_raw {mark : Char} (hmark : mark ∈ ['r', 'R']) (c : Char) (body : List Char) :
    literal mode (mark :: c :: (body ++ [c])) = .ok (plain body) := by
  simp only [List.mem_cons, List.not_mem_nil, or_false] at hmark
  rcases hmark with rfl | rfl <;> rw [literal, inside_between] <;> rfl

/-- What is wrong with a quoted literal is wrong with one of its escapes. -/
theorem Quoted.invalid_of_literal (hw : Quoted w) (h : literal mode w = .error fault) :
    fault.Invalid := by
  cases hw with
  | raw hmark =>
      rw [literal_raw hmark] at h
      cases h
  | escaped hdelimiter hpaired =>
      rw [literal_between hdelimiter] at h
      exact invalid_of_decodeFrom (.plain hpaired) h

/-! ### Texts -/

/-- **What is decoded as a text is one**, in UTF-8, whatever the literal looks like. -/
theorem exists_text_of_literal {bytes : List UInt8} (h : literal .string w = .ok bytes) :
    ∃ s : List Char, bytes = s.flatMap String.utf8EncodeChar := by
  have hplain : ∀ {quoted : List Char}, (inside quoted).map plain = .ok bytes →
      ∃ s : List Char, bytes = s.flatMap String.utf8EncodeChar := by
    intro quoted h
    rcases hinside : inside quoted with fault | body
    · rw [hinside] at h
      cases h
    · rw [hinside] at h
      exact ⟨body, (Except.ok.inj h).symm⟩
  unfold literal at h
  -- a raw literal is the text between its quotes, the others have been decoded
  split at h
  · exact hplain h
  · exact hplain h
  · split at h
    · cases h
    · exact (decode_eq_ok_iff.mp h).exists_text

/-- A quoted string is refused for an escape that is invalid, and for nothing else. -/
theorem Quoted.invalid_of_string (hw : Quoted w) (h : string w = .error fault) :
    fault.Invalid := by
  rw [string] at h
  split at h
  · next hliteral =>
      obtain rfl := Except.error.inj h
      exact hw.invalid_of_literal hliteral
  · next bytes hliteral =>
      obtain ⟨s, rfl⟩ := exists_text_of_literal hliteral
      rw [fromUTF8?_flatMap] at h
      cases h

/-- An escape may take a backslash for a digit and is refused for that; the quote behind is not
lost. -/
example : string "\"\\x\\\\\"".toList = .error (.notHex ['\\', '\\']) := by decide

end RowFilter.Escape
