/-
How single tokens are read.

Most tokens end where a character stands that cannot belong to them, and in front of such a
character they are read as they are by themselves (`Pattern.split?_append_of_avoids`). So a name is
a name in front of a blank, a bracket or a dot; digits are an integer in front of a blank or a
bracket, and no double; and a quoted text whose quotes are escaped ends with its own quote.
-/
import RowFilter.Grammar.Filter
import RowFilter.Proofs.Grammar.Patterns

set_option autoImplicit false

namespace RowFilter.Grammar

open Pattern

/-- The characters that end a token which is not quoted. -/
def stops : List Char := [' ', '(', ')', ',', ']']

/-- A text in front of which a token ends. -/
def Stopped (tail : List Char) : Prop := ∀ c ∈ tail.head?, c ∈ stops

/-- A text with such a character at its front stops a token. -/
theorem stopped_cons {c : Char} (hc : c ∈ stops) (rest : List Char) : Stopped (c :: rest) := by
  rintro _ ⟨⟩
  exact hc

/-- What holds of every character that ends a token holds of the one that does. -/
theorem of_stopped {tail : List Char} (h : Stopped tail) (p : Char → Bool)
    (hp : stops.all p = true) : ∀ c ∈ tail.head?, p c = true :=
  fun c hc => List.all_eq_true.mp hp c (h c hc)

variable {text w tail rest name ds : List Char} {c : Char}

/-- A token in front of a text where it ends. -/
theorem split?_stopped {p : Pattern} (hp : p.avoids stops = true) (hsteady : p.steady = true)
    (htail : Stopped tail) (text : List Char) :
    p.split? (text ++ tail) = (p.split? text).map fun found => (found.1, found.2 ++ tail) :=
  split?_append_of_avoids hp hsteady htail text

/-! ## Names -/

/-- The characters that end a word; a selection may follow one. -/
def wordStops : List Char := '.' :: stops

/-- A text in front of which a word ends. -/
def Ended (tail : List Char) : Prop := ∀ c ∈ tail.head?, c ∈ wordStops

/-- What stops a token ends a name. -/
theorem Stopped.ended (h : Stopped tail) : Ended tail := fun c hc => List.mem_cons_of_mem _ (h c hc)

theorem ended_dot (rest : List Char) : Ended ('.' :: rest) := by
  rintro _ ⟨⟩
  exact List.mem_cons_self

/-- A word in front of a text where it ends. -/
theorem split?_ended {p : Pattern} (hp : p.avoids wordStops = true) (hsteady : p.steady = true)
    (htail : Ended tail) (text : List Char) :
    p.split? (text ++ tail) = (p.split? text).map fun found => (found.1, found.2 ++ tail) :=
  split?_append_of_avoids hp hsteady htail text

/-- The grammar takes the whole text for a name. -/
def IsName (name : List Char) : Prop := identifier.split? name = some (name, [])

/-- A name is taken where it ends. -/
theorem IsName.split?_eq (h : IsName name) (htail : Ended tail) :
    identifier.split? (name ++ tail) = some (name, tail) := by
  rw [split?_ended rfl rfl htail, h]
  rfl

/-- What a name is made of. -/
theorem IsName.cases (h : IsName name) :
    (seq reserved («unless» identChar)).split? name = none ∧
      ∃ c more, name = c :: more ∧ (c.isAlpha || c == '_') = true
        ∧ ∀ d ∈ more, (d.isAlphanum || d == '_') = true := by
  obtain ⟨left, middle, right, htest, hword, -⟩ := split?_seq_eq_some_iff.mp h
  obtain ⟨hreserved, hpair⟩ := split?_unless_eq_some_iff.mp htest
  obtain ⟨rfl, rfl⟩ := Prod.mk.inj hpair
  obtain ⟨first, between, more, hfirst, hmore, hname⟩ := split?_seq_eq_some_iff.mp hword
  obtain ⟨c, hc, rfl, rfl⟩ := split?_one_eq_some_iff.mp hfirst
  rw [identChar, split?_many_one, Option.some.injEq, Prod.mk.injEq] at hmore
  -- all of the name has been taken, so the repetition has taken all that it was given
  have hall : between.takeWhile (fun d => d.isAlphanum || d == '_') = between := by
    have happend := List.takeWhile_append_dropWhile
      (p := fun d => d.isAlphanum || d == '_') (l := between)
    rwa [hmore.2, List.append_nil] at happend
  refine ⟨hreserved, c, between, rfl, hc, fun d hd => ?_⟩
  rw [← hall] at hd
  exact List.all_eq_true.mp List.all_takeWhile d hd

/-! ## Letters and runs -/

/-- What one fixed character takes is that character. -/
theorem eq_of_char {c : Char} (h : (Pattern.char c).split? text = some (w, rest)) : w = [c] := by
  obtain ⟨d, hd, rfl, -⟩ := split?_one_eq_some_iff.mp h
  rw [eq_of_beq hd]

/-- A letter is taken large or small. -/
theorem mem_of_letter {lower upper : Char}
    (h : (letter lower upper).split? text = some (w, rest)) : ∃ c ∈ [lower, upper], w = [c] := by
  rcases split?_alt_eq_some_iff.mp h with h | ⟨-, h⟩
  · exact ⟨lower, List.mem_cons_self, eq_of_char h⟩
  · exact ⟨upper, List.mem_cons_of_mem _ List.mem_cons_self, eq_of_char h⟩

/-- What a repetition of characters takes is one character or more of its kind. -/
theorem run_of_some1 {accepts : Char → Bool}
    (h : (some1 (one accepts)).split? text = some (w, rest)) :
    w ≠ [] ∧ ∀ c ∈ w, accepts c = true := by
  obtain ⟨left, middle, right, hfirst, hmore, rfl⟩ := split?_seq_eq_some_iff.mp h
  obtain ⟨c, hc, rfl, rfl⟩ := split?_one_eq_some_iff.mp hfirst
  rw [split?_many_one, Option.some.injEq, Prod.mk.injEq] at hmore
  refine ⟨List.cons_ne_nil _ _, List.forall_mem_cons.mpr ⟨hc, ?_⟩⟩
  rw [← hmore.1]
  exact List.all_eq_true.mp List.all_takeWhile

/-! ## Digits -/

/-- Characters of a kind are taken up to the first that is not of it. -/
theorem split?_many_run {accepts : Char → Bool} (hall : ∀ d ∈ ds, accepts d = true)
    (hrest : ∀ c ∈ rest.head?, accepts c = false) :
    (many (one accepts)).split? (ds ++ rest) = some (ds, rest) := by
  have hstop : rest.takeWhile accepts = [] ∧ rest.dropWhile accepts = rest := by
    cases rest with
    | nil => exact ⟨rfl, rfl⟩
    | cons c more =>
        have hc : ¬ accepts c = true := by simp [hrest c rfl]
        exact ⟨List.takeWhile_cons_of_neg hc, List.dropWhile_cons_of_neg hc⟩
  rw [split?_many_one, List.takeWhile_append_of_pos hall, List.dropWhile_append_of_pos hall,
    hstop.1, hstop.2, List.append_nil]

/-- The ten digits. -/
theorem mem_digits {d : Char} (hd : d.isDigit = true) : d ∈ "0123456789".toList := by
  have hall : ∀ n : Fin 10, Char.ofNat (48 + n.val) ∈ "0123456789".toList := by decide
  simp only [Char.isDigit, Bool.and_eq_true, decide_eq_true_eq, ge_iff_le,
    UInt32.le_iff_toNat_le] at hd
  have hlow : 48 ≤ d.toNat := hd.1
  have hhigh : d.toNat ≤ 57 := hd.2
  have hmem := hall ⟨d.toNat - 48, by omega⟩
  rwa [Nat.add_sub_cancel' hlow, Char.ofNat_toNat] at hmem

/-- What holds of every digit in a list of them holds of a digit. -/
theorem of_isDigit (p : Char → Bool) (hp : "0123456789".toList.all p = true) {d : Char}
    (hd : d.isDigit = true) : p d = true :=
  List.all_eq_true.mp hp d (mem_digits hd)

/-- A number in front of a text: it has digits, and they are all of it. -/
structure Digits (ds rest : List Char) : Prop where
  nonempty : ds ≠ []
  all : ∀ d ∈ ds, d.isDigit = true
  stop : ∀ c ∈ rest.head?, c.isDigit = false

/-- A run of digits is taken as a whole. -/
theorem Digits.digits_eq (h : Digits ds rest) : digits.split? (ds ++ rest) = some (ds, rest) := by
  obtain ⟨d, more, rfl⟩ := List.exists_cons_of_ne_nil h.nonempty
  have hd : d.isDigit = true := h.all d List.mem_cons_self
  have hmany : (many digit).split? (more ++ rest) = some (more, rest) :=
    split?_many_run (fun d hd => h.all d (List.mem_cons_of_mem _ hd)) h.stop
  refine split?_seq_eq_some_iff.mpr ⟨[d], more ++ rest, more, ?_, hmany, rfl⟩
  exact split?_one_eq_some_iff.mpr ⟨d, hd, rfl, rfl⟩

/-- What rejects every digit does not match a number. -/
theorem Digits.rejected (h : Digits ds rest) {p : Pattern}
    (hp : "0123456789".toList.all p.rejects = true) : p.split? (ds ++ rest) = none := by
  obtain ⟨d, more, rfl⟩ := List.exists_cons_of_ne_nil h.nonempty
  have hd : d.isDigit = true := h.all d List.mem_cons_self
  exact split?_of_rejects (of_isDigit p.rejects hp hd) _

/-- Decimal digits are no hexadecimal number: no letter `x` follows the first. -/
theorem Digits.not_hex (h : Digits ds rest)
    (hletter : ∀ c ∈ rest.head?, (letter 'x' 'X').rejects c = true) :
    hexDigits.split? (ds ++ rest) = none := by
  rcases hhex : hexDigits.split? (ds ++ rest) with _ | ⟨taken, last⟩
  · rfl
  · obtain ⟨left, middle, right, hzero, hmore, -⟩ := split?_seq_eq_some_iff.mp hhex
    obtain ⟨between, behind, _, hx, -, -⟩ := split?_seq_eq_some_iff.mp hmore
    obtain ⟨d, more, rfl⟩ := List.exists_cons_of_ne_nil h.nonempty
    obtain ⟨c, -, -, htext⟩ := split?_one_eq_some_iff.mp hzero
    obtain ⟨-, rfl⟩ := List.cons.inj htext
    -- behind the first digit stands another one, or what follows the number
    have hnone : (letter 'x' 'X').split? (more.append rest) = none := by
      cases more with
      | nil =>
          cases rest with
          | nil => rfl
          | cons c rest => exact split?_of_rejects (hletter c rfl) rest
      | cons e more =>
          have he : e.isDigit = true := h.all e (by simp)
          exact split?_of_rejects (of_isDigit (letter 'x' 'X').rejects rfl he) _
    rw [hnone] at hx
    cases hx

/-- The digits behind a point, and the exponent behind them. -/
def fraction : Pattern := .seq (.char '.') (.seq digits (.optional exponent))

/-- Digits are no double if neither a fraction nor an exponent follows them. -/
theorem Digits.not_double_of_misses (h : Digits ds rest) (hfraction : fraction.split? rest = none)
    (hexponent : exponent.split? rest = none) : doubleLiteral.split? (ds ++ rest) = none := by
  have hpoint : (seq digits fraction).split? (ds ++ rest) = none := by
    rw [split?, h.digits_eq]
    dsimp only
    rw [hfraction]
  have hexp : (seq digits exponent).split? (ds ++ rest) = none := by
    rw [split?, h.digits_eq]
    dsimp only
    rw [hexponent]
  -- of the three forms of a double two begin with digits, and the third with the point
  have hfirst : fraction.split? (ds ++ rest) = none := h.rejected (by decide)
  rw [doubleLiteral, first, first, first, split?, ← fraction, hpoint]
  dsimp only
  rw [split?, hexp]
  exact hfirst

/-- Without a point and an exponent behind them digits are no double. -/
theorem Digits.not_double (h : Digits ds rest)
    (hdot : ∀ c ∈ rest.head?, (char '.').rejects c = true)
    (hexponent : ∀ c ∈ rest.head?, exponent.rejects c = true) :
    doubleLiteral.split? (ds ++ rest) = none := by
  have hbehind : ∀ {p : Pattern}, p.takes = true → (∀ c ∈ rest.head?, p.rejects c = true) →
      p.split? rest = none := by
    intro p htakes hreject
    cases rest with
    | nil => exact split?_nil_of_takes htakes
    | cons c rest => exact split?_of_rejects (hreject c rfl) rest
  refine h.not_double_of_misses (hbehind rfl fun c hc => ?_) (hbehind rfl hexponent)
  rw [fraction, rejects, hdot c hc, Bool.true_or]

/-- Digits where a token ends are an integer. -/
theorem Digits.int (h : Digits ds rest)
    (hletter : ∀ c ∈ rest.head?, (letter 'x' 'X').rejects c = true) :
    intLiteral.split? (ds ++ rest) = some (ds, rest) := by
  rw [intLiteral, split?, h.not_hex hletter]
  exact h.digits_eq

/-- Without a suffix behind them they are no unsigned integer. -/
theorem Digits.not_uint (h : Digits ds rest)
    (hletter : ∀ c ∈ rest.head?, (letter 'x' 'X').rejects c = true)
    (hsuffix : ∀ c ∈ rest.head?, (letter 'u' 'U').rejects c = true) :
    uintLiteral.split? (ds ++ rest) = none := by
  have hint : (alt hexDigits digits).split? (ds ++ rest) = some (ds, rest) := h.int hletter
  rw [uintLiteral, split?, hint]
  dsimp only
  cases rest with
  | nil => rfl
  | cons c rest => rw [split?_of_rejects (hsuffix c rfl)]

/-- With the suffix they are one. -/
theorem Digits.uint {tail : List Char} (h : Digits ds ('u' :: tail)) :
    uintLiteral.split? (ds ++ 'u' :: tail) = some (ds ++ ['u'], tail) := by
  have hint : (alt hexDigits digits).split? (ds ++ 'u' :: tail) = some (ds, 'u' :: tail) :=
    h.int (by rintro c ⟨⟩; rfl)
  exact split?_seq_eq_some_iff.mpr ⟨ds, 'u' :: tail, ['u'], hint, rfl, rfl⟩

/-! ### Names are no numbers -/

/-- A name does not start with a digit. -/
theorem isDigit_eq_false {c : Char} (hc : (c.isAlpha || c == '_') = true) : c.isDigit = false := by
  rcases hdigit : c.isDigit with _ | _
  · rfl
  · have hnot := of_isDigit (fun d => !(d.isAlpha || d == '_')) rfl hdigit
    rw [hc] at hnot
    cases hnot

/-- What a name may start with is not what it may not start with. -/
theorem ne_of_isNameStart {c d : Char} (hc : (c.isAlpha || c == '_') = true)
    (hd : (d.isAlpha || d == '_') = false) : d ≠ c := by
  rintro rfl
  rw [hc] at hd
  cases hd

/-- No number starts as a name does. -/
theorem rejects_number {c : Char} (hc : (c.isAlpha || c == '_') = true) :
    doubleLiteral.rejects c = true ∧ uintLiteral.rejects c = true
      ∧ intLiteral.rejects c = true := by
  have hdigit := isDigit_eq_false hc
  have hdot := (ne_of_isNameStart (d := '.') hc rfl).symm
  have hzero := (ne_of_isNameStart (d := '0') hc rfl).symm
  simp [doubleLiteral, uintLiteral, intLiteral, hexDigits, digits, digit, some1, first, char,
    rejects, isTest, hdigit, hdot, hzero]

/-! ## Quoted texts -/

/-- A character of a quoted text as the grammar counts them, or an escape. -/
def quotedItem : Pattern :=
  .alt (.seq (.char '\\') .any) (.noneOf ['\x22', '\\', '\n'])

variable {more last : List Char}

/-- Plain characters are taken one by one. -/
theorem many_quotedItem_plain {w : List Char} (hw : ∀ d ∈ w, d ∉ ['\x22', '\\', '\n'])
    (hmore : (many quotedItem).split? rest = some (more, last)) :
    (many quotedItem).split? (w ++ rest) = some (w ++ more, last) := by
  induction w with
  | nil => exact hmore
  | cons d w ih =>
      have hd : d ∉ ['\x22', '\\', '\n'] := hw d List.mem_cons_self
      have hitem : quotedItem.split? (d :: (w ++ rest)) = some ([d], w ++ rest) := by
        -- it is no backslash, so the item is the character itself
        refine split?_alt_eq_some_iff.mpr (.inr ⟨?_, split?_one_eq_some_iff.mpr ⟨d, ?_, rfl, rfl⟩⟩)
        · refine split?_of_rejects ?_ _
          have hne : d ≠ '\\' := fun h => hd (by simp [h])
          simp [rejects, char, hne]
        · simpa using hd
      have hall := split?_many_of_some rfl hitem (ih fun d hd => hw d (List.mem_cons_of_mem _ hd))
      exact hall

/-- A backslash is taken with the character behind it. -/
theorem many_quotedItem_escape {x : Char}
    (hmore : (many quotedItem).split? rest = some (more, last)) :
    (many quotedItem).split? ('\\' :: x :: rest) = some ('\\' :: x :: more, last) := by
  have hitem : quotedItem.split? ('\\' :: x :: rest) = some (['\\', x], rest) := rfl
  exact split?_many_of_some rfl hitem hmore

/-- A piece of a quoted text: characters that mean nothing by themselves, perhaps behind a
backslash and a character that it takes along. -/
inductive IsPiece : List Char → Prop
  | plain {w : List Char} (h : ∀ d ∈ w, d ∉ ['\x22', '\\', '\n']) : IsPiece w
  | escape {x : Char} {w : List Char} (h : ∀ d ∈ w, d ∉ ['\x22', '\\', '\n']) :
      IsPiece ('\\' :: x :: w)

/-- Pieces are read up to the quote behind them. -/
theorem many_quotedItem_pieces {pieces : List (List Char)} (h : ∀ w ∈ pieces, IsPiece w)
    (tail : List Char) :
    (many quotedItem).split? (pieces.flatten ++ '\x22' :: tail)
      = some (pieces.flatten, '\x22' :: tail) := by
  induction pieces with
  | nil => exact split?_many_of_none rfl
  | cons w pieces ih =>
      have hmore := ih fun w hw => h w (List.mem_cons_of_mem _ hw)
      rw [List.flatten_cons, List.append_assoc]
      cases h w List.mem_cons_self with
      | plain hplain => exact many_quotedItem_plain hplain hmore
      | escape hplain => exact many_quotedItem_escape (many_quotedItem_plain hplain hmore)

/-- A quoted text in pieces ends with its quote, as no piece has one that is not escaped. -/
theorem quotedBody_pieces {pieces : List (List Char)} (h : ∀ w ∈ pieces, IsPiece w)
    (tail : List Char) :
    (quotedBody '\x22').split? ('\x22' :: (pieces.flatten ++ '\x22' :: tail))
      = some ('\x22' :: (pieces.flatten ++ ['\x22']), tail) := by
  refine split?_seq_eq_some_iff.mpr ⟨['\x22'], pieces.flatten ++ '\x22' :: tail,
    pieces.flatten ++ ['\x22'], rfl, ?_, rfl⟩
  exact split?_seq_eq_some_iff.mpr ⟨pieces.flatten, '\x22' :: tail, ['\x22'],
    many_quotedItem_pieces h tail, rfl, rfl⟩

theorem string_pieces {pieces : List (List Char)} (h : ∀ w ∈ pieces, IsPiece w)
    (tail : List Char) :
    stringLiteral.split? ('\x22' :: (pieces.flatten ++ '\x22' :: tail))
      = some ('\x22' :: (pieces.flatten ++ ['\x22']), tail) := by
  rw [stringLiteral, split?, split?_of_rejects (p := rawString) rfl]
  dsimp only
  rw [quotedString, split?, quotedBody_pieces h]

/-- With the letter of bytes in front it is bytes. -/
theorem bytes_pieces {pieces : List (List Char)} (h : ∀ w ∈ pieces, IsPiece w)
    (tail : List Char) :
    bytesLiteral.split? ('b' :: '\x22' :: (pieces.flatten ++ '\x22' :: tail))
      = some ('b' :: '\x22' :: (pieces.flatten ++ ['\x22']), tail) :=
  split?_seq_eq_some_iff.mpr ⟨['b'], _, _, rfl, string_pieces h tail, rfl⟩

end RowFilter.Grammar
