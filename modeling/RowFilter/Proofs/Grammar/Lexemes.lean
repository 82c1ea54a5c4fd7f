/-
Tokens whatever stands behind them.

What a pattern takes of a text it takes in front of every other text too, provided that this does
not go on with the token (`Pattern.Firm`). What goes on depends on the kind of the token: a further
digit with a number, a further letter with a word, nothing at all with a literal in quotes. So the
tokens of the language are tokens by themselves, and words end where they may (`Pattern.Lexical`).
-/
import RowFilter.Proofs.Grammar.Sentences
import RowFilter.Proofs.Grammar.Tokens

set_option autoImplicit false

namespace RowFilter.Grammar

namespace Pattern

variable {p q first second item : Pattern} {P Q : List Char → Prop} {text w rest behind : List Char}

/-! ## Firm patterns -/

/-- The pattern does not match at the front of the text. -/
def Misses (p : Pattern) (text : List Char) : Prop := p.split? text = none

/-- What the pattern takes somewhere it takes in front of every text with the property. -/
structure Firm (p : Pattern) (Q : List Char → Prop) : Prop where
  again : ∀ {text w rest : List Char}, p.split? text = some (w, rest) →
    ∀ {behind : List Char}, Q behind → p.split? (w ++ behind) = some (w, behind)

/-- A pattern that is firm in front of some texts is so in front of fewer. -/
theorem Firm.mono (h : p.Firm P) (hQ : ∀ {text}, Q text → P text) : p.Firm Q :=
  ⟨fun hsplit _ hbehind => h.again hsplit (hQ hbehind)⟩

/-- One character is taken in front of everything. -/
theorem firm_one {accepts : Char → Bool} : (one accepts).Firm Q := by
  refine ⟨fun hsplit behind _ => ?_⟩
  obtain ⟨c, hc, rfl, -⟩ := split?_one_eq_some_iff.mp hsplit
  exact split?_one_eq_some_iff.mpr ⟨c, hc, rfl, rfl⟩

theorem firm_exactly {expected : List Char} : (exactly expected).Firm Q := by
  refine ⟨fun hsplit behind _ => ?_⟩
  obtain ⟨rfl, -⟩ := split?_exactly_eq_some_iff.mp hsplit
  exact split?_exactly_eq_some_iff.mpr ⟨rfl, rfl⟩

/-- A sequence is firm if what its second pattern takes may stand behind the first. -/
theorem Firm.seq (hp : p.Firm P) (hq : q.Firm Q)
    (h : ∀ {text w rest}, q.split? text = some (w, rest) → ∀ {behind}, Q behind → P (w ++ behind)) :
    (seq p q).Firm Q := by
  refine ⟨fun hsplit behind hbehind => ?_⟩
  obtain ⟨left, middle, right, hleft, hright, rfl⟩ := split?_seq_eq_some_iff.mp hsplit
  rw [List.append_assoc]
  exact split?_seq_eq_some_iff.mpr
    ⟨left, right ++ behind, right, hp.again hleft (h hright hbehind), hq.again hright hbehind, rfl⟩

/-- An alternative is firm if the first pattern does not match where the second one did. -/
theorem Firm.alt (hp : p.Firm Q) (hq : q.Firm Q)
    (h : ∀ {text w rest}, q.split? text = some (w, rest) →
      ∀ {behind}, Q behind → p.Misses (w ++ behind)) : (alt p q).Firm Q := by
  refine ⟨fun hsplit behind hbehind => ?_⟩
  rcases split?_alt_eq_some_iff.mp hsplit with hsplit | ⟨-, hsplit⟩
  · exact split?_alt_eq_some_iff.mpr (.inl (hp.again hsplit hbehind))
  · exact split?_alt_eq_some_iff.mpr (.inr ⟨h hsplit hbehind, hq.again hsplit hbehind⟩)

/-- What is optional is firm if it does not match what may stand behind it. -/
theorem Firm.optional (hp : p.Firm Q) (h : ∀ {behind}, Q behind → p.Misses behind) :
    (optional p).Firm Q := by
  refine ⟨fun hsplit behind hbehind => ?_⟩
  rcases split?_optional_eq_some_iff.mp hsplit with hitem | ⟨-, hpair⟩
  · exact split?_optional_eq_some_iff.mpr (.inl (hp.again hitem hbehind))
  · obtain ⟨rfl, rfl⟩ := Prod.mk.inj hpair
    exact split?_optional_eq_some_iff.mpr (.inr ⟨h hbehind, rfl⟩)

/-- A repetition is firm in front of what is no further item. -/
theorem Firm.many (hitem : item.Firm fun _ => True) (htakes : item.takes = true) :
    (many item).Firm item.Misses := by
  refine ⟨fun hsplit behind hbehind => ?_⟩
  refine split?_many_induction
    (motive := fun _ w _ => (Pattern.many item).split? (w ++ behind) = some (w, behind)) hsplit
    (fun _ => split?_many_of_none hbehind) fun text taken middle more rest htaken hmore => ?_
  rw [List.append_assoc]
  exact split?_many_of_some htakes (hitem.again htaken trivial) hmore

/-- A test is firm in front of what it allows. -/
theorem firm_unless : («unless» item).Firm item.Misses := by
  refine ⟨fun hsplit behind hbehind => ?_⟩
  obtain ⟨-, hpair⟩ := split?_unless_eq_some_iff.mp hsplit
  obtain ⟨rfl, rfl⟩ := Prod.mk.inj hpair
  exact split?_unless_eq_some_iff.mpr ⟨hbehind, rfl⟩

/-! ### First characters -/

/-- The pattern rejects the first character of the text, if there is one. -/
def Barred (p : Pattern) (text : List Char) : Prop := ∀ c ∈ text.head?, p.rejects c = true

/-- A pattern that takes something does not match where its first character is rejected. -/
theorem Barred.misses (htakes : p.takes = true) (h : p.Barred text) : p.Misses text := by
  cases text with
  | nil => exact split?_nil_of_takes htakes
  | cons c rest => exact split?_of_rejects (h c rfl) rest

/-- A pattern that rejects some characters is barred where one of them comes first. -/
theorem barred_of_mem {accepted : List Char} (hp : accepted.all p.rejects = true)
    (htext : ∀ c ∈ text.head?, c ∈ accepted) : p.Barred text :=
  fun c hc => List.all_eq_true.mp hp c (htext c hc)

/-- Of two patterns that share no first character, one rejects what the other one takes. -/
theorem barred_of_disjoint (hq : q.takes = true)
    (h : ∀ c, p.rejects c = true ∨ q.rejects c = true) (hsplit : q.split? text = some (w, rest))
    (behind : List Char) : p.Barred (w ++ behind) := by
  obtain ⟨d, more, rfl⟩ := List.exists_cons_of_ne_nil (ne_nil_of_takes hq hsplit)
  have htext := split?_append hsplit
  subst htext
  rintro c ⟨⟩
  rcases h d with hp | hreject
  · exact hp
  · have hnone := split?_of_rejects hreject (more ++ rest)
    rw [← List.cons_append, hsplit] at hnone
    cases hnone

/-- A fixed character is another one, or it is the one that is rejected. -/
theorem char_rejects_or {d : Char} (hq : q.rejects d = true) (c : Char) :
    (char d).rejects c = true ∨ q.rejects c = true := by
  by_cases hc : c = d
  · exact .inr (hc ▸ hq)
  · exact .inl (by simpa [char, rejects] using hc)

theorem digit_rejects_or (hq : "0123456789".toList.all q.rejects = true) (c : Char) :
    digit.rejects c = true ∨ q.rejects c = true := by
  rcases hc : c.isDigit with _ | _
  · exact .inl (by simpa [digit, rejects] using hc)
  · exact .inr (of_isDigit q.rejects hq hc)

theorem letter_rejects_or {lower upper : Char} (hlower : q.rejects lower = true)
    (hupper : q.rejects upper = true) (c : Char) :
    (letter lower upper).rejects c = true ∨ q.rejects c = true := by
  rcases char_rejects_or hlower c with h | h
  · exact (char_rejects_or hupper c).imp_left fun h' => Bool.and_eq_true_iff.mpr ⟨h, h'⟩
  · exact .inr h

/-- A sequence rejects what its first part rejects. -/
theorem seq_rejects {c : Char} (h : p.rejects c = true) : (Pattern.seq p q).rejects c = true := by
  rw [rejects, h, Bool.true_or]

/-- If the second part misses what the first one leaves, the sequence does not match. -/
theorem misses_seq (hp : p.split? text = some (w, rest)) (hq : q.Misses rest) :
    (Pattern.seq p q).Misses text := by
  rw [Misses, split?_seq, hp]
  dsimp only
  rw [hq]

end Pattern

open Pattern

variable {text w rest behind : List Char}

/-! ## Numbers -/

/-- A letter is taken in front of everything. -/
theorem firm_letter {lower upper : Char} {Q : List Char → Prop}
    (h : (char upper).rejects lower = true) : (letter lower upper).Firm Q :=
  firm_one.alt firm_one fun hsplit _ _ =>
    (barred_of_disjoint rfl (char_rejects_or h) hsplit _).misses rfl

/-- A run of characters is taken in front of what does not prolong it. -/
theorem firm_some1 {accepts : Char → Bool} : (some1 (one accepts)).Firm (one accepts).Barred :=
  (firm_one (Q := fun _ => True)).seq ((firm_one.many rfl).mono (Barred.misses rfl))
    fun _ _ _ => trivial

theorem firm_digits : digits.Firm digit.Barred := firm_some1

theorem firm_hexDigits : hexDigits.Firm hexDigit.Barred := by
  have hletter : (letter 'x' 'X').Firm fun _ => True := firm_letter rfl
  exact (firm_one (Q := fun _ => True)).seq (hletter.seq firm_some1 fun _ _ _ => trivial)
    fun _ _ _ => trivial

/-- The digits of a number in front of what is none. -/
theorem digits_of_split? (h : digits.split? text = some (w, rest)) (hbehind : digit.Barred behind) :
    Digits w behind := by
  obtain ⟨hne, hall⟩ := run_of_some1 h
  refine ⟨hne, hall, fun c hc => ?_⟩
  simpa [digit, rejects] using hbehind c hc

/-- Nothing stands at the front that goes on with an integer. -/
structure EndsInt (text : List Char) : Prop where
  hexDigit : hexDigit.Barred text
  letter : (letter 'x' 'X').Barred text

/-- What ends an integer is no digit, as digits are hexadecimal ones. -/
theorem EndsInt.digit (h : EndsInt text) : digit.Barred text := by
  intro c hc
  have hhex := h.hexDigit c hc
  simp only [Grammar.hexDigit, rejects, Bool.not_or, Bool.and_eq_true] at hhex
  exact hhex.1.1

theorem firm_intLiteral : intLiteral.Firm EndsInt :=
  (firm_hexDigits.mono EndsInt.hexDigit).alt (firm_digits.mono EndsInt.digit)
    fun hsplit _ hbehind => (digits_of_split? hsplit hbehind.digit).not_hex hbehind.letter

/-- **Unsigned integers.** Their suffix ends them in front of everything. -/
theorem firm_uintLiteral {Q : List Char → Prop} : uintLiteral.Firm Q := by
  have hletter : (letter 'u' 'U').Firm Q := firm_letter rfl
  have hint : (alt hexDigits digits).Firm EndsInt := firm_intLiteral
  -- the suffix itself ends the integer, so it does not matter what follows it
  refine hint.seq hletter fun hsplit behind _ => ⟨?_, ?_⟩
  · exact barred_of_disjoint rfl (fun c => (letter_rejects_or rfl rfl c).symm) hsplit behind
  · exact barred_of_disjoint rfl (fun c => (letter_rejects_or rfl rfl c).symm) hsplit behind

/-- Nothing stands at the front that goes on with a double. -/
structure EndsDouble (text : List Char) : Prop where
  digit : digit.Barred text
  exponent : exponent.Barred text

theorem firm_exponent : exponent.Firm digit.Barred := by
  have hletter : (letter 'e' 'E').Firm fun _ => True := firm_letter rfl
  have hsign : (letter '+' '-').Firm (letter '+' '-').Misses := firm_letter rfl
  refine hletter.seq ((hsign.optional id).seq firm_digits fun hsplit _ _ => ?_) fun _ _ _ => trivial
  refine (barred_of_disjoint rfl (fun c => ?_) hsplit _).misses rfl
  exact letter_rejects_or rfl rfl c

/-- **Fractions.** They end where a double does. -/
theorem firm_fraction : fraction.Firm EndsDouble := by
  have hexponent : (optional exponent).Firm EndsDouble :=
    (firm_exponent.mono EndsDouble.digit).optional fun hbehind => hbehind.exponent.misses rfl
  refine (firm_one (Q := fun _ => True)).seq (firm_digits.seq hexponent ?_) fun _ _ _ => trivial
  intro text w rest hsplit behind hbehind
  rcases split?_optional_eq_some_iff.mp hsplit with hsplit | ⟨-, hpair⟩
  · exact barred_of_disjoint rfl (digit_rejects_or rfl) hsplit behind
  · obtain ⟨rfl, rfl⟩ := Prod.mk.inj hpair
    exact hbehind.digit

/-- The three forms of a double are told apart behind their digits. -/
theorem firm_doubleLiteral : doubleLiteral.Firm EndsDouble := by
  have hdigits : ∀ {q : Pattern}, q.takes = true → "0123456789".toList.all q.rejects = true →
      q.Firm EndsDouble → (seq digits q).Firm EndsDouble := fun htakes hq hfirm =>
    firm_digits.seq hfirm fun hsplit behind _ =>
      barred_of_disjoint htakes (digit_rejects_or hq) hsplit behind
  have hpoint : ∀ {q : Pattern} {text w rest : List Char}, fraction.split? text = some (w, rest) →
      ∀ {behind}, (seq digits q).Misses (w ++ behind) := fun hsplit _ =>
    (barred_of_disjoint rfl (fun c => (digit_rejects_or rfl c).imp_left fun h =>
      seq_rejects (seq_rejects h)) hsplit _).misses rfl
  have hexponent := firm_exponent.mono EndsDouble.digit
  refine (hdigits rfl rfl firm_fraction).alt
    ((hdigits rfl rfl hexponent).alt firm_fraction fun hsplit _ _ => hpoint hsplit) ?_
  intro text w rest hsplit behind _
  rcases split?_alt_eq_some_iff.mp hsplit with hsplit | ⟨-, hsplit⟩
  · -- an exponent stands where the point would
    obtain ⟨left, middle, right, hleft, hright, rfl⟩ := split?_seq_eq_some_iff.mp hsplit
    rw [List.append_assoc]
    refine misses_seq (firm_digits.again hleft
      (barred_of_disjoint rfl (digit_rejects_or rfl) hright behind)) ?_
    refine (barred_of_disjoint rfl (fun c => ?_) hright behind).misses rfl
    exact (char_rejects_or rfl c).imp_left seq_rejects
  · exact hpoint hsplit

/-! ## Quoted literals -/

variable {delimiter : Char} {Q : List Char → Prop}

/-- What stands between two delimiters, if no item begins with one. -/
theorem firm_delimited {item : Pattern} (hitem : item.Firm fun _ => True)
    (htakes : item.takes = true) (hdelimiter : item.rejects delimiter = true) :
    (seq (char delimiter) (seq (many item) (char delimiter))).Firm Q := by
  -- the items go on up to the delimiter, and nothing behind it is looked at
  refine (firm_one (Q := fun _ => True)).seq ((hitem.many htakes).seq firm_one ?_)
    fun _ _ _ => trivial
  intro text w rest hsplit behind _
  exact (barred_of_disjoint rfl (fun c => (char_rejects_or hdelimiter c).symm) hsplit behind).misses
    htakes

/-- A quoted text ends with its delimiter, in front of everything. -/
theorem firm_quotedBody (hdelimiter : delimiter ≠ '\\') : (quotedBody delimiter).Firm Q := by
  have hescape : (seq (char '\\') any).Firm fun _ => True :=
    (firm_one (Q := fun _ => True)).seq firm_one fun _ _ _ => trivial
  have hitem : (alt (seq (char '\\') any) (noneOf [delimiter, '\\', '\n'])).Firm fun _ => True := by
    refine hescape.alt firm_one fun hsplit _ _ =>
      (barred_of_disjoint rfl (fun c => ?_) hsplit _).misses rfl
    exact (char_rejects_or (by simp [noneOf, rejects]) c).imp_left seq_rejects
  exact firm_delimited hitem rfl (by simp [rejects, char, noneOf, hdelimiter])

theorem firm_rawBody : (rawBody delimiter).Firm Q :=
  firm_delimited firm_one rfl (by simp [rejects, noneOf])

theorem firm_rawString : rawString.Firm Q := by
  have hletter : (letter 'r' 'R').Firm fun _ => True := firm_letter rfl
  refine hletter.seq (firm_rawBody.alt firm_rawBody fun hsplit _ _ => ?_) fun _ _ _ => trivial
  refine (barred_of_disjoint rfl (fun c => ?_) hsplit _).misses rfl
  exact (char_rejects_or rfl c).imp_left seq_rejects

/-- **Strings.** A raw one is tried first, but its letter is no quote. -/
theorem firm_stringLiteral : stringLiteral.Firm Q := by
  have hquoted : quotedString.Firm Q := by
    refine (firm_quotedBody (by decide)).alt (firm_quotedBody (by decide)) fun hsplit _ _ => ?_
    refine (barred_of_disjoint rfl (fun c => ?_) hsplit _).misses rfl
    exact (char_rejects_or rfl c).imp_left seq_rejects
  refine firm_rawString.alt hquoted fun hsplit _ _ => ?_
  refine (barred_of_disjoint rfl (fun c => ?_) hsplit _).misses rfl
  exact (letter_rejects_or rfl rfl c).imp_left seq_rejects

theorem firm_bytesLiteral : bytesLiteral.Firm Q := by
  have hletter : (letter 'b' 'B').Firm fun _ => True := firm_letter rfl
  have hstring : (alt rawString quotedString).Firm Q := firm_stringLiteral
  exact hletter.seq hstring fun _ _ _ => trivial

/-- A quote is no character of a name. -/
theorem isWordChar_of_quote {c : Char} (h : c ∈ ['\x22', '\x27']) : isWordChar c = false := by
  simp only [List.mem_cons, List.not_mem_nil, or_false] at h
  rcases h with rfl | rfl <;> rfl

/-- Letters, a quote, and anything behind it. -/
def Quoted (w : List Char) : Prop :=
  ∃ letters quote more, w = letters ++ quote :: more
    ∧ (∀ c ∈ letters, isWordChar c = true) ∧ quote ∈ ['\x22', '\x27']

theorem Quoted.cons {c : Char} (hc : isWordChar c = true) (h : Quoted w) : Quoted (c :: w) := by
  obtain ⟨letters, quote, more, rfl, hletters, hquote⟩ := h
  exact ⟨c :: letters, quote, more, rfl, List.forall_mem_cons.mpr ⟨hc, hletters⟩, hquote⟩

/-- What has a quote in it is no name. -/
theorem Quoted.not_isWord (h : Quoted w) : ¬ IsWord w := by
  obtain ⟨letters, quote, more, rfl, -, hquote⟩ := h
  intro hword
  have hchar := hword.1 quote (List.mem_append_right _ List.mem_cons_self)
  rw [isWordChar_of_quote hquote] at hchar
  cases hchar

/-- What the pattern takes has a quote behind its letters. -/
def Pattern.Quotes (p : Pattern) : Prop :=
  ∀ {text w rest : List Char}, p.split? text = some (w, rest) → Quoted w

/-- What begins with its delimiter has a quote at its front. -/
theorem quotes_open {p : Pattern} (hdelimiter : delimiter ∈ ['\x22', '\x27']) :
    (seq (char delimiter) p).Quotes := by
  intro text w rest hsplit
  obtain ⟨left, middle, right, hleft, -, rfl⟩ := split?_seq_eq_some_iff.mp hsplit
  obtain ⟨c, hc, rfl, -⟩ := split?_one_eq_some_iff.mp hleft
  obtain rfl := beq_iff_eq.mp hc
  exact ⟨[], c, right, rfl, by simp, hdelimiter⟩

theorem quotes_alt {p q : Pattern} (hp : p.Quotes) (hq : q.Quotes) : (alt p q).Quotes := by
  intro text w rest hsplit
  rcases split?_alt_eq_some_iff.mp hsplit with hsplit | ⟨-, hsplit⟩
  · exact hp hsplit
  · exact hq hsplit

/-- A letter may stand in front of the quote. -/
theorem quotes_letter {p : Pattern} {lower upper : Char} (hp : p.Quotes)
    (hletters : isWordChar lower = true ∧ isWordChar upper = true) :
    (seq (letter lower upper) p).Quotes := by
  intro text w rest hsplit
  obtain ⟨left, middle, right, hleft, hright, rfl⟩ := split?_seq_eq_some_iff.mp hsplit
  rcases split?_alt_eq_some_iff.mp hleft with hleft | ⟨-, hleft⟩
  all_goals
    obtain ⟨c, hc, rfl, -⟩ := split?_one_eq_some_iff.mp hleft
    obtain rfl := beq_iff_eq.mp hc
  · exact (hp hright).cons hletters.1
  · exact (hp hright).cons hletters.2

theorem quotes_stringLiteral : stringLiteral.Quotes :=
  quotes_alt
    (quotes_letter (quotes_alt (quotes_open (by simp)) (quotes_open (by simp))) ⟨rfl, rfl⟩)
    (quotes_alt (quotes_open (by simp)) (quotes_open (by simp)))

theorem quotes_bytesLiteral : bytesLiteral.Quotes :=
  quotes_letter quotes_stringLiteral ⟨rfl, rfl⟩

/-! ## Words -/

/-- **Words.** They are taken in front of what does not prolong them. -/
theorem firm_word (letters : String) : (word letters).Firm identChar.Barred :=
  (firm_exactly (Q := fun _ => True)).seq (firm_unless.mono (Barred.misses rfl))
    fun _ _ _ => trivial

/-- **Booleans.** -/
theorem firm_booleanLiteral : booleanLiteral.Firm identChar.Barred := by
  have hwords : (alt (exactly "true".toList) (exactly "false".toList)).Firm fun _ => True := by
    refine firm_exactly.alt firm_exactly fun hsplit _ _ =>
      (barred_of_disjoint rfl (fun c => ?_) hsplit _).misses rfl
    by_cases hc : c = 't'
    · exact .inr (hc ▸ rfl)
    · exact .inl (by simpa [rejects] using Ne.symm hc)
  exact hwords.seq (firm_unless.mono (Barred.misses rfl)) fun _ _ _ => trivial

/-- Where one character of a class does not match, none stands. -/
theorem barred_of_misses {accepts : Char → Bool} (h : (one accepts).Misses text) :
    (one accepts).Barred text := by
  cases text with
  | nil => rintro c ⟨⟩
  | cons d more =>
      rintro c ⟨⟩
      by_contra hd
      have haccepts : accepts d = true := by simpa [rejects] using hd
      rw [Misses, split?_one_cons, if_pos haccepts] at h
      cases h

/-- Behind a word no character of names stands. -/
theorem barred_of_word {p : Pattern}
    (h : (seq p («unless» identChar)).split? text = some (w, rest)) :
    identChar.Barred rest := by
  obtain ⟨left, middle, right, -, htest, -⟩ := split?_seq_eq_some_iff.mp h
  obtain ⟨hnone, hpair⟩ := split?_unless_eq_some_iff.mp htest
  obtain ⟨-, rfl⟩ := Prod.mk.inj hpair
  exact barred_of_misses hnone

/-- Behind a name no character of names stands. -/
theorem barred_of_identifier (h : identifier.split? text = some (w, rest)) :
    identChar.Barred rest := by
  obtain ⟨_, _, _, -, hword, -⟩ := split?_seq_eq_some_iff.mp h
  obtain ⟨_, _, _, -, hmore, -⟩ := split?_seq_eq_some_iff.mp hword
  exact barred_of_misses (split?_many_stops rfl hmore)

/-- Only characters of names make a difference to the pattern of names. -/
theorem avoids_identifier {excluded : List Char} (h : ∀ c ∈ excluded, isWordChar c = false) :
    identifier.avoids excluded = true := by
  have hexactly : ∀ {expected : List Char}, expected.all isWordChar = true →
      (exactly expected).avoids excluded = true := by
    intro expected hexpected
    refine List.all_eq_true.mpr fun c hc => ?_
    rw [Bool.not_eq_true', Bool.eq_false_iff]
    intro hmem
    have hword := List.all_eq_true.mp hexpected c (List.contains_iff_mem.mp hmem)
    rw [h c hc] at hword
    cases hword
  have hchar : identChar.avoids excluded = true := by
    refine List.all_eq_true.mpr fun c hc => ?_
    rw [Bool.not_eq_true']
    exact h c hc
  have hfirst : (one fun c => c.isAlpha || c == '_').avoids excluded = true := by
    refine List.all_eq_true.mpr fun c hc => ?_
    have hnone := h c hc
    simp only [isWordChar, Char.isAlphanum, Bool.or_eq_false_iff] at hnone
    simp [hnone.1.1, hnone.2]
  have hand : ∀ {a b : Bool}, a = true → b = true → (a && b) = true := fun ha hb =>
    Bool.and_eq_true_iff.mpr ⟨ha, hb⟩
  -- the test for reserved words takes nothing, but a word that it looks at is one of characters of
  -- names
  have hreserved : reserved.avoids excluded = true :=
    hand (hexactly rfl) (hand (hexactly rfl) (hand (hexactly rfl) (hexactly rfl)))
  exact hand (hand hreserved hchar) (hand hfirst hchar)

/-- **Names.** The test for reserved words comes out the same, as it looks at no more than the name
and what ends it. -/
theorem firm_identifier : identifier.Firm identChar.Barred := by
  refine ⟨fun {text w rest} hsplit behind hbehind => ?_⟩
  -- the rules for sequences do not apply, as the pattern begins with a look at what follows; but
  -- cut off where it ends a name reads the same, and so it does with another text behind it
  have hcut : ∀ {tail : List Char}, identChar.Barred tail →
      identifier.split? (w ++ tail)
        = (identifier.split? w).map fun found => (found.1, found.2 ++ tail) := by
    intro tail htail
    have havoids : identifier.avoids tail.head?.toList = true := by
      refine avoids_identifier fun c hc => ?_
      have hreject := htail c (Option.mem_toList.mp hc)
      simpa [identChar, rejects, isWordChar] using hreject
    exact split?_append_of_avoids havoids rfl (fun c hc => Option.mem_toList.mpr hc) w
  have halone := hcut (barred_of_identifier hsplit)
  rw [split?_append hsplit, hsplit] at halone
  obtain ⟨⟨w', rest'⟩, hw, hpair⟩ := Option.map_eq_some_iff.mp halone.symm
  obtain ⟨rfl, hrest⟩ := Prod.mk.inj hpair
  obtain rfl := List.append_left_eq_self.mp hrest
  rw [hcut hbehind, hw]
  rfl

/-! ## Tokens end where they may -/

/-- A token that is firm in front of nothing is a token by itself. -/
theorem lexical_of_firm {p : Pattern} (htakes : p.takes = true) (hfirm : p.Firm Q) (hQ : Q [])
    (hends : ∀ {text w rest}, p.split? text = some (w, rest) → Ends w rest) : p.Lexical where
  takes := htakes
  alone hsplit := by
    have halone := hfirm.again hsplit hQ
    rwa [List.append_nil] at halone
  ends := hends

/-- At the end of a text nothing matches that would prolong a token. -/
theorem barred_nil {p : Pattern} : p.Barred [] := by rintro c ⟨⟩

/-- In front of what is no character of names everything ends. -/
theorem ends_of_barred (h : identChar.Barred rest) : Ends w rest := by
  intro _ c hc
  have hreject := h c hc
  simpa [identChar, rejects, isWordChar] using hreject

/-- A token that does not begin as a word does is none. -/
theorem not_isWord_of_rejects {p : Pattern} (htakes : p.takes = true)
    (hp : ∀ c : Char, (c.isAlpha || c == '_') = true → p.rejects c = true)
    (hsplit : p.split? text = some (w, rest)) : ¬ IsWord w := by
  rintro ⟨hword, hdigit⟩
  obtain ⟨c, more, rfl⟩ := List.exists_cons_of_ne_nil (ne_nil_of_takes htakes hsplit)
  have hchar := hword c List.mem_cons_self
  have hstart : (c.isAlpha || c == '_') = true := by
    rwa [isWordChar, Char.isAlphanum, hdigit c rfl, Bool.or_false] at hchar
  have htext := split?_append hsplit
  rw [← htext, List.cons_append, split?_of_rejects (hp c hstart)] at hsplit
  cases hsplit

theorem lexical_word (letters : String) (h : (word letters).takes = true) :
    (word letters).Lexical :=
  lexical_of_firm h (firm_word letters) barred_nil fun hsplit =>
    ends_of_barred (barred_of_word hsplit)

theorem lexical_booleanLiteral : booleanLiteral.Lexical :=
  lexical_of_firm rfl firm_booleanLiteral barred_nil fun hsplit =>
    ends_of_barred (barred_of_word hsplit)

theorem lexical_identifier : identifier.Lexical :=
  lexical_of_firm rfl firm_identifier barred_nil fun hsplit =>
    ends_of_barred (barred_of_identifier hsplit)

theorem lexical_intLiteral : intLiteral.Lexical :=
  lexical_of_firm rfl firm_intLiteral ⟨barred_nil, barred_nil⟩ fun hsplit hword =>
    absurd hword (not_isWord_of_rejects rfl (fun _ hc => (rejects_number hc).2.2) hsplit)

theorem lexical_uintLiteral : uintLiteral.Lexical :=
  lexical_of_firm (Q := fun _ => True) rfl firm_uintLiteral trivial fun hsplit hword =>
    absurd hword (not_isWord_of_rejects rfl (fun _ hc => (rejects_number hc).2.1) hsplit)

theorem lexical_doubleLiteral : doubleLiteral.Lexical :=
  lexical_of_firm rfl firm_doubleLiteral ⟨barred_nil, barred_nil⟩ fun hsplit hword =>
    absurd hword (not_isWord_of_rejects rfl (fun _ hc => (rejects_number hc).1) hsplit)

theorem lexical_stringLiteral : stringLiteral.Lexical :=
  lexical_of_firm (Q := fun _ => True) rfl firm_stringLiteral trivial fun hsplit hword =>
    absurd hword (quotes_stringLiteral hsplit).not_isWord

theorem lexical_bytesLiteral : bytesLiteral.Lexical :=
  lexical_of_firm (Q := fun _ => True) rfl firm_bytesLiteral trivial fun hsplit hword =>
    absurd hword (quotes_bytesLiteral hsplit).not_isWord

/-- A mark with a character in front that stands in no name. -/
theorem not_isWord_cons {c : Char} {more : List Char} (h : isWordChar c = false) :
    ¬ IsWord (c :: more) := by
  intro hword
  have hchar := hword.1 c List.mem_cons_self
  rw [h] at hchar
  cases hchar

/-- An operator with a character in front that stands in no name. -/
theorem lexical_operator {name : Rule} {spelling : String}
    (htakes : (exactly spelling.toList).takes = true)
    (h : spelling.toList.head?.all (fun c => !isWordChar c) = true) :
    (Phrase.operator name spelling).Lexical := by
  refine lexical_of_firm (Q := fun _ => True) htakes firm_exactly trivial fun hsplit hword => ?_
  obtain ⟨rfl, -⟩ := split?_exactly_eq_some_iff.mp hsplit
  obtain ⟨c, more, hspelling⟩ := List.exists_cons_of_ne_nil (ne_nil_of_takes htakes hsplit)
  rw [hspelling] at h hword
  exact absurd hword (not_isWord_cons (by simpa using h))

/-- **All tokens of expressions are lexical.** -/
theorem Phrase.lexical_expressionBody : expressionBody.Lexical := by
  have hmark : ∀ {c : Char}, isWordChar c = false → (mark c).Lexical := fun h =>
    ⟨List.cons_ne_nil _ _, not_isWord_cons h⟩
  have hmore : (Phrase.many (.seq (mark ',') .expression)).Lexical := ⟨hmark rfl, trivial⟩
  have hnamed : (parts ident [mark '(', .optional arguments, mark ')']).Lexical :=
    ⟨lexical_identifier, hmark rfl, ⟨trivial, hmore⟩, hmark rfl⟩
  have hlist : listLiteral.Lexical := ⟨hmark rfl, ⟨trivial, hmore, hmark rfl⟩, hmark rfl⟩
  -- from the tokens up, in the order in which the grammar builds its rules
  have hliteral : literal.Lexical :=
    ⟨lexical_word "null" rfl, lexical_booleanLiteral, lexical_bytesLiteral, lexical_stringLiteral,
      lexical_doubleLiteral, lexical_uintLiteral, lexical_intLiteral⟩
  have hprimary : primary.Lexical :=
    ⟨hnamed, hlist, ⟨hmark rfl, trivial, hmark rfl⟩, hliteral, lexical_identifier⟩
  have hmember : member.Lexical :=
    ⟨hprimary, ⟨hmark rfl, hnamed⟩, hmark rfl, lexical_identifier⟩
  have hunary : unary.Lexical := ⟨⟨lexical_operator rfl rfl, lexical_operator rfl rfl⟩, hmember⟩
  have hproduct : productOperator.Lexical :=
    ⟨lexical_operator rfl rfl, lexical_operator rfl rfl, lexical_operator rfl rfl⟩
  have hsum : sumOperator.Lexical := ⟨lexical_operator rfl rfl, lexical_operator rfl rfl⟩
  have hrelation : relationOperator.Lexical :=
    ⟨lexical_operator rfl rfl, lexical_operator rfl rfl, lexical_operator rfl rfl,
      lexical_operator rfl rfl, lexical_operator rfl rfl, lexical_operator rfl rfl,
      lexical_word "in" rfl⟩
  have hmultiplication : multiplication.Lexical := ⟨hunary, hproduct, hunary⟩
  have haddition : addition.Lexical := ⟨hmultiplication, hsum, hmultiplication⟩
  have hcomparison : relation.Lexical := ⟨haddition, hrelation, haddition⟩
  have hconjunction : logicalAnd.Lexical :=
    ⟨hcomparison, lexical_operator rfl rfl, hcomparison⟩
  exact ⟨hconjunction, lexical_operator rfl rfl, hconjunction⟩

end RowFilter.Grammar
