/-
Which alternative a token belongs to.

The alternatives for an operand are tried in their order, and many tokens look like others at their
front: a name like a word or the letters of a quoted literal, digits like a double. So for a token
of each kind it is shown that the alternatives in front of its own do not match, in front of
everything that may stand behind an operand (`EndsOperand`), and for an operator that the ones in
front of it do not (`takes_symbol`).
-/
import RowFilter.Proofs.Expr.Primaries
import RowFilter.Proofs.Grammar.Lexemes

set_option autoImplicit false

namespace RowFilter.Grammar

open Pattern
open Phrase (Takes Fails takes_token fails_token)

variable {text w rest tail behind : List Char} {P : List Tree → Prop}

/-! ## Behind operands -/

/-- The characters behind an operand: those of layout, of operators, of a dot, and of what closes or
parts expressions. -/
def operandEnds : List Char :=
  [' ', '\t', '\r', '\n', '/', '.', '*', '%', '+', '-', '=', '!', '<', '>', 'i', '&', '|', ')', ',',
   ']']

/-- A text in front of which an operand ends. A dot there is not the point of a number. -/
structure EndsOperand (text : List Char) : Prop where
  head : ∀ c ∈ text.head?, c ∈ operandEnds
  fraction : fraction.Misses text

/-- Behind such an operand the digits of an integer end. -/
theorem EndsOperand.int (h : EndsOperand text) : EndsInt text :=
  ⟨barred_of_mem rfl h.head, barred_of_mem rfl h.head⟩

/-- So does a double, whose digits, point and exponent are at an end. -/
theorem EndsOperand.double (h : EndsOperand text) : EndsDouble text :=
  ⟨barred_of_mem rfl h.head, barred_of_mem rfl h.head⟩

/-! ## Numbers -/

/-- An integer is no double in front of what ends it. -/
theorem misses_double_of_int (h : intLiteral.split? text = some (w, rest)) (hends : EndsInt behind)
    (hfraction : fraction.Misses behind) (hexponent : exponent.Barred behind) :
    doubleLiteral.Misses (w ++ behind) := by
  rcases split?_alt_eq_some_iff.mp h with h | ⟨-, h⟩
  · -- the digits end at the letter of a hexadecimal number
    obtain ⟨_, _, _, hfirst, hmore, rfl⟩ := split?_seq_eq_some_iff.mp h
    obtain ⟨letter, _, digits, hletter, -, rfl⟩ := split?_seq_eq_some_iff.mp hmore
    obtain ⟨zero, hzero, rfl, -⟩ := split?_one_eq_some_iff.mp hfirst
    obtain rfl := beq_iff_eq.mp hzero
    have hbarred : ∀ {p : Pattern}, p.rejects 'x' = true → p.rejects 'X' = true →
        p.Barred (letter ++ (digits ++ behind)) := fun hlower hupper =>
      barred_of_disjoint rfl (fun c => (letter_rejects_or hlower hupper c).symm) hletter _
    have hstop : digit.Barred (letter ++ (digits ++ behind)) := hbarred rfl rfl
    have hdigits : Digits ['0'] (letter ++ (digits ++ behind)) :=
      ⟨by simp, by simp, fun c hc => by simpa [digit, rejects] using hstop c hc⟩
    rw [List.append_assoc, List.append_assoc]
    exact hdigits.not_double (hbarred rfl rfl) (hbarred rfl rfl)
  · exact (digits_of_split? h hends.digit).not_double_of_misses hfraction (hexponent.misses rfl)

/-- An integer is no unsigned one unless the letter of these follows. -/
theorem misses_uint_of_int (h : intLiteral.split? text = some (w, rest)) (hends : EndsInt behind)
    (hletter : (letter 'u' 'U').Barred behind) : uintLiteral.Misses (w ++ behind) := by
  have hint : (alt hexDigits digits).split? (w ++ behind) = some (w, behind) :=
    firm_intLiteral.again h hends
  exact misses_seq hint (hletter.misses rfl)

/-- An unsigned integer is no double, for its digits end at its letter. -/
theorem misses_double_of_uint (h : uintLiteral.split? text = some (w, rest)) :
    doubleLiteral.Misses (w ++ behind) := by
  obtain ⟨digits, _, suffix, hdigits, hsuffix, rfl⟩ := split?_seq_eq_some_iff.mp h
  -- whichever of the two letters it is, no part of a double begins with it
  have hbarred : ∀ {p : Pattern}, p.rejects 'u' = true → p.rejects 'U' = true →
      p.Barred (suffix ++ behind) := fun hlower hupper =>
    barred_of_disjoint rfl (fun c => (letter_rejects_or hlower hupper c).symm) hsuffix _
  have hint : intLiteral.split? text = some (digits, _) := hdigits
  have hfraction : fraction.Barred (suffix ++ behind) := hbarred rfl rfl
  rw [List.append_assoc]
  exact misses_double_of_int hint ⟨hbarred rfl rfl, hbarred rfl rfl⟩ (hfraction.misses rfl)
    (hbarred rfl rfl)

/-! ## Names and words -/

/-- What a word takes is the word. -/
theorem eq_of_word {letters : String} (h : (word letters).split? text = some (w, rest)) :
    w = letters.toList := by
  obtain ⟨_, _, _, hleft, htest, hw⟩ := split?_seq_eq_some_iff.mp h
  obtain ⟨-, hpair⟩ := split?_unless_eq_some_iff.mp htest
  obtain ⟨rfl, -⟩ := Prod.mk.inj hpair
  obtain ⟨rfl, -⟩ := split?_exactly_eq_some_iff.mp hleft
  rw [hw, List.append_nil]

/-- A reserved word is no name. -/
theorem misses_name_of_reserved (hw : reserved.split? (w ++ rest) = some (w, rest))
    (hrest : identChar.Barred rest) : identifier.Misses (w ++ rest) := by
  have htest : («unless» identChar).split? rest = some ([], rest) :=
    split?_unless_eq_some_iff.mpr ⟨hrest.misses rfl, rfl⟩
  have hsome := split?_seq_eq_some_iff.mpr ⟨w, rest, [], hw, htest, rfl⟩
  rw [Misses, identifier, split?_seq, split?_unless, hsome]

/-- A name is no reserved word. -/
theorem misses_word_of_name (h : identifier.split? text = some (w, rest)) {letters : List Char}
    (hletters : ∀ rest, reserved.split? (letters ++ rest) = some (letters, rest)) :
    (seq (exactly letters) («unless» identChar)).Misses text := by
  obtain ⟨_, _, _, hunless, -, -⟩ := split?_seq_eq_some_iff.mp h
  obtain ⟨hreserved, -⟩ := split?_unless_eq_some_iff.mp hunless
  rcases hword : (seq (exactly letters) («unless» identChar)).split? text with _ | ⟨taken, last⟩
  · exact hword
  · obtain ⟨left, middle, right, hleft, htest, -⟩ := split?_seq_eq_some_iff.mp hword
    obtain ⟨rfl, rfl⟩ := split?_exactly_eq_some_iff.mp hleft
    -- the word is one of those that a name has been tested for
    have hsome := split?_seq_eq_some_iff.mpr ⟨_, _, _, hletters middle, htest, rfl⟩
    rw [hreserved] at hsome
    cases hsome

/-- A name is none of the two boolean words, as both are reserved. -/
theorem misses_boolean_of_name (h : identifier.split? text = some (w, rest)) :
    booleanLiteral.Misses text := by
  have htrue : (word "true").split? text = none := misses_word_of_name h fun _ => rfl
  have hfalse : (word "false").split? text = none := misses_word_of_name h fun _ => rfl
  rcases hword : booleanLiteral.split? text with _ | ⟨taken, last⟩
  · exact hword
  · obtain ⟨left, middle, right, hleft, htest, -⟩ := split?_seq_eq_some_iff.mp hword
    rcases split?_alt_eq_some_iff.mp hleft with hleft | ⟨-, hleft⟩
    · have hsome : (word "true").split? text = _ :=
        split?_seq_eq_some_iff.mpr ⟨_, _, _, hleft, htest, rfl⟩
      rw [htrue] at hsome
      cases hsome
    · have hsome : (word "false").split? text = _ :=
        split?_seq_eq_some_iff.mpr ⟨_, _, _, hleft, htest, rfl⟩
      rw [hfalse] at hsome
      cases hsome

/-- The character a name starts with may also stand within one. -/
theorem isWordChar_of_isNameStart {c : Char} (hc : (c.isAlpha || c == '_') = true) :
    isWordChar c = true := by
  rw [isWordChar, Char.isAlphanum]
  rcases Bool.or_eq_true_iff.mp hc with hc | hc <;> simp [hc]

/-- A name leaves what is behind the characters of names. -/
theorem rest_of_identifier (h : identifier.split? text = some (w, rest)) :
    rest = text.dropWhile isWordChar := by
  obtain ⟨_, _, _, htest, hword, -⟩ := split?_seq_eq_some_iff.mp h
  obtain ⟨-, hpair⟩ := split?_unless_eq_some_iff.mp htest
  obtain ⟨-, rfl⟩ := Prod.mk.inj hpair
  obtain ⟨_, _, _, hfirst, hmore, -⟩ := split?_seq_eq_some_iff.mp hword
  obtain ⟨c, hc, -, rfl⟩ := split?_one_eq_some_iff.mp hfirst
  rw [identChar, split?_many_one, Option.some.injEq, Prod.mk.injEq] at hmore
  rw [List.dropWhile_cons_of_pos (isWordChar_of_isNameStart hc), ← hmore.2]
  rfl

/-! ## Quoted literals -/

/-- Behind the letters of a quoted literal a quote stands. -/
theorem Quoted.dropWhile_eq (h : Quoted w) (rest : List Char) :
    ∃ quote more, (w ++ rest).dropWhile isWordChar = quote :: more
      ∧ quote ∈ ['\x22', '\x27'] := by
  obtain ⟨letters, quote, more, rfl, hletters, hquote⟩ := h
  refine ⟨quote, more ++ rest, ?_, hquote⟩
  rw [List.append_assoc, List.dropWhile_append_of_pos hletters, List.cons_append,
    List.dropWhile_cons_of_neg (by rw [isWordChar_of_quote hquote]; decide)]

/-- The letters of a quoted literal may be a name, but no bracket follows them. -/
theorem Quoted.fails_call (h : Quoted w) (rest : List Char) :
    Fails Phrase.globalCall (w ++ rest) := by
  -- the letters are no name at all, or a name behind which the quote stands
  rcases hname : identifier.split? (w ++ rest) with _ | ⟨name, last⟩
  · exact Expr.fails_call hname
  · obtain ⟨quote, more, hdrop, hquote⟩ := h.dropWhile_eq rest
    have hlast := rest_of_identifier hname
    rw [hdrop] at hlast
    subst hlast
    have hreject : (alt blank comment).rejects quote = true
        ∧ (Phrase.mark '(').rejects quote = true := by
      simp only [List.mem_cons, List.not_mem_nil, or_false] at hquote
      rcases hquote with rfl | rfl <;> exact ⟨rfl, rfl⟩
    have hident : Takes Phrase.ident (w ++ rest) (unlaid (quote :: more)) fun _ => True :=
      takes_token hname fun _ => trivial
    rw [unlaid_of_rejects hreject.1] at hident
    exact (hident.seq_fails (Phrase.fails_of_rejects hreject.2 more).seq).rule

/-- A name without a quote behind it is no quoted literal. -/
theorem misses_quoted_of_name {p : Pattern} (hp : p.Quotes)
    (h : identifier.split? text = some (w, rest)) (hrest : ∀ c ∈ rest.head?, c ∉ ['\x22', '\x27']) :
    p.Misses text := by
  rcases hquoted : p.split? text with _ | ⟨taken, last⟩
  · exact hquoted
  · -- behind the letters both would leave the same text, and it starts with a quote
    obtain ⟨quote, more, hdrop, hquote⟩ := (hp hquoted).dropWhile_eq last
    rw [split?_append hquoted, ← rest_of_identifier h] at hdrop
    exact absurd hquote (hrest quote (by rw [hdrop]; rfl))

/-! ## Literals -/

/-- What the pattern takes begins with one of the characters. -/
def Pattern.Heads (p : Pattern) (heads : List Char) : Prop := ∀ c, c ∉ heads → p.rejects c = true

/-- What such a pattern takes is not empty, so it has one of the characters at its front. -/
theorem Pattern.Heads.exists_cons {p : Pattern} {heads : List Char} (h : p.Heads heads)
    (htakes : p.takes = true) (hsplit : p.split? text = some (w, rest)) :
    ∃ c more, w = c :: more ∧ c ∈ heads := by
  obtain ⟨c, more, rfl⟩ := List.exists_cons_of_ne_nil (ne_nil_of_takes htakes hsplit)
  refine ⟨c, more, rfl, ?_⟩
  by_contra hc
  rw [← split?_append hsplit, List.cons_append, split?_of_rejects (h c hc)] at hsplit
  cases hsplit

/-- A number of each kind begins with a digit, and a double perhaps with its point. -/
theorem heads_numbers : doubleLiteral.Heads ".0123456789".toList
    ∧ uintLiteral.Heads ".0123456789".toList ∧ intLiteral.Heads ".0123456789".toList := by
  have hall : ∀ c, c ∉ ".0123456789".toList → doubleLiteral.rejects c = true
      ∧ uintLiteral.rejects c = true ∧ intLiteral.rejects c = true := by
    intro c hc
    have hdot : c ≠ '.' := fun h => hc (h ▸ List.mem_cons_self)
    have hzero : c ≠ '0' := fun h => hc (h ▸ List.mem_cons_of_mem _ List.mem_cons_self)
    have hdigit : c.isDigit = false :=
      Bool.eq_false_iff.mpr fun hd => hc (List.mem_cons_of_mem _ (mem_digits hd))
    simp [doubleLiteral, uintLiteral, intLiteral, hexDigits, digits, digit, some1, first, char,
      rejects, isTest, hdigit, hdot, hzero]
  exact ⟨fun c hc => (hall c hc).1, fun c hc => (hall c hc).2.1, fun c hc => (hall c hc).2.2⟩

/-- A bytes literal begins with its letter, and a string with its letter or its quote. -/
theorem heads_quoted : bytesLiteral.Heads "bB".toList
    ∧ stringLiteral.Heads "rR\x22\x27".toList := by
  constructor
  · intro c hc
    have hall : c ≠ 'b' ∧ c ≠ 'B' := by simpa using hc
    simp [bytesLiteral, letter, char, rejects, hall]
  · intro c hc
    have hall : c ≠ 'r' ∧ c ≠ 'R' ∧ c ≠ '\x22' ∧ c ≠ '\x27' := by simpa using hc
    simp [stringLiteral, rawString, quotedString, quotedBody, letter, char, rejects, hall]

/-- The words begin with the first of their letters. -/
theorem heads_words : (word "null").Heads "n".toList ∧ booleanLiteral.Heads "tf".toList := by
  constructor
  · intro c hc
    have hall : c ≠ 'n' := by simpa using hc
    simp [word, rejects, hall.symm]
  · intro c hc
    have hall : c ≠ 't' ∧ c ≠ 'f' := by simpa using hc
    simp [booleanLiteral, rejects, hall.1.symm, hall.2.symm]

/-- A token of a literal begins an operand if it is no call. -/
theorem takes_primary_of_literal {p : Pattern} {heads : List Char} (hp : p.Heads heads)
    (htakes : p.takes = true) (hsplit : p.split? text = some (w, rest))
    (hlist : heads.all Phrase.listLiteral.rejects = true)
    (hround : heads.all (Phrase.mark '(').rejects = true)
    (hcall : Fails Phrase.globalCall (w ++ behind))
    (h : Takes Phrase.literal (w ++ behind) tail P) :
    Takes Phrase.primary (w ++ behind) tail P := by
  obtain ⟨c, more, rfl, hc⟩ := hp.exists_cons htakes hsplit
  exact Expr.takes_literal hcall (List.all_eq_true.mp hlist c hc)
    (List.all_eq_true.mp hround c hc) h

/-- In front of a text that starts with another character the pattern does not match. -/
theorem fails_of_heads {p q : Pattern} {heads : List Char} {name : Rule} (hp : p.Heads heads)
    (htakes : p.takes = true) (hsplit : p.split? text = some (w, rest))
    (hq : heads.all q.rejects = true) : Fails (.token name q) (w ++ behind) := by
  obtain ⟨c, more, rfl, hc⟩ := hp.exists_cons htakes hsplit
  exact fails_token (split?_of_rejects (List.all_eq_true.mp hq c hc) _)

/-! ### Each kind of literal -/

/-- To be a word of names can be computed. -/
theorem isWord_of_all (hall : w.all isWordChar = true)
    (hdigit : w.head?.all (fun c => !c.isDigit) = true) : IsWord w := by
  refine ⟨List.all_eq_true.mp hall, fun c hc => ?_⟩
  rw [hc] at hdigit
  simpa using hdigit

/-- Behind a word no character of names follows, where it ends. -/
theorem barred_of_ends (hw : IsWord w) (hends : Ends w rest) : identChar.Barred rest := by
  intro c hc
  have hchar := hends hw c hc
  simpa [identChar, rejects, isWordChar] using hchar

section Literals

variable {trees : List Tree}

/-- **Null.** The word is the first of the literals, and as a reserved word it is no call. -/
theorem takes_null_token (h : (word "null").split? w = some (w, [])) (hends : Ends w rest) :
    Takes Phrase.primary (w ++ rest) (unlaid rest) (Are [.token .litNull default w]) := by
  obtain rfl := eq_of_word h
  have hbarred := barred_of_ends (isWord_of_all rfl rfl) hends
  refine takes_primary_of_literal heads_words.1 rfl h rfl rfl
    (Expr.fails_call (misses_name_of_reserved rfl hbarred)) ?_
  exact (takes_token ((firm_word "null").again h hbarred) fun _ => rfl).alt

/-- **Booleans.** The two words do not begin as `null` does. -/
theorem takes_boolean_token (h : booleanLiteral.split? w = some (w, [])) (hends : Ends w rest) :
    Takes Phrase.primary (w ++ rest) (unlaid rest) (Are [.token .litBoolean default w]) := by
  obtain ⟨_, _, _, hleft, htest, hw⟩ := split?_seq_eq_some_iff.mp h
  obtain ⟨-, hpair⟩ := split?_unless_eq_some_iff.mp htest
  obtain ⟨rfl, -⟩ := Prod.mk.inj hpair
  rw [List.append_nil] at hw
  subst hw
  -- which of the two it is plays no part
  have hword : IsWord w ∧ reserved.split? (w ++ rest) = some (w, rest) := by
    rcases split?_alt_eq_some_iff.mp hleft with hleft | ⟨-, hleft⟩
    all_goals
      obtain ⟨rfl, -⟩ := split?_exactly_eq_some_iff.mp hleft
      exact ⟨isWord_of_all rfl rfl, rfl⟩
  have hbarred := barred_of_ends hword.1 hends
  refine takes_primary_of_literal heads_words.2 rfl h rfl rfl
    (Expr.fails_call (misses_name_of_reserved hword.2 hbarred)) ?_
  exact (fails_of_heads heads_words.2 rfl h rfl).alt
    (takes_token (firm_booleanLiteral.again h hbarred) fun _ => rfl).alt

/-- **Bytes.** The words in front of them do not begin as they do. -/
theorem takes_bytes_token (h : bytesLiteral.split? w = some (w, [])) :
    Takes Phrase.primary (w ++ rest) (unlaid rest) (Are [.token .litBytes default w]) := by
  refine takes_primary_of_literal heads_quoted.1 rfl h rfl rfl
    ((quotes_bytesLiteral h).fails_call rest) ?_
  exact (fails_of_heads heads_quoted.1 rfl h rfl).alt
    ((fails_of_heads heads_quoted.1 rfl h rfl).alt
      (takes_token (firm_bytesLiteral.again (Q := fun _ => True) h trivial) fun _ => rfl).alt)

/-- **Strings.** Neither words nor bytes begin as they do. -/
theorem takes_string_token (h : stringLiteral.split? w = some (w, [])) :
    Takes Phrase.primary (w ++ rest) (unlaid rest) (Are [.token .litString default w]) := by
  refine takes_primary_of_literal heads_quoted.2 rfl h rfl rfl
    ((quotes_stringLiteral h).fails_call rest) ?_
  exact (fails_of_heads heads_quoted.2 rfl h rfl).alt
    ((fails_of_heads heads_quoted.2 rfl h rfl).alt
      ((fails_of_heads heads_quoted.2 rfl h rfl).alt
        (takes_token (firm_stringLiteral.again (Q := fun _ => True) h trivial) fun _ => rfl).alt))

/-- A number is no call and none of the literals that begin with a letter or a quote. -/
theorem takes_primary_of_number {p : Pattern} (hp : p.Heads ".0123456789".toList)
    (htakes : p.takes = true) (h : p.split? text = some (w, rest))
    (hnumber : Takes (.alt (.token .litDouble doubleLiteral) (.alt (.token .litUint uintLiteral)
      (.token .litInt intLiteral))) (w ++ behind) tail P) :
    Takes Phrase.primary (w ++ behind) tail P := by
  have hname : identifier.split? (w ++ behind) = none := by
    obtain ⟨c, more, rfl, hc⟩ := hp.exists_cons htakes h
    have hall : ".0123456789".toList.all identifier.rejects = true := rfl
    exact split?_of_rejects (List.all_eq_true.mp hall c hc) _
  refine takes_primary_of_literal hp htakes h rfl rfl (Expr.fails_call hname) ?_
  exact (fails_of_heads hp htakes h rfl).alt ((fails_of_heads hp htakes h rfl).alt
    ((fails_of_heads hp htakes h rfl).alt ((fails_of_heads hp htakes h rfl).alt hnumber)))

/-- **Doubles.** They are tried before the integers, so nothing needs to be said of those. -/
theorem takes_double_token (h : doubleLiteral.split? w = some (w, [])) (hrest : EndsOperand rest) :
    Takes Phrase.primary (w ++ rest) (unlaid rest) (Are [.token .litDouble default w]) := by
  refine takes_primary_of_number heads_numbers.1 rfl h ?_
  exact (takes_token (firm_doubleLiteral.again h hrest.double) fun _ => rfl).alt

/-- **Unsigned integers.** They are no doubles because of the letter. -/
theorem takes_uint_token (h : uintLiteral.split? w = some (w, [])) :
    Takes Phrase.primary (w ++ rest) (unlaid rest) (Are [.token .litUint default w]) := by
  refine takes_primary_of_number heads_numbers.2.1 rfl h ?_
  exact (fails_token (misses_double_of_uint h)).alt
    (takes_token (firm_uintLiteral.again (Q := fun _ => True) h trivial) fun _ => rfl).alt

/-- **Integers.** They are neither doubles nor unsigned in front of what ends an operand. -/
theorem takes_int_token (h : intLiteral.split? w = some (w, [])) (hrest : EndsOperand rest) :
    Takes Phrase.primary (w ++ rest) (unlaid rest) (Are [.token .litInt default w]) := by
  have hdouble := misses_double_of_int h hrest.int hrest.fraction hrest.double.exponent
  have huint := misses_uint_of_int h hrest.int (barred_of_mem rfl hrest.head)
  refine takes_primary_of_number heads_numbers.2.2 rfl h ?_
  exact (fails_token hdouble).alt ((fails_token huint).alt
    (takes_token (firm_intLiteral.again h hrest.int) fun _ => rfl))

/-- **Literals.** Every token of a literal is read as what it is. -/
theorem takes_literal_token {tokens : List (List Char)} (h : Phrase.literal.Derives tokens trees) :
    ∃ w, tokens = [w] ∧ ∀ {rest}, Ends w rest → EndsOperand rest →
      Takes Phrase.primary (w ++ rest) (unlaid rest) (Are trees) := by
  obtain ⟨q, hq, hderives⟩ := Phrase.exists_of_derives_first h
  simp only [List.mem_cons, List.not_mem_nil, or_false] at hq
  -- the kinds in the order in which they are tried
  rcases hq with rfl | rfl | rfl | rfl | rfl | rfl | rfl
  all_goals obtain ⟨w, hsplit, rfl, rfl⟩ := Phrase.exists_of_derives_token hderives
  · exact ⟨_, rfl, fun hends _ => takes_null_token hsplit hends⟩
  · exact ⟨_, rfl, fun hends _ => takes_boolean_token hsplit hends⟩
  · exact ⟨_, rfl, fun _ _ => takes_bytes_token hsplit⟩
  · exact ⟨_, rfl, fun _ _ => takes_string_token hsplit⟩
  · exact ⟨_, rfl, fun _ hrest => takes_double_token hsplit hrest⟩
  · exact ⟨_, rfl, fun _ _ => takes_uint_token hsplit⟩
  · exact ⟨_, rfl, fun _ hrest => takes_int_token hsplit hrest⟩

end Literals

/-! ## Names -/

/-- A name consists of characters of names and starts with no digit. -/
theorem isWord_of_name (h : IsName w) : IsWord w := by
  obtain ⟨-, c, more, rfl, hc, hmore⟩ := h.cases
  refine ⟨List.forall_mem_cons.mpr ⟨isWordChar_of_isNameStart hc, hmore⟩, ?_⟩
  rintro _ ⟨⟩
  exact isDigit_eq_false hc

/-- A name without a bracket and without a quote behind it is neither a call nor a literal. -/
theorem takes_primary_of_name (h : identifier.split? (w ++ rest) = some (w, rest))
    (hquote : ∀ c ∈ rest.head?, c ∉ ['\x22', '\x27'])
    (hbracket : Fails (Phrase.mark '(') (unlaid rest)) (hP : ∀ span, P [.token .ident span w]) :
    Takes Phrase.primary (w ++ rest) (unlaid rest) P := by
  have hident : Takes Phrase.ident (w ++ rest) (unlaid rest) P := takes_token h hP
  have hstart : ∀ {p : Phrase}, (∀ c : Char, (c.isAlpha || c == '_') = true → p.rejects c = true) →
      Fails p (w ++ rest) := by
    intro p hp
    have hname : IsName w := lexical_identifier.alone h
    obtain ⟨-, c, more, rfl, hc, -⟩ := hname.cases
    exact Phrase.fails_of_rejects (hp c hc) _
  have hmark : ∀ {x : Char}, (x.isAlpha || x == '_') = false → Fails (Phrase.mark x) (w ++ rest) :=
    fun hx => hstart fun c hc => by
      simp [Phrase.mark, Phrase.rejects, ne_of_isNameStart hc hx]
  have hlist : Fails Phrase.listLiteral (w ++ rest) := (hmark (x := '[') rfl).seq.rule
  have hround : Fails (Phrase.mark '(') (w ++ rest) := hmark rfl
  have hnumber : ∀ {name : Rule} {p : Pattern},
      (∀ c : Char, (c.isAlpha || c == '_') = true → p.rejects c = true) →
      Fails (.token name p) (w ++ rest) := fun hp => hstart hp
  -- a name begins as words and quoted literals do, but not as numbers
  have hliteral : Fails Phrase.literal (w ++ rest) :=
    (fails_token (misses_word_of_name h fun _ => rfl)).alt_fails
      ((fails_token (misses_boolean_of_name h)).alt_fails
        ((fails_token (misses_quoted_of_name quotes_bytesLiteral h hquote)).alt_fails
          ((fails_token (misses_quoted_of_name quotes_stringLiteral h hquote)).alt_fails
            ((hnumber fun _ hc => (rejects_number hc).1).alt_fails
              ((hnumber fun _ hc => (rejects_number hc).2.1).alt_fails
                (hnumber fun _ hc => (rejects_number hc).2.2))))))
  -- the identifier is what is left when a call, a list, a bracket and a literal have failed
  exact (hident.seq_fails hbracket.seq).rule.alt (hlist.alt (hround.seq.alt (hliteral.alt hident)))

/-! ## Operators -/

/-- Each level derives its operators only. -/
theorem exists_of_derives_level {l : Rule × Phrase} (hl : l ∈ Expr.levels)
    {tokens : List (List Char)} {trees : List Tree} (h : l.2.Derives tokens trees) :
    ∃ operator : BinaryOperator, operator.level = l ∧ tokens = [operator.symbol.toList]
      ∧ trees = [.token operator.rule default operator.symbol.toList] := by
  simp only [Expr.levels, List.mem_cons, List.not_mem_nil, or_false] at hl
  -- each of the five levels, with the operators on it
  rcases hl with rfl | rfl | rfl | rfl | rfl
  · obtain ⟨q, hq, hderives⟩ := Phrase.exists_of_derives_first h
    simp only [List.mem_cons, List.not_mem_nil, or_false] at hq
    rcases hq with rfl | rfl | rfl
    · exact ⟨.multiply, rfl, Phrase.eq_of_derives_operator hderives⟩
    · exact ⟨.divide, rfl, Phrase.eq_of_derives_operator hderives⟩
    · exact ⟨.modulo, rfl, Phrase.eq_of_derives_operator hderives⟩
  · obtain ⟨q, hq, hderives⟩ := Phrase.exists_of_derives_first h
    simp only [List.mem_cons, List.not_mem_nil, or_false] at hq
    rcases hq with rfl | rfl
    · exact ⟨.add, rfl, Phrase.eq_of_derives_operator hderives⟩
    · exact ⟨.subtract, rfl, Phrase.eq_of_derives_operator hderives⟩
  · obtain ⟨q, hq, hderives⟩ := Phrase.exists_of_derives_first h
    simp only [List.mem_cons, List.not_mem_nil, or_false] at hq
    rcases hq with rfl | rfl | rfl | rfl | rfl | rfl | rfl
    · exact ⟨.equal, rfl, Phrase.eq_of_derives_operator hderives⟩
    · exact ⟨.notEqual, rfl, Phrase.eq_of_derives_operator hderives⟩
    · exact ⟨.lessOrEqual, rfl, Phrase.eq_of_derives_operator hderives⟩
    · exact ⟨.greaterOrEqual, rfl, Phrase.eq_of_derives_operator hderives⟩
    · exact ⟨.lessThan, rfl, Phrase.eq_of_derives_operator hderives⟩
    · exact ⟨.greaterThan, rfl, Phrase.eq_of_derives_operator hderives⟩
    · -- the only operator that is a word
      obtain ⟨w, hsplit, rfl, rfl⟩ := Phrase.exists_of_derives_token hderives
      obtain rfl := eq_of_word hsplit
      exact ⟨.isIn, rfl, rfl, rfl⟩
  · exact ⟨.and, rfl, Phrase.eq_of_derives_operator h⟩
  · exact ⟨.or, rfl, Phrase.eq_of_derives_operator h⟩

/-- **Operators.** An operator that does not go on with an equals sign is read on its level. -/
theorem takes_symbol (operator : BinaryOperator) (hends : Ends operator.symbol.toList rest)
    (hequals : ∀ c ∈ rest.head?, c ≠ '=') :
    Takes operator.level.2 (operator.symbol.toList ++ rest) (unlaid rest)
      (Are [.token operator.rule default operator.symbol.toList]) := by
  -- `<=` and `>=` are tried before the operators that they begin with
  have hlonger : ∀ {name : Rule} {c : Char},
      Fails (.token name (exactly [c, '='])) (c :: rest) := by
    intro name c
    refine fails_token ?_
    cases rest with
    | nil => simp [split?_exactly, List.isPrefixOf?]
    | cons d more =>
        have hne : ('=' == d) = false := by simpa using (hequals d rfl).symm
        simp [split?_exactly, List.isPrefixOf?, hne]
  cases operator with
  | lessThan =>
      have hthan : Takes (.token .opLt (exactly ['<'])) ('<' :: rest) (unlaid rest)
          (Are [.token .opLt default ['<']]) := takes_token rfl fun _ => rfl
      exact (Phrase.fails_of_rejects rfl _).alt ((Phrase.fails_of_rejects rfl _).alt
        (hlonger.alt ((Phrase.fails_of_rejects rfl _).alt hthan.alt)))
  | greaterThan =>
      have hthan : Takes (.token .opGt (exactly ['>'])) ('>' :: rest) (unlaid rest)
          (Are [.token .opGt default ['>']]) := takes_token rfl fun _ => rfl
      exact (Phrase.fails_of_rejects rfl _).alt ((Phrase.fails_of_rejects rfl _).alt
        ((Phrase.fails_of_rejects rfl _).alt (hlonger.alt
          ((Phrase.fails_of_rejects rfl _).alt hthan.alt))))
  | isIn =>
      have halone : (word "in").split? "in".toList = some ("in".toList, []) := rfl
      have hword := (firm_word "in").again halone (barred_of_ends (isWord_of_all rfl rfl) hends)
      have hin : Takes (.token .opIn (word "in")) ('i' :: 'n' :: rest) (unlaid rest)
          (Are [.token .opIn default "in".toList]) := takes_token hword fun _ => rfl
      exact (Phrase.fails_of_rejects rfl _).alt ((Phrase.fails_of_rejects rfl _).alt
        ((Phrase.fails_of_rejects rfl _).alt ((Phrase.fails_of_rejects rfl _).alt
          ((Phrase.fails_of_rejects rfl _).alt ((Phrase.fails_of_rejects rfl _).alt hin)))))
  | add | subtract | multiply | divide | modulo | equal | notEqual | greaterOrEqual | lessOrEqual
  | and | or =>
      rintro ⟨position, text⟩ rfl
      exact ⟨_, _, rfl, rfl, rfl⟩

end RowFilter.Grammar
