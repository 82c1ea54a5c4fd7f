/-
Tokens and layout as the scan sees them.

The scan reads characters one by one and knows no tokens. Where it stands in front of a token
it is ready (`Ready`): the next character is code to it, also behind a slash that no second one
follows, and at the end of a comment. Token by token it gets back there and has seen no
bracket. Most tokens have no characters of a special meaning at all (`Pattern.avoids`); literals in
quotes take it from context to context (`Pattern.Leads`), and need that no letter `r` stands in
front of them which is not their own. Layout is skipped as far as it goes, so no comment begins
where a token does, and a slash that is an operator stays one.
-/
import RowFilter.Proofs.Grammar.Matching
import RowFilter.Proofs.Source.Brackets

set_option autoImplicit false

namespace RowFilter

open Grammar (Pattern)

/-! ## Ready for a token -/

namespace Brackets.Context

/-- With `rest` ahead, the next character is code. -/
def Ready (k : Context) (rest : List Char) : Prop :=
  match k.mode with
  | .code => True
  | .slash => rest.head? ≠ some '/'
  | .comment => ∀ c ∈ rest.head?, c = '\n'
  | .quoted _ _ | .escaped _ => False

/-- The context with which a character of code is read. -/
def asCode (k : Context) : Context := ⟨.code, k.rawMark⟩

/-- A character of code, in a context that says whether a letter `r` stands in front of it. -/
structure Code (clean : Bool) (k : Context) : Prop where
  mode_eq : k.mode = .code
  rawMark_eq : clean = true → k.rawMark = false

variable {k : Context} {c : Char} {taken rest : List Char} {clean : Bool}

theorem Code.ready (h : Code clean k) (rest : List Char) : k.Ready rest := by
  rw [Ready, h.mode_eq]
  trivial

theorem Code.loosen (h : Code clean k) : Code false k := ⟨h.mode_eq, by rintro ⟨⟩⟩

/-- The next character is read as in code, whatever the context. -/
theorem Ready.next_eq (h : k.Ready (c :: rest)) :
    k.next c = k.asCode.next c ∧ k.counts c = k.asCode.counts c := by
  rcases k with ⟨mode, rawMark⟩
  cases mode with
  | code => exact ⟨rfl, rfl⟩
  | slash =>
      have hslash : c ≠ '/' := fun hc => h (congrArg some hc)
      exact ⟨if_neg hslash, rfl⟩
  | comment =>
      obtain rfl : c = '\n' := h c rfl
      exact ⟨rfl, rfl⟩
  | quoted | escaped => exact h.elim

/-- What is read as code is read as in code all the way. -/
theorem Ready.after_eq (h : k.Ready (taken ++ rest)) (htaken : taken ≠ []) :
    k.after taken = k.asCode.after taken ∧ k.seen taken = k.asCode.seen taken := by
  cases taken with
  | nil => exact absurd rfl htaken
  | cons c more =>
      obtain ⟨hnext, hcounts⟩ := h.next_eq
      rw [after_cons, after_cons, seen, seen, hnext, hcounts]
      exact ⟨rfl, rfl⟩

/-! ## Characters without a special meaning -/

/-- The characters that mean something to the scan, a letter `r` apart. -/
def special : List Char := ['\x22', '\x27', '/', '(', ')', '[', ']']

/-- A character without a special meaning leaves the scan in code. -/
theorem Code.next_plain (h : Code false k) (hc : c ∉ special) :
    k.next c = ⟨.code, c == 'r' || c == 'R'⟩ ∧ k.counts c = false := by
  rcases k with ⟨mode, rawMark⟩
  obtain rfl : mode = .code := h.mode_eq
  simp only [special, List.mem_cons, List.not_mem_nil, or_false, not_or] at hc
  obtain ⟨hdouble, hsingle, hslash, hround, hround', hsquare, hsquare'⟩ := hc
  constructor
  · rw [next, code, if_neg (by simp [hdouble, hsingle]), if_neg hslash]
  · simp [counts, isBracket, isOpening, isClosing, hround, hround', hsquare, hsquare']

/-- So does a text of such characters, and no bracket is seen in it. -/
theorem Code.after_plain (h : Code false k) (htaken : ∀ c ∈ taken, c ∉ special) :
    Code false (k.after taken) ∧ k.seen taken = [] := by
  induction taken generalizing k with
  | nil => exact ⟨h, rfl⟩
  | cons c more ih =>
      obtain ⟨hnext, hcounts⟩ := h.next_plain (htaken c List.mem_cons_self)
      rw [after_cons, seen_cons_of_not_counts hcounts, hnext]
      exact ih ⟨rfl, by rintro ⟨⟩⟩ fun d hd => htaken d (List.mem_cons_of_mem _ hd)

/-- Behind characters none of which is a letter `r` there is none. -/
theorem Code.after_clean (h : Code false k) (hnonempty : taken ≠ [])
    (htaken : ∀ c ∈ taken, c ∉ 'r' :: 'R' :: special) :
    Code true (k.after taken) ∧ k.seen taken = [] := by
  induction taken generalizing k with
  | nil => exact absurd rfl hnonempty
  | cons c more ih =>
      have hc := htaken c List.mem_cons_self
      simp only [List.mem_cons, not_or] at hc
      obtain ⟨hnext, hcounts⟩ := h.next_plain (c := c) (by simpa [special] using hc.2.2)
      have hmark : (c == 'r' || c == 'R') = false := by simp [hc.1, hc.2.1]
      rw [after_cons, seen_cons_of_not_counts hcounts, hnext, hmark]
      -- the last character decides, so the induction ends at a single one
      by_cases hmore : more = []
      · subst hmore
        exact ⟨⟨rfl, fun _ => rfl⟩, rfl⟩
      · exact ih ⟨rfl, by rintro ⟨⟩⟩ hmore fun d hd => htaken d (List.mem_cons_of_mem _ hd)

end Brackets.Context

open Brackets (Context)
open Brackets.Context (Code Ready)

/-! ## Patterns -/

namespace Grammar.Pattern

variable {p first second item : Pattern}

/-- Whatever the pattern takes leads the scan from one kind of context to another, and shows it
no bracket. -/
def Leads (p : Pattern) (I J : Context → Prop) : Prop :=
  ∀ text taken rest k, p.split? text = some (taken, rest) → I k →
    J (k.after taken) ∧ k.seen taken = []

variable {I J K : Context → Prop}

/-- One character leads as it does in each of the contexts. -/
theorem leads_one {accepts : Char → Bool}
    (h : ∀ c k, accepts c = true → I k → J (k.next c) ∧ k.counts c = false) :
    (one accepts).Leads I J := by
  intro text taken rest k hsplit hk
  obtain ⟨c, hc, rfl, -⟩ := split?_one_eq_some_iff.mp hsplit
  obtain ⟨hnext, hcounts⟩ := h c k hc hk
  exact ⟨hnext, Context.seen_cons_of_not_counts hcounts _⟩

/-- A sequence leads by way of its first pattern. -/
theorem Leads.seq (hfirst : first.Leads I J) (hsecond : second.Leads J K) :
    (first.seq second).Leads I K := by
  intro text taken rest k hsplit hk
  obtain ⟨left, middle, right, hleft, hright, rfl⟩ := split?_seq_eq_some_iff.mp hsplit
  obtain ⟨hmiddle, hseen⟩ := hfirst _ _ _ k hleft hk
  obtain ⟨hlast, hseen'⟩ := hsecond _ _ _ _ hright hmiddle
  rw [Context.after_append, Context.seen_append, hseen, hseen']
  exact ⟨hlast, rfl⟩

/-- Alternatives lead where both do. -/
theorem Leads.alt (hfirst : first.Leads I J) (hsecond : second.Leads I J) :
    (first.alt second).Leads I J := by
  intro text taken rest k hsplit hk
  rcases split?_alt_eq_some_iff.mp hsplit with hsplit | ⟨-, hsplit⟩
  · exact hfirst _ _ _ k hsplit hk
  · exact hsecond _ _ _ k hsplit hk

/-- A repetition stays where its item does. -/
theorem Leads.many (hitem : item.Leads I I) : (many item).Leads I I := by
  intro text taken rest k hsplit
  refine split?_many_induction
    (motive := fun _ taken _ => ∀ k, I k → I (k.after taken) ∧ k.seen taken = []) hsplit
    (fun _ k hk => ⟨hk, rfl⟩) (fun text taken middle more rest htaken hmore k hk => ?_) k
  obtain ⟨hmiddle, hseen⟩ := hitem _ _ _ k htaken hk
  obtain ⟨hlast, hseen'⟩ := hmore _ hmiddle
  rw [Context.after_append, Context.seen_append, hseen, hseen']
  exact ⟨hlast, rfl⟩

/-- A test stays where it is. -/
theorem leads_unless : («unless» item).Leads I I := by
  intro text taken rest k hsplit hk
  obtain ⟨-, hpair⟩ := split?_unless_eq_some_iff.mp hsplit
  obtain ⟨rfl, rfl⟩ := Prod.mk.inj hpair
  exact ⟨hk, rfl⟩

/-! ### Tokens without quotes -/

/-- A pattern of plain characters stays in code. -/
theorem leads_plain (hp : p.avoids Context.special = true) :
    p.Leads (Code false) (Code false) :=
  fun _ _ _ _ hsplit hk => hk.after_plain (not_mem_of_avoids hp hsplit)

/-- Without the letter `r` among them it leaves no such letter in front. -/
theorem leads_clean (hp : p.avoids ('r' :: 'R' :: Context.special) = true)
    (htakes : p.takes = true) : p.Leads (Code false) (Code true) :=
  fun _ _ _ _ hsplit hk =>
    hk.after_clean (ne_nil_of_takes htakes hsplit) (not_mem_of_avoids hp hsplit)

/-! ### Literals in quotes -/

/-- Within a literal. -/
def Inside (delimiter : Char) (raw : Bool) (k : Context) : Prop := k.mode = .quoted delimiter raw

/-- Behind a letter `r` that makes a literal raw, or not. -/
def Marked (raw : Bool) (k : Context) : Prop := k = ⟨.code, raw⟩

/-- The two delimiters. -/
def IsQuote (c : Char) : Prop := c = '\x22' ∨ c = '\x27'

/-- A delimiter leads into the literal, raw or not. -/
theorem leads_open {delimiter : Char} (hquote : IsQuote delimiter) (raw : Bool) :
    (char delimiter).Leads (Marked raw) (Inside delimiter raw) := by
  apply leads_one
  rintro c k hc rfl
  obtain rfl : c = delimiter := beq_iff_eq.mp hc
  rcases hquote with rfl | rfl <;> exact ⟨rfl, rfl⟩

/-- The same delimiter leads out of it. -/
theorem leads_close {delimiter : Char} (hquote : IsQuote delimiter) (raw : Bool) :
    (char delimiter).Leads (Inside delimiter raw) (Code false) := by
  apply leads_one
  rintro c ⟨mode, rawMark⟩ hc hk
  obtain rfl : c = delimiter := beq_iff_eq.mp hc
  obtain rfl : mode = .quoted c raw := hk
  -- the scan looks for a backslash before it looks for the delimiter
  have hescape : ¬ (c = '\\' ∧ raw = false) := by
    rintro ⟨rfl, -⟩
    rcases hquote with h | h <;> exact absurd h (by decide)
  rw [Context.next]
  dsimp only
  rw [if_neg hescape, if_pos (.inl rfl)]
  exact ⟨⟨rfl, by rintro ⟨⟩⟩, rfl⟩

/-- Within a literal, all characters but a backslash and the two that end it. -/
theorem inside_next {delimiter c : Char} {raw : Bool} {k : Context} (hk : Inside delimiter raw k)
    (hescape : ¬ (c = '\\' ∧ raw = false)) (hdelimiter : c ≠ delimiter) (hline : c ≠ '\n') :
    Inside delimiter raw (k.next c) ∧ k.counts c = false := by
  rcases k with ⟨mode, rawMark⟩
  obtain rfl : mode = .quoted delimiter raw := hk
  rw [Context.next]
  dsimp only
  rw [if_neg hescape, if_neg (by simp [hdelimiter, hline])]
  exact ⟨rfl, rfl⟩

/-- A raw text is led from delimiter to delimiter. -/
theorem leads_rawBody {delimiter : Char} (hquote : IsQuote delimiter) :
    (rawBody delimiter).Leads (Marked true) (Code false) := by
  refine (leads_open hquote true).seq (Leads.seq (Leads.many ?_) (leads_close hquote true))
  apply leads_one
  intro c k hc hk
  simp only [List.contains_cons, List.contains_nil, Bool.or_false, Bool.not_eq_true',
    Bool.or_eq_false_iff, beq_eq_false_iff_ne] at hc
  exact inside_next hk (by simp) hc.1 hc.2

/-- So is a quoted one, whose escapes may hold the delimiter. -/
theorem leads_quotedBody {delimiter : Char} (hquote : IsQuote delimiter) :
    (quotedBody delimiter).Leads (Marked false) (Code false) := by
  refine (leads_open hquote false).seq (Leads.seq (Leads.many (Leads.alt ?_ ?_))
    (leads_close hquote false))
  · -- a backslash and what it takes with it
    refine Leads.seq (J := fun k => k.mode = .escaped delimiter) (leads_one ?_) (leads_one ?_)
    · rintro c ⟨mode, rawMark⟩ hc hk
      obtain rfl : c = '\\' := beq_iff_eq.mp hc
      obtain rfl : mode = .quoted delimiter false := hk
      exact ⟨rfl, rfl⟩
    · rintro c ⟨mode, rawMark⟩ - hk
      obtain rfl : mode = .escaped delimiter := hk
      exact ⟨rfl, rfl⟩
  · apply leads_one
    intro c k hc hk
    simp only [List.contains_cons, List.contains_nil, Bool.or_false, Bool.not_eq_true',
      Bool.or_eq_false_iff, beq_eq_false_iff_ne] at hc
    exact inside_next hk (fun h => hc.2.1 h.1) hc.1 hc.2.2

/-- The letter of a raw string marks what follows. -/
theorem leads_rawMark : (letter 'r' 'R').Leads (Code false) (Marked true) := by
  refine Leads.alt (leads_one ?_) (leads_one ?_)
  all_goals
    rintro c ⟨mode, rawMark⟩ hc hk
    obtain rfl := beq_iff_eq.mp hc
    obtain rfl : mode = .code := hk.mode_eq
    exact ⟨rfl, rfl⟩

theorem leads_rawString : rawString.Leads (Code false) (Code false) :=
  leads_rawMark.seq ((leads_rawBody (.inl rfl)).alt (leads_rawBody (.inr rfl)))

/-- **Quoted strings.** No letter `r` may stand in front of them. -/
theorem leads_quotedString : quotedString.Leads (Code true) (Code false) := by
  have hmarked : ∀ k, Code true k → Marked false k := by
    rintro ⟨mode, rawMark⟩ hk
    obtain rfl : mode = .code := hk.mode_eq
    obtain rfl : rawMark = false := hk.rawMark_eq rfl
    rfl
  exact fun text taken rest k hsplit hk =>
    (leads_quotedBody (.inl rfl)).alt (leads_quotedBody (.inr rfl)) text taken rest k hsplit
      (hmarked k hk)

/-- Not raw or raw, a string is read to its end, if no letter `r` of something else stands in
front of it. -/
theorem leads_stringLiteral : stringLiteral.Leads (Code true) (Code false) :=
  Leads.alt (fun text taken rest k hsplit hk => leads_rawString text taken rest k hsplit hk.loosen)
    leads_quotedString

/-- **Bytes.** Their own letter stands in front of the quote, so nothing is asked of what is before.
-/
theorem leads_bytesLiteral : bytesLiteral.Leads (Code false) (Code false) :=
  (leads_clean (p := letter 'b' 'B') rfl rfl).seq leads_stringLiteral

end Grammar.Pattern

end RowFilter
