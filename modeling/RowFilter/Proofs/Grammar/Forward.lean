/-
Matching forward: which texts phrases take.

To show that a text is parsed in a certain way one follows the parser along. What a phrase takes is
said up to positions: given the text in front of it, the phrase leaves a certain text behind the
layout that follows, and finds trees with a certain property (`Takes`); or it does not match
there (`Fails`). Every way to build phrases has a rule for each of the two, so that a parse is
put together from its parts as the grammar is.
-/
import RowFilter.Proofs.Grammar.Expressions

set_option autoImplicit false

namespace RowFilter.Grammar

/-! ## Behind layout -/

/-- What is left of a text behind the layout at its front. -/
def unlaid (text : List Char) : List Char := ((layout.split? text).getD ([], text)).2

/-- What a cursor has ahead behind layout depends on its text alone. -/
theorem skipLayout_rest (c : Cursor) : (skipLayout c).rest = unlaid c.rest := by
  rw [skipLayout, unlaid]
  rcases layout.split? c.rest with _ | ⟨taken, rest⟩ <;> rfl

theorem length_unlaid_le (text : List Char) : (unlaid text).length ≤ text.length := by
  obtain ⟨taken, hmoves⟩ := skipLayout_moves (.ofText text)
  have hlength := hmoves.length_le
  rwa [skipLayout_rest] at hlength

/-- Where no layout stands nothing is skipped. -/
theorem unlaid_of_settled {text : List Char}
    (h : (Pattern.alt blank comment).split? text = none) : unlaid text = text := by
  rw [unlaid, layout, Pattern.split?_many_of_none h]
  rfl

/-- A character that begins no layout is where the text goes on. -/
theorem unlaid_of_rejects {c : Char} (h : (Pattern.alt blank comment).rejects c = true)
    (rest : List Char) : unlaid (c :: rest) = c :: rest :=
  unlaid_of_settled (Pattern.split?_of_rejects h rest)

/-- A blank is skipped. -/
theorem unlaid_blank {text : List Char}
    (h : (Pattern.alt blank comment).split? text = none) : unlaid (' ' :: text) = text := by
  have hblank : (Pattern.alt blank comment).split? (' ' :: text) = some ([' '], text) := rfl
  rw [unlaid, layout, Pattern.split?_many_of_some rfl hblank (Pattern.split?_many_of_none h)]
  rfl

/-! ## Taking and failing -/

namespace Phrase

/-- On the given text the phrase matches, leaves `tail` behind the layout that follows, and finds
trees with a property. -/
def Takes (p : Phrase) (text tail : List Char) (P : List Tree → Prop) : Prop :=
  ∀ c : Cursor, c.rest = text → ∃ trees next, p.matched? expression? c = some (trees, next)
    ∧ unlaid next.rest = tail ∧ P trees

/-- On the given text the phrase does not match. -/
def Fails (p : Phrase) (text : List Char) : Prop :=
  ∀ c : Cursor, c.rest = text → p.matched? expression? c = none

/-- Trees of two phrases, one behind the other. -/
def Joined (P Q : List Tree → Prop) (trees : List Tree) : Prop :=
  ∃ left right, trees = left ++ right ∧ P left ∧ Q right

variable {p q item body : Phrase} {text middle tail rest : List Char} {P Q : List Tree → Prop}

theorem Takes.mono (h : Takes p text tail P) (hP : ∀ ts, P ts → Q ts) : Takes p text tail Q := by
  intro c hc
  obtain ⟨trees, next, hmatch, htail, htrees⟩ := h c hc
  exact ⟨trees, next, hmatch, htail, hP trees htrees⟩

/-! ### Tokens and marks -/

/-- A token is taken with the layout behind it. -/
theorem takes_token {name : Rule} {pattern : Pattern} {taken : List Char}
    (h : pattern.split? text = some (taken, rest)) (htrees : ∀ span, P [.token name span taken]) :
    Takes (.token name pattern) text (unlaid rest) P := by
  intro c hc
  refine ⟨_, _, matched?_token_eq_some_iff.mpr ⟨taken, rest, ?_, rfl, rfl⟩, rfl, htrees _⟩
  rw [hc, h]

theorem fails_token {name : Rule} {pattern : Pattern} (h : pattern.split? text = none) :
    Fails (.token name pattern) text := by
  intro c hc
  rw [matched?, hc, h]
  rfl

/-- A mark is taken, and leaves no tree. -/
theorem takes_mark (x : Char) (rest : List Char) :
    Takes (mark x) (x :: rest) (unlaid rest) (· = []) := by
  intro c hc
  exact ⟨_, _, matched?_symbol_eq_some_iff.mpr ⟨rfl, rest, hc, rfl⟩, rfl, rfl⟩

theorem takes_endOfText (hP : ∀ span, P [.token .endOfInput span []]) :
    Takes .endOfText [] [] P := by
  intro c hc
  exact ⟨_, _, matched?_endOfText_eq_some_iff.mpr ⟨hc, rfl, rfl⟩, rfl, hP _⟩

/-! ### Sequences, choices and rules -/

/-- The second phrase takes what the first one leaves. -/
theorem Takes.seq (hp : Takes p text middle P) (hq : Takes q middle tail Q) :
    Takes (.seq p q) text tail (Joined P Q) := by
  intro c hc
  obtain ⟨left, between, hleft, hmiddle, hP⟩ := hp c hc
  obtain ⟨right, next, hright, htail, hQ⟩ :=
    hq (skipLayout between) (by rw [skipLayout_rest, hmiddle])
  exact ⟨left ++ right, next,
    matched?_seq_eq_some_iff.mpr ⟨left, between, right, hleft, hright, rfl⟩, htail,
    left, right, rfl, hP, hQ⟩

/-- A sequence fails if its first phrase does. -/
theorem Fails.seq (hp : Fails p text) : Fails (.seq p q) text := by
  intro c hc
  rw [matched?, hp c hc]
  rfl

/-- It fails, too, if its second phrase does behind the first. -/
theorem Takes.seq_fails (hp : Takes p text middle P) (hq : Fails q middle) :
    Fails (.seq p q) text := by
  intro c hc
  obtain ⟨left, between, hleft, hmiddle, -⟩ := hp c hc
  have hright := hq (skipLayout between) (by rw [skipLayout_rest, hmiddle])
  rw [matched?, hleft, Option.bind_some]
  dsimp only
  rw [hright]
  rfl

/-- The first alternative is taken if it matches. -/
theorem Takes.alt (hp : Takes p text tail P) : Takes (.alt p q) text tail P := by
  intro c hc
  obtain ⟨trees, next, hmatch, htail, htrees⟩ := hp c hc
  exact ⟨trees, next, by rw [matched?, hmatch]; rfl, htail, htrees⟩

/-- The second one is taken if the first does not match. -/
theorem Fails.alt (hp : Fails p text) (hq : Takes q text tail P) :
    Takes (.alt p q) text tail P := by
  intro c hc
  obtain ⟨trees, next, hmatch, htail, htrees⟩ := hq c hc
  exact ⟨trees, next, by rw [matched?, hp c hc, hmatch]; rfl, htail, htrees⟩

/-- Where neither matches nothing is taken. -/
theorem Fails.alt_fails (hp : Fails p text) (hq : Fails q text) : Fails (.alt p q) text := by
  intro c hc
  rw [matched?, hp c hc, hq c hc]
  rfl

/-- A rule makes a node of what its body takes. -/
theorem Takes.rule {name : Rule} (h : Takes body text tail P)
    (htrees : ∀ span ts, P ts → Q [.node name span ts]) : Takes (.rule name body) text tail Q := by
  intro c hc
  obtain ⟨trees, next, hmatch, htail, hP⟩ := h c hc
  exact ⟨_, next, matched?_rule_eq_some_iff.mpr ⟨trees, hmatch, rfl⟩, htail, htrees _ _ hP⟩

theorem Fails.rule {name : Rule} (h : Fails body text) : Fails (.rule name body) text := by
  intro c hc
  rw [matched?, h c hc]
  rfl

/-- A nested expression is one like any other. -/
theorem Takes.expression (h : Takes expressionBody text tail P) :
    Takes .expression text tail P := by
  intro c hc
  rw [matched?, expression?_eq]
  exact h c hc

theorem Fails.expression (h : Fails expressionBody text) : Fails .expression text := by
  intro c hc
  rw [matched?, expression?_eq]
  exact h c hc

/-- What is optional is taken if it is there. -/
theorem Takes.optional (h : Takes p text tail P) : Takes (.optional p) text tail P := by
  intro c hc
  obtain ⟨trees, next, hmatch, htail, htrees⟩ := h c hc
  exact ⟨trees, next, by rw [matched?, hmatch]; rfl, htail, htrees⟩

/-- If it is not, nothing is taken. -/
theorem Fails.optional (h : Fails p text) (hsettled : unlaid text = text) :
    Takes (.optional p) text text (· = []) := by
  intro c hc
  exact ⟨[], c, by rw [matched?, h c hc]; rfl, by rw [hc, hsettled], rfl⟩

/-! ### Repetitions -/

/-- The items of a repetition, one after the other, and where it ends. -/
inductive Repeats (item : Phrase) : List Char → List Char → (List Tree → Prop) → Prop
  | done {text : List Char} (h : Fails item text) : Repeats item text text (· = [])
  | more {text middle tail : List Char} {P Q : List Tree → Prop} (h : Takes item text middle P)
      (hmore : Repeats item middle tail Q) : Repeats item text tail (Joined P Q)

/-- Items are matched one after the other, if the bound is not below the length of the text. -/
theorem Repeats.repeated (htakes : item.takes = true) (h : Repeats item text tail P)
    (bound : List Char) (c : Cursor) (hc : unlaid c.rest = text)
    (hbound : text.length ≤ bound.length) :
    ∃ trees next, repeated (fun c => item.matched? expression? (skipLayout c)) bound c
        = (trees, next) ∧ unlaid next.rest = tail ∧ P trees := by
  -- each item takes a character at least, so the bound does not run out
  induction h generalizing bound c with
  | done h =>
      refine ⟨[], c, ?_, hc, rfl⟩
      cases bound with
      | nil => rfl
      | cons _ bound => rw [repeated_cons, h (skipLayout c) (by rw [skipLayout_rest, hc])]
  | @more text middle tail P Q h _ ih =>
      have hrest : (skipLayout c).rest = text := by rw [skipLayout_rest, hc]
      obtain ⟨left, between, hleft, hmiddle, hP⟩ := h (skipLayout c) hrest
      -- an item takes a character, so the bound is not used up before the items are
      have hless := length_lt_of_takes expression?_moves htakes hleft
      have hle := length_unlaid_le between.rest
      rw [hrest] at hless
      rw [hmiddle] at hle
      cases bound with
      | nil =>
          rw [List.length_nil] at hbound
          omega
      | cons _ bound =>
          rw [List.length_cons] at hbound
          obtain ⟨right, next, hright, htail, hQ⟩ := ih bound between hmiddle (by omega)
          refine ⟨left ++ right, next, ?_, htail, left, right, rfl, hP, hQ⟩
          rw [repeated_cons, hleft]
          dsimp only
          rw [hright]

/-- A repetition takes its items one after the other. -/
theorem Repeats.takes_many (htakes : item.takes = true) (hsettled : unlaid text = text)
    (h : Repeats item text tail P) : Takes (.many item) text tail P := by
  intro c hc
  cases h with
  | done h => exact ⟨[], c, by rw [matched?, h c hc], by rw [hc, hsettled], rfl⟩
  | @more _ middle _ P Q h hmore =>
      -- the first item stands in no layout, and is matched where the repetition is
      obtain ⟨left, between, hleft, hmiddle, hP⟩ := h c hc
      have hless := length_lt_of_takes expression?_moves htakes hleft
      have hle := length_unlaid_le between.rest
      rw [hmiddle] at hle
      obtain ⟨right, next, hright, htail, hQ⟩ :=
        hmore.repeated htakes c.rest between hmiddle (by omega)
      refine ⟨left ++ right, next, ?_, htail, left, right, rfl, hP, hQ⟩
      rw [matched?, hleft]
      dsimp only
      rw [hright]

theorem Fails.many (h : Fails item text) (hsettled : unlaid text = text) :
    Takes (.many item) text text (· = []) := by
  intro c hc
  exact ⟨[], c, by rw [matched?, h c hc], by rw [hc, hsettled], rfl⟩

/-! ### First characters -/

/-- The phrase does not match what begins with the character. -/
def rejects (c : Char) : Phrase → Bool
  | .symbol [] => false
  | .symbol (e :: _) => e != c
  | .token _ pattern => pattern.rejects c
  | .endOfText => true
  | .rule _ body => body.rejects c
  | .seq first _ => first.rejects c
  | .alt first second => first.rejects c && second.rejects c
  | .expression | .many _ | .optional _ => false

/-- A phrase that rejects the first character does not match. -/
theorem fails_of_rejects {x : Char} (hp : p.rejects x = true) (rest : List Char) :
    Fails p (x :: rest) := by
  induction p with
  | symbol expected =>
      intro c hc
      cases expected with
      | nil => cases hp
      | cons e more =>
          have hne : (e == x) = false := by simpa [rejects] using hp
          simp [matched?, hc, List.isPrefixOf?, hne]
  | token name pattern => exact fails_token (Pattern.split?_of_rejects hp rest)
  | endOfText =>
      intro c hc
      rw [matched?, hc]
      rfl
  | rule name body ih => exact (ih hp).rule
  -- by the first phrase alone, since what begins a phrase may not be optional
  | seq first second ihfirst _ => exact (ihfirst hp).seq
  | alt first second ihfirst ihsecond =>
      obtain ⟨hfirst, hsecond⟩ := Bool.and_eq_true_iff.mp hp
      exact (ihfirst hfirst).alt_fails (ihsecond hsecond)
  | expression | many | optional => cases hp

/-- At the end of a text nothing matches that takes a character. -/
theorem fails_nil (hp : p.takes = true) : Fails p [] := by
  intro c hc
  rcases hmatch : p.matched? expression? c with _ | ⟨trees, next⟩
  · rfl
  · have hless := length_lt_of_takes expression?_moves hp hmatch
    rw [hc, List.length_nil] at hless
    omega

/-! ### Programs -/

/-- What is an expression from behind the layout at its front to its end is a program. -/
theorem Takes.readProgram (h : Takes .expression (unlaid text) [] P) :
    ∃ span inner last, readProgram text
        = .ok (.node .program span (inner ++ [.token .endOfInput last []])) ∧ P inner := by
  -- the layout at the front is skipped behind a symbol that takes nothing
  have hstart : Takes (.symbol []) text (unlaid text) (· = []) := by
    intro c hc
    exact ⟨[], _, matched?_symbol_eq_some_iff.mpr ⟨rfl, text, hc, rfl⟩, rfl, rfl⟩
  have hprogram : Takes program text [] fun ts => ∃ span inner last,
      ts = [.node .program span (inner ++ [.token .endOfInput last []])] ∧ P inner := by
    refine (hstart.seq (h.seq (takes_endOfText (P := fun ts => ∃ last,
      ts = [.token .endOfInput last []]) fun span => ⟨_, rfl⟩))).rule fun span ts hts => ?_
    obtain ⟨_, _, rfl, rfl, inner, _, rfl, hinner, last, rfl⟩ := hts
    exact ⟨span, inner, last, rfl, hinner⟩
  obtain ⟨_, next, hmatch, -, span, inner, last, rfl, hinner⟩ := hprogram (.ofText text) rfl
  exact ⟨span, inner, last, readProgram_eq_ok_iff.mpr ⟨next, hmatch⟩, hinner⟩

end Phrase

end RowFilter.Grammar
