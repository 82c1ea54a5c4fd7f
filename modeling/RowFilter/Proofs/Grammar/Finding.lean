/-
What phrases find.

Of the trees that a phrase finds much can be said without looking at the text they are found in.
`Finds` says that all the trees a matcher finds have a property, wherever it matches. Every way to
build phrases has one rule for it, so a property of parse trees is followed from the tokens up as
the grammar is built, and the recursion of the grammar is closed once (`finds_expression?`).
-/
import RowFilter.Proofs.Grammar.Forward

set_option autoImplicit false

namespace RowFilter.Grammar

/-- Whatever the matcher finds has the property. -/
def Finds (m : Matcher) (P : List Tree → Prop) : Prop :=
  ∀ c trees next, m c = some (trees, next) → P trees

/-- Trees of one item after the other. -/
inductive Repeated (P : List Tree → Prop) : List Tree → Prop
  | nil : Repeated P []
  | more {trees behind : List Tree} (h : P trees) (hmore : Repeated P behind) :
      Repeated P (trees ++ behind)

variable {m nested : Matcher} {P Q : List Tree → Prop} {p q item body : Phrase} {trees : List Tree}

theorem Finds.mono (h : Finds m P) (hP : ∀ ts, P ts → Q ts) : Finds m Q :=
  fun c trees next hmatch => hP trees (h c trees next hmatch)

/-- What holds of no trees, and of the trees of one item more, holds of a repetition. -/
theorem Repeated.collect (h : Repeated P trees) (hnil : Q [])
    (hmore : ∀ left right, P left → Q right → Q (left ++ right)) : Q trees := by
  induction h with
  | nil => exact hnil
  | more h _ ih => exact hmore _ _ h ih

namespace Phrase

/-! ## One rule for each way to build phrases -/

/-- A symbol has no trees. -/
theorem finds_symbol {expected : List Char} :
    Finds ((symbol expected).matched? nested) (· = []) := by
  intro c trees next hmatch
  exact (matched?_symbol_eq_some_iff.mp hmatch).1

/-- A token is one tree, with a text that its pattern takes. -/
theorem finds_token {name : Rule} {pattern : Pattern}
    (h : ∀ text taken rest, pattern.split? text = some (taken, rest) →
      ∀ span, P [.token name span taken]) : Finds ((token name pattern).matched? nested) P := by
  intro c trees next hmatch
  obtain ⟨taken, rest, hsplit, -, rfl⟩ := matched?_token_eq_some_iff.mp hmatch
  exact h c.rest taken rest hsplit _

/-- A rule makes a node of what its body has found. -/
theorem finds_rule {name : Rule} (h : Finds (body.matched? nested) P)
    (hP : ∀ span inner, P inner → Q [.node name span inner]) :
    Finds ((rule name body).matched? nested) Q := by
  intro c trees next hmatch
  obtain ⟨inner, hbody, rfl⟩ := matched?_rule_eq_some_iff.mp hmatch
  exact hP _ inner (h c inner next hbody)

/-- A sequence finds the trees of both its phrases. -/
theorem finds_seq (hp : Finds (p.matched? nested) P) (hq : Finds (q.matched? nested) Q) :
    Finds ((seq p q).matched? nested) (Joined P Q) := by
  intro c trees next hmatch
  obtain ⟨left, between, right, hleft, hright, rfl⟩ := matched?_seq_eq_some_iff.mp hmatch
  exact ⟨left, right, rfl, hp c left between hleft, hq _ right next hright⟩

/-- A mark in front leaves no tree. -/
theorem finds_behind_mark {x : Char} (h : Finds (p.matched? nested) P) :
    Finds ((seq (mark x) p).matched? nested) P := by
  refine (finds_seq finds_symbol h).mono fun ts hts => ?_
  obtain ⟨_, right, rfl, rfl, hright⟩ := hts
  exact hright

/-- Neither does one behind. -/
theorem finds_before_mark {x : Char} (h : Finds (p.matched? nested) P) :
    Finds ((seq p (mark x)).matched? nested) P := by
  refine (finds_seq h finds_symbol).mono fun ts hts => ?_
  obtain ⟨left, _, rfl, hleft, rfl⟩ := hts
  rwa [List.append_nil]

theorem finds_alt (hp : Finds (p.matched? nested) P) (hq : Finds (q.matched? nested) P) :
    Finds ((alt p q).matched? nested) P := by
  intro c trees next hmatch
  rcases Option.or_eq_some_iff.mp hmatch with hfirst | ⟨-, hsecond⟩
  · exact hp c trees next hfirst
  · exact hq c trees next hsecond

/-- What is optional is found, or nothing is. -/
theorem finds_optional (h : Finds (item.matched? nested) P) (hnil : P []) :
    Finds ((optional item).matched? nested) P := by
  intro c trees next hmatch
  rcases matched?_optional_eq_some_iff.mp hmatch with hitem | ⟨-, rfl, -⟩
  · exact h c trees next hitem
  · exact hnil

/-- All items of a repetition are found alike. -/
theorem repeated_found {again : Matcher} (h : Finds again P) (bound : List Char) (c : Cursor) :
    Repeated P (repeated again bound c).1 := by
  -- one item at a time, for as long as the bound lasts
  induction bound generalizing c with
  | nil => exact .nil
  | cons _ bound ih =>
      rw [repeated_cons]
      rcases hitem : again c with _ | ⟨trees, next⟩
      · exact .nil
      · exact .more (h c trees next hitem) (ih next)

/-- So a repetition finds items one after the other. -/
theorem finds_many (h : Finds (item.matched? nested) P) :
    Finds ((many item).matched? nested) (Repeated P) := by
  intro c trees next hmatch
  have hskipping : Finds (fun c => item.matched? nested (skipLayout c)) P :=
    fun c trees next => h (skipLayout c) trees next
  rcases matched?_many_eq_some_iff.mp hmatch with
    ⟨-, rfl, -⟩ | ⟨left, middle, more, hitem, hagain, rfl⟩
  · exact .nil
  · have hmore := repeated_found hskipping c.rest middle
    rw [hagain] at hmore
    exact .more (h c left middle hitem) hmore

end Phrase

/-! ## Expressions and programs -/

/-- What an expression finds, if its body finds it as soon as the expressions inside do. -/
theorem finds_expression?
    (h : ∀ nested, Finds nested P → Finds (Phrase.expressionBody.matched? nested) P) :
    Finds expression? P := by
  have hlevels : ∀ depth, Finds (expressionsTo depth) P := by
    intro depth
    induction depth with
    | zero =>
        intro c trees next hmatch
        cases hmatch
    | succ depth ih => exact h _ ih
  exact fun c => hlevels _ c

/-- A program is what an expression finds, and the end of the text. -/
theorem finds_readProgram {text : List Char} {tree : Tree} (h : Finds expression? P)
    (hread : readProgram text = .ok tree) :
    ∃ span inner last, tree = .node .program span (inner ++ [.token .endOfInput last []])
      ∧ P inner := by
  obtain ⟨next, hmatch⟩ := readProgram_eq_ok_iff.mp hread
  obtain ⟨inner, hprogram, hnode⟩ := Phrase.matched?_rule_eq_some_iff.mp hmatch
  obtain ⟨start, _, trees, hstart, htrees, rfl⟩ := Phrase.matched?_seq_eq_some_iff.mp hprogram
  obtain ⟨rfl, -⟩ := Phrase.matched?_symbol_eq_some_iff.mp hstart
  obtain ⟨left, _, right, hleft, hright, rfl⟩ := Phrase.matched?_seq_eq_some_iff.mp htrees
  obtain ⟨-, -, rfl⟩ := Phrase.matched?_endOfText_eq_some_iff.mp hright
  obtain rfl := (List.cons.inj hnode).1
  exact ⟨_, left, _, rfl, h _ left _ hleft⟩

end RowFilter.Grammar
