/-
Sentences of the grammar.

Read without its order and without its layout, a phrase derives sequences of tokens, each with the
trees that belong to it (`Phrase.Derives`). A text has the tokens in it if they stand in it one
after the other, each behind all the layout that follows the one before, and if no word in it
is just the beginning of a longer one (`Spaced`). What the parser takes is a sentence in this sense:
it finds the trees of one of the derivations, up to places, and the tokens of the derivation stand
where it has read (`Phrase.reads_matched?`).
-/
import RowFilter.Proofs.Grammar.Forward

set_option autoImplicit false

namespace RowFilter.Grammar

/-! ## Trees up to places -/

namespace Tree

mutual

/-- A parse tree without its places in a source text. -/
def unplaced : Tree → Tree
  | .token rule _ text => .token rule default text
  | .node rule _ children => .node rule default (unplacedAll children)

def unplacedAll : List Tree → List Tree
  | [] => []
  | t :: more => t.unplaced :: unplacedAll more

end

theorem unplacedAll_cons (t : Tree) (more : List Tree) :
    unplacedAll (t :: more) = t.unplaced :: unplacedAll more := rfl

theorem unplacedAll_append (left right : List Tree) :
    unplacedAll (left ++ right) = unplacedAll left ++ unplacedAll right := by
  induction left with
  | nil => rfl
  | cons t left ih =>
      rw [List.cons_append, unplacedAll_cons, ih, unplacedAll_cons, List.cons_append]

mutual

/-- Where there are no places there are none to leave out. -/
theorem unplaced_unplaced (t : Tree) : t.unplaced.unplaced = t.unplaced := by
  cases t with
  | token => rfl
  | node rule span children => rw [unplaced, unplaced, unplacedAll_unplacedAll children]
termination_by structural t

theorem unplacedAll_unplacedAll (ts : List Tree) :
    unplacedAll (unplacedAll ts) = unplacedAll ts := by
  cases ts with
  | nil => rfl
  | cons t more =>
      rw [unplacedAll_cons, unplacedAll_cons, unplaced_unplaced t, unplacedAll_unplacedAll more]
termination_by structural ts

end

end Tree

open RowFilter.Grammar.Tree (unplacedAll unplacedAll_append)

/-- The trees that are found are these, up to places. -/
def Are (trees found : List Tree) : Prop := unplacedAll found = trees

/-! ## Derivations -/

/-- **What a phrase derives**: tokens, and the trees that they make. Alternatives have no order
here, repetitions and options take as much or as little as they like, and there is no layout. -/
inductive Phrase.Derives : Phrase → List (List Char) → List Tree → Prop
  | symbol {expected : List Char} (h : expected ≠ []) : Derives (.symbol expected) [expected] []
  | token {name : Rule} {pattern : Pattern} {w : List Char}
      (h : pattern.split? w = some (w, [])) :
      Derives (.token name pattern) [w] [.token name default w]
  | rule {name : Rule} {body : Phrase} {tokens : List (List Char)} {trees : List Tree}
      (h : Derives body tokens trees) : Derives (.rule name body) tokens [.node name default trees]
  | expression {tokens : List (List Char)} {trees : List Tree}
      (h : Derives expressionBody tokens trees) : Derives .expression tokens trees
  | seq {first second : Phrase} {tokens more : List (List Char)} {trees behind : List Tree}
      (hfirst : Derives first tokens trees) (hsecond : Derives second more behind) :
      Derives (.seq first second) (tokens ++ more) (trees ++ behind)
  | altFirst {first second : Phrase} {tokens : List (List Char)} {trees : List Tree}
      (h : Derives first tokens trees) : Derives (.alt first second) tokens trees
  | altSecond {first second : Phrase} {tokens : List (List Char)} {trees : List Tree}
      (h : Derives second tokens trees) : Derives (.alt first second) tokens trees
  | manyNone {item : Phrase} : Derives (.many item) [] []
  | manyMore {item : Phrase} {tokens more : List (List Char)} {trees behind : List Tree}
      (h : Derives item tokens trees) (hmore : Derives (.many item) more behind) :
      Derives (.many item) (tokens ++ more) (trees ++ behind)
  | optionalNone {item : Phrase} : Derives (.optional item) [] []
  | optionalSome {item : Phrase} {tokens : List (List Char)} {trees : List Tree}
      (h : Derives item tokens trees) : Derives (.optional item) tokens trees

namespace Phrase

variable {tokens : List (List Char)} {trees : List Tree}

/-- Of several alternatives any one is derived. -/
theorem exists_of_derives_first {p : Phrase} {ps : List Phrase}
    (h : Derives (first p ps) tokens trees) : ∃ q ∈ p :: ps, Derives q tokens trees := by
  induction ps generalizing p with
  | nil => exact ⟨p, List.mem_cons_self, h⟩
  | cons q ps ih =>
      cases h with
      | altFirst h => exact ⟨p, List.mem_cons_self, h⟩
      | altSecond h =>
          obtain ⟨r, hr, h⟩ := ih h
          exact ⟨r, List.mem_cons_of_mem p hr, h⟩

/-- A token is derived from one text, which its pattern takes as a whole. -/
theorem exists_of_derives_token {name : Rule} {pattern : Pattern}
    (h : Derives (.token name pattern) tokens trees) :
    ∃ w, pattern.split? w = some (w, []) ∧ tokens = [w] ∧ trees = [.token name default w] := by
  cases h with
  | @token _ _ w h => exact ⟨w, h, rfl, rfl⟩

/-- An operator is derived from its spelling alone. -/
theorem eq_of_derives_operator {name : Rule} {spelling : String}
    (h : Derives (operator name spelling) tokens trees) :
    tokens = [spelling.toList] ∧ trees = [.token name default spelling.toList] := by
  obtain ⟨w, hsplit, rfl, rfl⟩ := exists_of_derives_token h
  obtain ⟨rfl, -⟩ := Pattern.split?_exactly_eq_some_iff.mp hsplit
  exact ⟨rfl, rfl⟩

end Phrase

/-! ## Tokens in a text -/

/-- The characters of names. -/
def isWordChar (c : Char) : Bool := c.isAlphanum || c == '_'

/-- A word has characters of names only, and no digit in front. -/
def IsWord (w : List Char) : Prop :=
  (∀ c ∈ w, isWordChar c = true) ∧ ∀ c ∈ w.head?, c.isDigit = false

/-- In front of `rest` the token ends: if it is a word, it does not go on. -/
def Ends (w rest : List Char) : Prop := IsWord w → ∀ c ∈ rest.head?, isWordChar c = false

/-- The tokens stand at the front of a text one after the other, each behind the layout that
follows the one before it; `tail` is left behind the last one and its layout. -/
inductive Spaced : List (List Char) → List Char → List Char → Prop
  | nil (tail : List Char) : Spaced [] tail tail
  | cons {w rest tail : List Char} {tokens : List (List Char)} (hw : w ≠ []) (hends : Ends w rest)
      (h : Spaced tokens (unlaid rest) tail) : Spaced (w :: tokens) (w ++ rest) tail

/-- Behind layout there is no layout. -/
theorem unlaid_unlaid (text : List Char) : unlaid (unlaid text) = unlaid text := by
  refine unlaid_of_settled ?_
  rcases h : layout.split? text with _ | ⟨taken, rest⟩
  · cases h
  · have hrest : unlaid text = rest := by rw [unlaid, h, Option.getD_some]
    rw [hrest]
    exact Pattern.split?_many_stops rfl h

namespace Spaced

variable {tokens more : List (List Char)} {text middle tail : List Char}

theorem append (h : Spaced tokens text middle) (h' : Spaced more middle tail) :
    Spaced (tokens ++ more) text tail := by
  induction h with
  | nil => exact h'
  | cons hw hends _ ih => exact .cons hw hends (ih h')

/-- They may be parted again. -/
theorem split (h : Spaced (tokens ++ more) text tail) :
    ∃ middle, Spaced tokens text middle ∧ Spaced more middle tail := by
  induction tokens generalizing text with
  | nil => exact ⟨text, .nil text, h⟩
  | cons w tokens ih =>
      cases h with
      | cons hw hends h =>
          obtain ⟨middle, htokens, hmore⟩ := ih h
          exact ⟨middle, .cons hw hends htokens, hmore⟩

/-- One token, and what is left behind it. -/
theorem singleton {w : List Char} (h : Spaced [w] text tail) :
    ∃ rest, text = w ++ rest ∧ Ends w rest ∧ unlaid rest = tail := by
  cases h with
  | @cons _ rest _ _ _ hends h =>
      cases h with
      | nil => exact ⟨rest, rfl, hends, rfl⟩

/-- Where the tokens start without layout, they end without. -/
theorem settled (hsettled : unlaid text = text) (h : Spaced tokens text tail) :
    unlaid tail = tail := by
  induction h with
  | nil => exact hsettled
  | cons _ _ _ ih => exact ih (unlaid_unlaid _)

end Spaced

/-! ## What the parser takes is a sentence -/

/-- What the pattern takes of a text is a token by itself, and ends where a word may end. -/
structure Pattern.Lexical (p : Pattern) : Prop where
  takes : p.takes = true
  alone : ∀ {text w rest : List Char}, p.split? text = some (w, rest) → p.split? w = some (w, [])
  ends : ∀ {text w rest : List Char}, p.split? text = some (w, rest) → Ends w rest

/-- The phrase is made of such tokens, and of symbols that are no words. -/
def Phrase.Lexical : Phrase → Prop
  | .symbol expected => expected ≠ [] ∧ ¬ IsWord expected
  | .token _ pattern => pattern.Lexical
  | .endOfText => False
  | .expression => True
  | .seq first second | .alt first second => first.Lexical ∧ second.Lexical
  | .rule _ item | .many item | .optional item => item.Lexical

/-- What the matcher finds, where no layout stands, is derived by the phrase, and the tokens stand
where it has been found. -/
def Reads (m : Matcher) (p : Phrase) : Prop :=
  ∀ c trees next, unlaid c.rest = c.rest → m c = some (trees, next) →
    ∃ tokens, p.Derives tokens (unplacedAll trees) ∧ Spaced tokens c.rest (unlaid next.rest)

namespace Phrase

variable {nested : Matcher}

/-- The items of a repetition behind the first one. -/
theorem repeated_reads {m : Matcher} {item : Phrase} (h : Reads m item) (bound : List Char)
    (c : Cursor) : ∃ tokens,
      Derives (.many item) tokens (unplacedAll (repeated (fun c => m (skipLayout c)) bound c).1)
        ∧ Spaced tokens (unlaid c.rest)
          (unlaid (repeated (fun c => m (skipLayout c)) bound c).2.rest) := by
  induction bound generalizing c with
  | nil => exact ⟨[], .manyNone, .nil _⟩
  | cons _ bound ih =>
      rw [repeated_cons]
      rcases hitem : m (skipLayout c) with _ | ⟨trees, next⟩
      · exact ⟨[], .manyNone, .nil _⟩
      · -- in front of an item the layout has been skipped, so its tokens begin there
        have hsettled : unlaid (skipLayout c).rest = (skipLayout c).rest := by
          rw [skipLayout_rest, unlaid_unlaid]
        obtain ⟨tokens, hderives, hspaced⟩ := h _ trees next hsettled hitem
        obtain ⟨more, hmore, hlast⟩ := ih next
        rw [skipLayout_rest] at hspaced
        -- the tokens of the item, and those of the items behind it
        refine ⟨tokens ++ more, ?_, hspaced.append hlast⟩
        rw [unplacedAll_append]
        exact .manyMore hderives hmore

/-- **A match is a sentence.** What a phrase finds is one of its derivations, if this holds of the
expressions inside it. -/
theorem reads_matched? (hnested : Reads nested .expression) {p : Phrase} (hp : p.Lexical) :
    Reads (p.matched? nested) p := by
  induction p with
  | symbol expected =>
      -- a symbol is one token, with no tree
      intro c trees next _ hmatch
      obtain ⟨rfl, rest, hrest, rfl⟩ := matched?_symbol_eq_some_iff.mp hmatch
      refine ⟨[expected], .symbol hp.1, ?_⟩
      rw [hrest]
      exact .cons hp.1 (fun hword => absurd hword hp.2) (.nil _)
  | token name pattern =>
      -- a token is alone in its own text as it is in front of the rest, and it has ended there
      intro c trees next _ hmatch
      obtain ⟨w, rest, hsplit, rfl, rfl⟩ := matched?_token_eq_some_iff.mp hmatch
      refine ⟨[w], .token (hp.alone hsplit), ?_⟩
      rw [← Pattern.split?_append hsplit]
      exact .cons (Pattern.ne_nil_of_takes hp.takes hsplit) (hp.ends hsplit) (.nil _)
  | endOfText => exact hp.elim
  | rule name body ih =>
      intro c trees next hsettled hmatch
      obtain ⟨inner, hbody, rfl⟩ := matched?_rule_eq_some_iff.mp hmatch
      obtain ⟨tokens, hderives, hspaced⟩ := ih hp c inner next hsettled hbody
      exact ⟨tokens, .rule hderives, hspaced⟩
  | expression => exact hnested
  | seq first second ihfirst ihsecond =>
      intro c trees next hsettled hmatch
      obtain ⟨left, between, right, hfirst, hsecond, rfl⟩ := matched?_seq_eq_some_iff.mp hmatch
      obtain ⟨tokens, hderives, hspaced⟩ := ihfirst hp.1 c left between hsettled hfirst
      -- Only here layout is skipped: what the second phrase reads begins behind the layout that
      -- follows the first one, which is where the tokens of the first have left off.
      have hsettled' : unlaid (skipLayout between).rest = (skipLayout between).rest := by
        rw [skipLayout_rest, unlaid_unlaid]
      obtain ⟨more, hmore, hlast⟩ := ihsecond hp.2 _ right next hsettled' hsecond
      rw [skipLayout_rest] at hlast
      refine ⟨tokens ++ more, ?_, hspaced.append hlast⟩
      rw [unplacedAll_append]
      exact .seq hderives hmore
  | alt first second ihfirst ihsecond =>
      intro c trees next hsettled hmatch
      rcases Option.or_eq_some_iff.mp hmatch with hfirst | ⟨-, hsecond⟩
      · obtain ⟨tokens, hderives, hspaced⟩ := ihfirst hp.1 c trees next hsettled hfirst
        exact ⟨tokens, .altFirst hderives, hspaced⟩
      · obtain ⟨tokens, hderives, hspaced⟩ := ihsecond hp.2 c trees next hsettled hsecond
        exact ⟨tokens, .altSecond hderives, hspaced⟩
  | many item ih =>
      intro c trees next hsettled hmatch
      rcases matched?_many_eq_some_iff.mp hmatch with
        ⟨-, rfl, rfl⟩ | ⟨left, middle, right, hitem, hagain, rfl⟩
      · rw [hsettled]
        exact ⟨[], .manyNone, .nil _⟩
      · obtain ⟨tokens, hderives, hspaced⟩ := ih hp c left middle hsettled hitem
        -- the items behind the first one have been read by the same induction on the bound
        obtain ⟨more, hmore, hlast⟩ := repeated_reads (ih hp) c.rest middle
        rw [hagain] at hmore hlast
        refine ⟨tokens ++ more, ?_, hspaced.append hlast⟩
        rw [unplacedAll_append]
        exact .manyMore hderives hmore
  | optional item ih =>
      intro c trees next hsettled hmatch
      rcases matched?_optional_eq_some_iff.mp hmatch with hitem | ⟨-, rfl, rfl⟩
      · obtain ⟨tokens, hderives, hspaced⟩ := ih hp c trees next hsettled hitem
        exact ⟨tokens, .optionalSome hderives, hspaced⟩
      · -- nothing is read, and as no layout stood in front nothing is left out
        rw [hsettled]
        exact ⟨[], .optionalNone, .nil _⟩

/-- Expressions are sentences, on as many levels as they nest. -/
theorem reads_expressionsTo (hbody : expressionBody.Lexical) (depth : Nat) :
    Reads (expressionsTo depth) .expression := by
  induction depth with
  | zero =>
      intro c trees next _ hmatch
      cases hmatch
  | succ depth ih =>
      intro c trees next hsettled hmatch
      obtain ⟨tokens, hderives, hspaced⟩ := reads_matched? ih hbody c trees next hsettled hmatch
      exact ⟨tokens, .expression hderives, hspaced⟩

/-- The tokens of a program stand in it from the layout at its front to its end. -/
theorem derives_of_readProgram (hbody : expressionBody.Lexical) {text : List Char} {tree : Tree}
    (h : readProgram text = .ok tree) :
    ∃ tokens trees, Derives .expression tokens trees ∧ Spaced tokens (unlaid text) [] := by
  obtain ⟨last, hmatch⟩ := readProgram_eq_ok_iff.mp h
  obtain ⟨inner, hprogram, -⟩ := matched?_rule_eq_some_iff.mp hmatch
  obtain ⟨start, first, trees, hstart, htrees, -⟩ := matched?_seq_eq_some_iff.mp hprogram
  obtain ⟨-, rest, hrest, rfl⟩ := matched?_symbol_eq_some_iff.mp hstart
  obtain ⟨left, between, right, hleft, hright, -⟩ := matched?_seq_eq_some_iff.mp htrees
  -- nothing has been taken in front of the expression
  obtain rfl : text = rest := hrest
  have hexpression : expression? (skipLayout ((Cursor.ofText text).past [] text))
      = some (left, between) := hleft
  have hsettled := unlaid_unlaid text
  obtain ⟨tokens, hderives, hspaced⟩ :=
    reads_expressionsTo hbody _ _ left between (by rw [skipLayout_rest]; exact hsettled) hexpression
  obtain ⟨hempty, -⟩ := matched?_endOfText_eq_some_iff.mp hright
  rw [skipLayout_rest] at hempty
  rw [skipLayout_rest, hempty] at hspaced
  exact ⟨tokens, _, hderives, hspaced⟩

end Phrase

end RowFilter.Grammar
