/-
Matching without the frontier.

A reader does two things at once: it matches, and it keeps books on what has failed where. What
it finds does not depend on its books, so everything about parses that succeed, and about the
way in which a parse gets there, can be said of `matched?`, which matches and keeps none
(`read_found`). A cursor never moves but forward, over the text that is taken, and over
layout between what is taken (`matched?_moves`).
-/
import RowFilter.Grammar.Filter
import RowFilter.Proofs.Grammar.Patterns

set_option autoImplicit false

namespace RowFilter

/-! ## Moving forward -/

namespace Cursor

/-- From one cursor to another, over text that stood behind the first one. -/
structure Moves (c : Cursor) (taken : List Char) (next : Cursor) : Prop where
  rest_eq : c.rest = taken ++ next.rest
  position_eq : next.position = c.position.advanceBy taken

variable {c d e : Cursor} {taken more rest : List Char}

theorem Moves.refl (c : Cursor) : c.Moves [] c := ⟨rfl, rfl⟩

theorem Moves.trans (h : c.Moves taken d) (h' : d.Moves more e) : c.Moves (taken ++ more) e where
  rest_eq := by rw [h.rest_eq, h'.rest_eq, List.append_assoc]
  position_eq := by
    rw [h'.position_eq, h.position_eq, Position.advanceBy, Position.advanceBy,
      Position.advanceBy, List.foldl_append]

/-- A cursor that takes a text passes it. -/
theorem moves_past (h : c.rest = taken ++ rest) : c.Moves taken (c.past taken rest) := ⟨h, rfl⟩

theorem Moves.length_le (h : c.Moves taken d) : d.rest.length ≤ c.rest.length := by
  rw [h.rest_eq, List.length_append]
  omega

end Cursor

namespace Grammar

/-- Layout is skipped forward. -/
theorem skipLayout_moves (c : Cursor) : ∃ taken, c.Moves taken (skipLayout c) := by
  unfold skipLayout
  rcases h : layout.split? c.rest with _ | ⟨taken, rest⟩
  · exact ⟨[], Cursor.Moves.refl c⟩
  · exact ⟨taken, Cursor.moves_past (Pattern.split?_append h).symm⟩

/-! ## Matching -/

/-- What is found at a cursor, and the cursor behind it. -/
abbrev Matcher := Cursor → Option (List Tree × Cursor)

/-- A token at a cursor, from what its pattern takes and leaves. -/
def tokenAt (name : Rule) (c : Cursor) (found : List Char × List Char) : List Tree × Cursor :=
  let next := c.past found.1 found.2
  ([.token name (.between c.position next.position) found.1], next)

/-- As many items as match one after the other, at most as many as `bound` has characters. -/
def repeated (item : Matcher) : (bound : List Char) → Cursor → List Tree × Cursor
  | [], c => ([], c)
  | _ :: bound, c =>
    match item c with
    | none => ([], c)
    | some (trees, next) =>
      let (more, last) := repeated item bound next
      (trees ++ more, last)

theorem repeated_cons {item : Matcher} {x : Char} {bound : List Char} {c : Cursor} :
    repeated item (x :: bound) c =
      match item c with
      | none => ([], c)
      | some (trees, next) =>
        (trees ++ (repeated item bound next).1, (repeated item bound next).2) := rfl

namespace Phrase

/-- What a phrase takes at a cursor, `nested` being the meaning of an expression inside it. -/
def matched? (nested : Matcher) : Phrase → Matcher
  | .symbol expected, c =>
    (expected.isPrefixOf? c.rest).map fun rest => ([], c.past expected rest)
  | .token name pattern, c => (pattern.split? c.rest).map (tokenAt name c)
  | .endOfText, c => if c.rest.isEmpty then some (tokenAt .endOfInput c ([], [])) else none
  | .rule name body, c =>
    (body.matched? nested c).map fun (trees, next) =>
      ([.node name (.between c.position next.position) trees], next)
  | .expression, c => nested c
  | .seq first second, c =>
    (first.matched? nested c).bind fun (left, next) =>
      (second.matched? nested (skipLayout next)).map fun (right, last) => (left ++ right, last)
  | .alt first second, c => (first.matched? nested c).or (second.matched? nested c)
  | .many item, c =>
    match item.matched? nested c with
    | none => some ([], c)
    | some (trees, next) =>
      let (more, last) := repeated (fun c => item.matched? nested (skipLayout c)) c.rest next
      some (trees ++ more, last)
  | .optional item, c => some ((item.matched? nested c).getD ([], c))

section
variable {nested : Matcher} {c next : Cursor} {trees : List Tree} {name : Rule}
  {pattern : Pattern} {body first second item : Phrase}

/-- The equation for tokens, by what their pattern takes. -/
theorem matched?_token : (token name pattern).matched? nested c =
    (pattern.split? c.rest).map (tokenAt name c) := rfl

theorem matched?_endOfText : endOfText.matched? nested c =
    if c.rest.isEmpty then some (tokenAt .endOfInput c ([], [])) else none := rfl

/-- The equation for rules: a node over what the body finds. -/
theorem matched?_rule : (rule name body).matched? nested c =
    (body.matched? nested c).map fun (trees, next) =>
      ([.node name (.between c.position next.position) trees], next) := rfl

/-- The equation for sequences, with layout skipped between the phrases. -/
theorem matched?_seq : (seq first second).matched? nested c =
    (first.matched? nested c).bind fun (left, next) =>
      (second.matched? nested (skipLayout next)).map fun (right, last) =>
        (left ++ right, last) := rfl

/-- The equation for alternatives, which are tried in order. -/
theorem matched?_alt : (alt first second).matched? nested c =
    (first.matched? nested c).or (second.matched? nested c) := rfl

/-- The equation for repetitions: a first item, and then more with layout in front of each. -/
theorem matched?_many : (many item).matched? nested c =
    match item.matched? nested c with
    | none => some ([], c)
    | some (trees, next) =>
      let again := repeated (fun c => item.matched? nested (skipLayout c)) c.rest next
      some (trees ++ again.1, again.2) := rfl

theorem matched?_optional : (optional item).matched? nested c =
    some ((item.matched? nested c).getD ([], c)) := rfl

/-- When a symbol matches. -/
theorem matched?_symbol_eq_some_iff {expected : List Char} :
    (symbol expected).matched? nested c = some (trees, next) ↔
      trees = [] ∧ ∃ rest, c.rest = expected ++ rest ∧ next = c.past expected rest := by
  refine Option.map_eq_some_iff.trans ?_
  constructor
  · rintro ⟨rest, hrest, hpair⟩
    obtain ⟨rfl, rfl⟩ := Prod.mk.inj hpair
    exact ⟨rfl, rest, (List.isPrefixOf?_eq_some_iff_append_eq.mp hrest).symm, rfl⟩
  · rintro ⟨rfl, rest, hrest, rfl⟩
    exact ⟨rest, List.isPrefixOf?_eq_some_iff_append_eq.mpr hrest.symm, rfl⟩

/-- When a token does. -/
theorem matched?_token_eq_some_iff :
    (token name pattern).matched? nested c = some (trees, next) ↔
      ∃ taken rest, pattern.split? c.rest = some (taken, rest) ∧ next = c.past taken rest
        ∧ trees = [.token name (.between c.position next.position) taken] := by
  rw [matched?_token, Option.map_eq_some_iff]
  constructor
  · rintro ⟨⟨taken, rest⟩, hsplit, hpair⟩
    obtain ⟨rfl, rfl⟩ := Prod.mk.inj hpair
    exact ⟨taken, rest, hsplit, rfl, rfl⟩
  · rintro ⟨taken, rest, hsplit, rfl, rfl⟩
    exact ⟨(taken, rest), hsplit, rfl⟩

/-- When the end of the text is found. -/
theorem matched?_endOfText_eq_some_iff :
    endOfText.matched? nested c = some (trees, next) ↔
      c.rest = [] ∧ next = c.past [] []
        ∧ trees = [.token .endOfInput (.between c.position next.position) []] := by
  rw [matched?_endOfText]
  split
  · next hempty =>
      rw [Option.some.injEq, tokenAt, Prod.mk.injEq]
      constructor
      · rintro ⟨rfl, rfl⟩
        exact ⟨List.isEmpty_iff.mp hempty, rfl, rfl⟩
      · rintro ⟨-, rfl, rfl⟩
        exact ⟨rfl, rfl⟩
  · next hempty =>
      refine iff_of_false (by rintro ⟨⟩) fun h => hempty ?_
      exact List.isEmpty_iff.mpr h.1

/-- When a rule matches. -/
theorem matched?_rule_eq_some_iff :
    (rule name body).matched? nested c = some (trees, next) ↔
      ∃ inner, body.matched? nested c = some (inner, next)
        ∧ trees = [.node name (.between c.position next.position) inner] := by
  rw [matched?_rule, Option.map_eq_some_iff]
  constructor
  · rintro ⟨⟨inner, last⟩, hbody, hpair⟩
    obtain ⟨rfl, rfl⟩ := Prod.mk.inj hpair
    exact ⟨inner, hbody, rfl⟩
  · rintro ⟨inner, hbody, rfl⟩
    exact ⟨(inner, next), hbody, rfl⟩

/-- When a sequence does. -/
theorem matched?_seq_eq_some_iff :
    (seq first second).matched? nested c = some (trees, next) ↔
      ∃ left between right, first.matched? nested c = some (left, between)
        ∧ second.matched? nested (skipLayout between) = some (right, next)
        ∧ trees = left ++ right := by
  rw [matched?_seq, Option.bind_eq_some_iff]
  constructor
  · rintro ⟨⟨left, between⟩, hfirst, hrest⟩
    obtain ⟨⟨right, last⟩, hsecond, hpair⟩ := Option.map_eq_some_iff.mp hrest
    obtain ⟨rfl, rfl⟩ := Prod.mk.inj hpair
    exact ⟨left, between, right, hfirst, hsecond, rfl⟩
  · rintro ⟨left, between, right, hfirst, hsecond, rfl⟩
    exact ⟨(left, between), hfirst, Option.map_eq_some_iff.mpr ⟨(right, next), hsecond, rfl⟩⟩

/-- A repetition has no item, or a first one and others behind it, with layout in front of each. -/
theorem matched?_many_eq_some_iff :
    (many item).matched? nested c = some (trees, next) ↔
      item.matched? nested c = none ∧ trees = [] ∧ next = c ∨
      ∃ left middle more, item.matched? nested c = some (left, middle)
        ∧ repeated (fun c => item.matched? nested (skipLayout c)) c.rest middle = (more, next)
        ∧ trees = left ++ more := by
  rw [matched?_many]
  -- without a first item the repetition is empty, and it never fails
  rcases hitem : item.matched? nested c with _ | ⟨left, middle⟩
  · simp [eq_comm]
  · rw [Option.some.injEq, Prod.mk.injEq]
    constructor
    · rintro ⟨rfl, rfl⟩
      exact .inr ⟨left, middle, _, rfl, rfl, rfl⟩
    · rintro (⟨⟨⟩, -⟩ | ⟨left', middle', more, hpair, hagain, rfl⟩)
      obtain ⟨rfl, rfl⟩ := Prod.mk.inj (Option.some.inj hpair)
      rw [hagain]
      exact ⟨rfl, rfl⟩

/-- When what is optional matches, which it always does. -/
theorem matched?_optional_eq_some_iff :
    (optional item).matched? nested c = some (trees, next) ↔
      item.matched? nested c = some (trees, next) ∨
      item.matched? nested c = none ∧ trees = [] ∧ next = c := by
  rw [matched?_optional]
  rcases hitem : item.matched? nested c with _ | found <;> simp [eq_comm]

end

/-! ## Readers and matchers -/

/-- Repetitions find the same if their items do. -/
theorem repeatedly_found {reader : Reader} {matcher : Matcher}
    (h : ∀ c f, (reader c f).found = matcher c) (bound : List Char) (c : Cursor) (f : Frontier) :
    ((repeatedly reader bound c f).1, (repeatedly reader bound c f).2.1)
      = repeated matcher bound c := by
  induction bound generalizing c f with
  | nil => rfl
  | cons _ bound ih =>
      have hitem := h c f
      rw [repeatedly, repeated_cons]
      -- what has been found is compared, and the frontier behind it is the next item's
      rcases hread : reader c f with ⟨found, after⟩
      rw [hread] at hitem
      dsimp only at hitem
      rw [← hitem]
      rcases found with _ | ⟨trees, next⟩
      · rfl
      · simp only [← ih next after]

/-- **Books do not matter.** What reading a phrase finds is what the phrase matches, if this
holds of the expressions inside it. -/
theorem read_found {reader : Reader} {matcher : Matcher}
    (h : ∀ c f, (reader c f).found = matcher c) (p : Phrase) (c : Cursor) (f : Frontier) :
    (p.read reader c f).found = p.matched? matcher c := by
  induction p generalizing c f with
  | symbol expected => rfl
  | token name pattern =>
      rw [read, matched?_token]
      rcases pattern.split? c.rest with _ | ⟨taken, rest⟩ <;> rfl
  | endOfText =>
      rw [read, matched?_endOfText]
      split <;> rfl
  | rule name body ih =>
      have hbody := ih c f
      rw [read, matched?_rule, ← hbody]
      rcases body.read reader c f with ⟨_ | ⟨trees, next⟩, after⟩ <;> rfl
  | expression => exact h c f
  -- the frontier goes along, but nothing that is found depends on it
  | seq first second ihfirst ihsecond =>
      have hfirst := ihfirst c f
      rw [read, matched?_seq, ← hfirst]
      rcases first.read reader c f with ⟨_ | ⟨left, next⟩, after⟩
      · rfl
      · have hsecond := ihsecond (skipLayout next) after
        dsimp only [Option.bind_some]
        rw [← hsecond]
        rcases second.read reader (skipLayout next) after with ⟨_ | ⟨right, last⟩, _⟩ <;> rfl
  | alt first second ihfirst ihsecond =>
      have hfirst := ihfirst c f
      rw [read, matched?_alt, ← hfirst]
      rcases first.read reader c f with ⟨_ | found, after⟩
      · exact ihsecond c after
      · rfl
  | many item ih =>
      have hitem := ih c f
      rw [read, matched?_many, ← hitem]
      rcases item.read reader c f with ⟨_ | ⟨trees, next⟩, after⟩
      · rfl
      · dsimp only
        rw [← repeatedly_found fun c f => ih (skipLayout c) f]
  | optional item ih =>
      have hitem := ih c f
      rw [read, matched?_optional, ← hitem]
      rcases item.read reader c f with ⟨_ | found, after⟩ <;> rfl

/-! ## Matching moves forward -/

/-- A matcher that moves forward. -/
def Forward (m : Matcher) : Prop :=
  ∀ c trees next, m c = some (trees, next) → ∃ taken, c.Moves taken next

theorem forward_skipping {m : Matcher} (h : Forward m) : Forward fun c => m (skipLayout c) := by
  intro c trees next hnext
  obtain ⟨blanks, hskip⟩ := skipLayout_moves c
  obtain ⟨taken, hmoves⟩ := h _ trees next hnext
  exact ⟨blanks ++ taken, hskip.trans hmoves⟩

/-- Items one after the other move forward. -/
theorem repeated_moves {item : Matcher} (h : Forward item) (bound : List Char) (c : Cursor) :
    ∃ taken, c.Moves taken (repeated item bound c).2 := by
  induction bound generalizing c with
  | nil => exact ⟨[], .refl c⟩
  | cons _ bound ih =>
      rw [repeated_cons]
      rcases hitem : item c with _ | ⟨trees, next⟩
      · exact ⟨[], .refl c⟩
      · obtain ⟨taken, hnext⟩ := h c trees next hitem
        obtain ⟨more, hlast⟩ := ih next
        exact ⟨taken ++ more, hnext.trans hlast⟩

variable {nested nested' : Matcher}

/-- A phrase moves forward if the expressions inside it do. -/
theorem matched?_moves (h : Forward nested) (p : Phrase) : Forward (p.matched? nested) := by
  induction p with
  | symbol expected =>
      intro c trees next hmatch
      obtain ⟨-, rest, hrest, rfl⟩ := matched?_symbol_eq_some_iff.mp hmatch
      exact ⟨expected, Cursor.moves_past hrest⟩
  | token name pattern =>
      intro c trees next hmatch
      obtain ⟨taken, rest, hsplit, rfl, -⟩ := matched?_token_eq_some_iff.mp hmatch
      exact ⟨taken, Cursor.moves_past (Pattern.split?_append hsplit).symm⟩
  | endOfText =>
      intro c trees next hmatch
      obtain ⟨hempty, rfl, -⟩ := matched?_endOfText_eq_some_iff.mp hmatch
      exact ⟨[], Cursor.moves_past hempty⟩
  | rule name body ih =>
      intro c trees next hmatch
      obtain ⟨inner, hbody, -⟩ := matched?_rule_eq_some_iff.mp hmatch
      exact ih c inner next hbody
  | expression => exact h
  -- the first phrase, the layout behind it, and the second phrase
  | seq first second ihfirst ihsecond =>
      intro c trees next hmatch
      obtain ⟨left, between, right, hfirst, hsecond, -⟩ := matched?_seq_eq_some_iff.mp hmatch
      obtain ⟨taken, hmoves⟩ := ihfirst c left between hfirst
      obtain ⟨blanks, hskip⟩ := skipLayout_moves between
      obtain ⟨more, hrest⟩ := ihsecond _ right next hsecond
      exact ⟨taken ++ blanks ++ more, (hmoves.trans hskip).trans hrest⟩
  | alt first second ihfirst ihsecond =>
      intro c trees next hmatch
      rcases Option.or_eq_some_iff.mp hmatch with hfirst | ⟨-, hsecond⟩
      · exact ihfirst c trees next hfirst
      · exact ihsecond c trees next hsecond
  | many item ih =>
      intro c trees next hmatch
      rcases matched?_many_eq_some_iff.mp hmatch with
        ⟨-, -, rfl⟩ | ⟨left, middle, _, hitem, hagain, -⟩
      · exact ⟨[], .refl next⟩
      · obtain ⟨taken, hmoves⟩ := ih c left middle hitem
        obtain ⟨more, hlast⟩ := repeated_moves (forward_skipping ih) c.rest middle
        rw [hagain] at hlast
        exact ⟨taken ++ more, hmoves.trans hlast⟩
  | optional item ih =>
      intro c trees next hmatch
      rcases matched?_optional_eq_some_iff.mp hmatch with hitem | ⟨-, -, rfl⟩
      · exact ih c trees next hitem
      · exact ⟨[], .refl next⟩

end Phrase

end Grammar

end RowFilter
