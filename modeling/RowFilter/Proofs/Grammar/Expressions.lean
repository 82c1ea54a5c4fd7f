/-
Expressions inside expressions.

The grammar is recursive at one place, and the reader cuts the recursion off at a depth that no
text reaches. Here the cut is taken away. `asks` lists the places where a phrase asks for an
expression, also on the ways that it gives up, and what a phrase makes of a text depends on
the expressions at these places only (`matched?_congr`). For one expression inside another a
bracket at least has been read, so what is left gets shorter from level to level. Hence
`expression?`, which reads expressions nested as deep as the text permits, is what its own
body makes of it (`expression?_eq`), and it is what programs are read with
(`readProgram_eq_ok_iff`).
-/
import RowFilter.Proofs.Grammar.Matching

set_option autoImplicit false

namespace RowFilter.Grammar

/-- The places that the items of a repetition ask at, one item after the other. -/
def askedAgain (item : Matcher) (asks : Cursor → List Cursor) :
    (bound : List Char) → Cursor → List Cursor
  | [], _ => []
  | _ :: bound, c =>
    asks c ++
      match item c with
      | none => []
      | some (_, next) => askedAgain item asks bound next

namespace Phrase

variable {nested nested' : Matcher}

/-- Where a phrase asks for an expression, in order, whatever comes of it. -/
def asks (nested : Matcher) : Phrase → Cursor → List Cursor
  | .symbol _, _ | .token _ _, _ | .endOfText, _ => []
  | .rule _ body, c => body.asks nested c
  | .expression, c => [c]
  | .seq first second, c =>
    first.asks nested c ++
      match first.matched? nested c with
      | none => []
      | some (_, next) => second.asks nested (skipLayout next)
  | .alt first second, c =>
    first.asks nested c ++
      if (first.matched? nested c).isSome then [] else second.asks nested c
  | .many item, c =>
    item.asks nested c ++
      match item.matched? nested c with
      | none => []
      | some (_, next) =>
        askedAgain (fun c => item.matched? nested (skipLayout c))
          (fun c => item.asks nested (skipLayout c)) c.rest next
  | .optional item, c => item.asks nested c

/-! ## Where expressions are asked for -/

/-- A sequence asks where its first phrase does, and then where its second one does. -/
theorem mem_asks_seq_iff {p q : Phrase} {c d : Cursor} :
    d ∈ (seq p q).asks nested c ↔ d ∈ p.asks nested c ∨ ∃ left between,
      p.matched? nested c = some (left, between) ∧ d ∈ q.asks nested (skipLayout between) := by
  rw [asks, List.mem_append]
  rcases hmatch : p.matched? nested c with _ | ⟨left, between⟩
  · simp
  · refine or_congr_right ⟨fun h => ⟨left, between, rfl, h⟩, ?_⟩
    rintro ⟨left', between', hpair, h⟩
    obtain ⟨rfl, rfl⟩ := Prod.mk.inj (Option.some.inj hpair)
    exact h

/-- The second alternative asks only if the first one has failed. -/
theorem mem_asks_alt_iff {p q : Phrase} {c d : Cursor} :
    d ∈ (alt p q).asks nested c ↔ d ∈ p.asks nested c ∨
      p.matched? nested c = none ∧ d ∈ q.asks nested c := by
  rw [asks, List.mem_append]
  rcases hmatch : p.matched? nested c with _ | found <;> simp

/-- A repetition asks where its first item does, and then again behind each item. -/
theorem mem_asks_many_iff {p : Phrase} {c d : Cursor} :
    d ∈ (many p).asks nested c ↔ d ∈ p.asks nested c ∨ ∃ left between,
      p.matched? nested c = some (left, between)
        ∧ d ∈ askedAgain (fun c => p.matched? nested (skipLayout c))
            (fun c => p.asks nested (skipLayout c)) c.rest between := by
  rw [asks, List.mem_append]
  rcases hmatch : p.matched? nested c with _ | ⟨left, between⟩
  · simp
  · refine or_congr_right ⟨fun h => ⟨left, between, rfl, h⟩, ?_⟩
    rintro ⟨left', between', hpair, h⟩
    obtain ⟨rfl, rfl⟩ := Prod.mk.inj (Option.some.inj hpair)
    exact h

/-- Repetitions agree if their items agree wherever these ask at places with a property, and all
places they ask at have it. -/
theorem repeated_congr {item item' : Matcher} {asks asks' : Cursor → List Cursor}
    {P : Cursor → Prop}
    (hitem : ∀ c, (∀ d ∈ asks c, P d) → item c = item' c ∧ asks c = asks' c)
    (bound : List Char) (c : Cursor) (h : ∀ d ∈ askedAgain item asks bound c, P d) :
    repeated item bound c = repeated item' bound c
      ∧ askedAgain item asks bound c = askedAgain item' asks' bound c := by
  induction bound generalizing c with
  | nil => exact ⟨rfl, rfl⟩
  | cons _ bound ih =>
      rw [askedAgain] at h
      obtain ⟨hmatch, hasks⟩ := hitem c fun d hd => h d (List.mem_append_left _ hd)
      rw [repeated_cons, repeated_cons, askedAgain, askedAgain, ← hmatch, ← hasks]
      -- one matcher stops where the other does
      rcases hnext : item c with _ | ⟨trees, next⟩
      · exact ⟨rfl, rfl⟩
      · obtain ⟨hrest, hagain⟩ := ih next fun d hd => h d (List.mem_append_right _ (by rwa [hnext]))
        dsimp only
        rw [hrest, hagain]
        exact ⟨rfl, rfl⟩

/-- **Only what is asked matters.** Two meanings of expressions that agree where a phrase asks for
an expression make the same of it. -/
theorem matched?_congr (p : Phrase) (c : Cursor)
    (h : ∀ d ∈ p.asks nested c, nested d = nested' d) :
    p.matched? nested c = p.matched? nested' c ∧ p.asks nested c = p.asks nested' c := by
  -- that the places are the same goes along, since the second part of a sequence asks behind the
  -- place where the first one has ended
  induction p generalizing c with
  | symbol | token | endOfText => exact ⟨rfl, rfl⟩
  | rule name body ih =>
      obtain ⟨hbody, hasks⟩ := ih c h
      rw [matched?, matched?, hbody]
      exact ⟨rfl, hasks⟩
  | expression => exact ⟨h c List.mem_cons_self, rfl⟩
  | seq first second ihfirst ihsecond =>
      rw [asks] at h
      obtain ⟨hfirst, hasks⟩ := ihfirst c fun d hd => h d (List.mem_append_left _ hd)
      rw [matched?, matched?, asks, asks, ← hfirst, ← hasks]
      rcases hnext : first.matched? nested c with _ | ⟨left, next⟩
      · exact ⟨rfl, rfl⟩
      · obtain ⟨hsecond, hmore⟩ := ihsecond (skipLayout next) fun d hd =>
          h d (List.mem_append_right _ (by rwa [hnext]))
        dsimp only [Option.bind_some]
        rw [hsecond, hmore]
        exact ⟨rfl, rfl⟩
  | alt first second ihfirst ihsecond =>
      rw [asks] at h
      obtain ⟨hfirst, hasks⟩ := ihfirst c fun d hd => h d (List.mem_append_left _ hd)
      rw [matched?, matched?, asks, asks, ← hfirst, ← hasks]
      rcases hnext : first.matched? nested c with _ | found
      · obtain ⟨hsecond, hmore⟩ := ihsecond c fun d hd =>
          h d (List.mem_append_right _ (by simpa [hnext] using hd))
        rw [hsecond, hmore]
        exact ⟨rfl, rfl⟩
      · exact ⟨rfl, rfl⟩
  | many item ih =>
      rw [asks] at h
      obtain ⟨hitem, hasks⟩ := ih c fun d hd => h d (List.mem_append_left _ hd)
      rw [matched?, matched?, asks, asks, ← hitem, ← hasks]
      rcases hnext : item.matched? nested c with _ | ⟨trees, next⟩
      · exact ⟨rfl, rfl⟩
      · obtain ⟨hrest, hagain⟩ := repeated_congr (fun c hc => ih (skipLayout c) hc) c.rest next
          fun d hd => h d (List.mem_append_right _ (by rwa [hnext]))
        dsimp only
        rw [hrest, hagain]
        exact ⟨rfl, rfl⟩
  | optional item ih =>
      obtain ⟨hitem, hasks⟩ := ih c h
      rw [matched?, matched?, hitem]
      exact ⟨rfl, hasks⟩

/-- Repetitions read the same if their items do wherever these ask at places with a property, and
all places they ask at have it. -/
theorem repeatedly_congr {item item' : Reader} {matcher : Matcher} {asks : Cursor → List Cursor}
    {P : Cursor → Prop} (hfound : ∀ c f, (item c f).found = matcher c)
    (hitem : ∀ c, (∀ d ∈ asks c, P d) → ∀ f, item c f = item' c f)
    (bound : List Char) (c : Cursor) (h : ∀ d ∈ askedAgain matcher asks bound c, P d)
    (f : Frontier) : repeatedly item bound c f = repeatedly item' bound c f := by
  induction bound generalizing c f with
  | nil => rfl
  | cons _ bound ih =>
      rw [askedAgain] at h
      have hread := hitem c (fun d hd => h d (List.mem_append_left _ hd)) f
      have hmatch := hfound c f
      rw [repeatedly, repeatedly, ← hread]
      -- what is read is what is found, so both readers go on at the same place
      rcases hreading : item c f with ⟨_ | ⟨trees, next⟩, after⟩
      · rfl
      · rw [hreading] at hmatch
        have hmore := ih next (fun d hd => h d (List.mem_append_right _ (by rwa [← hmatch]))) after
        dsimp only
        rw [hmore]

/-- **Only what is asked is read.** Two ways to read expressions that agree where a phrase asks for
an expression read the same with it, the frontier included. -/
theorem read_congr {reader reader' : Reader} (hfound : ∀ c f, (reader c f).found = nested c)
    (p : Phrase) (c : Cursor) (h : ∀ d ∈ p.asks nested c, ∀ f, reader d f = reader' d f)
    (f : Frontier) : p.read reader c f = p.read reader' c f := by
  induction p generalizing c f with
  | symbol | token | endOfText => rfl
  | rule name body ih =>
      rw [read, read, ih c h f]
  | expression => exact h c List.mem_cons_self f
  -- a phrase asks only at the places that it is asked for itself
  | seq first second ihfirst ihsecond =>
      have hfirst := ihfirst c (fun d hd => h d (mem_asks_seq_iff.mpr (.inl hd))) f
      have hmatch := read_found hfound first c f
      rw [read, read, ← hfirst]
      rcases hreading : first.read reader c f with ⟨_ | ⟨left, next⟩, after⟩
      · rfl
      · rw [hreading] at hmatch
        have hsecond := ihsecond (skipLayout next) (fun d hd =>
          h d (mem_asks_seq_iff.mpr (.inr ⟨left, next, hmatch.symm, hd⟩))) after
        dsimp only
        rw [hsecond]
  | alt first second ihfirst ihsecond =>
      have hfirst := ihfirst c (fun d hd => h d (mem_asks_alt_iff.mpr (.inl hd))) f
      have hmatch := read_found hfound first c f
      rw [read, read, ← hfirst]
      rcases hreading : first.read reader c f with ⟨_ | found, after⟩
      · rw [hreading] at hmatch
        exact ihsecond c (fun d hd => h d (mem_asks_alt_iff.mpr (.inr ⟨hmatch.symm, hd⟩))) after
      · rfl
  | many item ih =>
      have hitem := ih c (fun d hd => h d (mem_asks_many_iff.mpr (.inl hd))) f
      have hmatch := read_found hfound item c f
      rw [read, read, ← hitem]
      rcases hreading : item.read reader c f with ⟨_ | ⟨trees, next⟩, after⟩
      · rfl
      · rw [hreading] at hmatch
        have hmore := repeatedly_congr (fun c f => read_found hfound item (skipLayout c) f)
          (fun c hc => ih (skipLayout c) hc) c.rest next (fun d hd =>
            h d (mem_asks_many_iff.mpr (.inr ⟨trees, next, hmatch.symm, hd⟩))) after
        dsimp only
        rw [hmore]
  | optional item ih =>
      rw [read, read, ih c h f]

/-! ## Phrases that read something first -/

/-- Every match takes a character. -/
def takes : Phrase → Bool
  | .symbol expected => !expected.isEmpty
  | .rule _ body => body.takes
  | .seq first second => first.takes || second.takes
  | .alt first second => first.takes && second.takes
  | .token _ pattern => pattern.takes
  | .endOfText | .expression | .many _ | .optional _ => false

/-- An expression is only asked for when a character has been taken. -/
def guarded : Phrase → Bool
  | .expression => false
  | .symbol _ | .token _ _ | .endOfText => true
  | .rule _ body => body.guarded
  | .seq first second => first.guarded && (first.takes || second.guarded)
  | .alt first second => first.guarded && second.guarded
  | .many item | .optional item => item.guarded

/-- A phrase that takes something leaves less of the text. -/
theorem length_lt_of_takes (hnested : Forward nested) {p : Phrase} (htakes : p.takes = true)
    {c next : Cursor} {trees : List Tree} (h : p.matched? nested c = some (trees, next)) :
    next.rest.length < c.rest.length := by
  induction p generalizing c trees next with
  | symbol expected =>
      obtain ⟨-, rest, hrest, rfl⟩ := matched?_symbol_eq_some_iff.mp h
      have hlength := List.length_pos_iff.mpr (by simpa [takes] using htakes : expected ≠ [])
      rw [hrest, List.length_append]
      dsimp only [Cursor.past]
      omega
  | rule name body ih =>
      obtain ⟨inner, hbody, -⟩ := matched?_rule_eq_some_iff.mp h
      exact ih htakes hbody
  | seq first second ihfirst ihsecond =>
      obtain ⟨left, middle, right, hfirst, hsecond, -⟩ := matched?_seq_eq_some_iff.mp h
      obtain ⟨_, hleft⟩ := matched?_moves hnested first c left middle hfirst
      obtain ⟨_, hskip⟩ := skipLayout_moves middle
      obtain ⟨_, hright⟩ := matched?_moves hnested second _ right next hsecond
      have hle := hleft.length_le
      have hle' := hskip.length_le
      have hle'' := hright.length_le
      -- one of the two takes something, and the other moves forward at least
      rcases Bool.or_eq_true_iff.mp htakes with htakes | htakes
      · have hlt := ihfirst htakes hfirst
        omega
      · have hlt := ihsecond htakes hsecond
        omega
  | alt first second ihfirst ihsecond =>
      obtain ⟨htakesFirst, htakesSecond⟩ := Bool.and_eq_true_iff.mp htakes
      rcases Option.or_eq_some_iff.mp h with hfirst | ⟨-, hsecond⟩
      · exact ihfirst htakesFirst hfirst
      · exact ihsecond htakesSecond hsecond
  | token name pattern =>
      obtain ⟨taken, rest, hsplit, rfl, -⟩ := matched?_token_eq_some_iff.mp h
      have htaken := List.length_pos_iff.mpr (Pattern.ne_nil_of_takes htakes hsplit)
      rw [← Pattern.split?_append hsplit, List.length_append]
      dsimp only [Cursor.past]
      omega
  | endOfText | expression | many | optional => cases htakes

/-- What is left at the places that a repetition asks at. -/
theorem askedAgain_length {item : Matcher} {asks : Cursor → List Cursor} (hitem : Forward item)
    {P : Nat → Nat → Prop} (hP : ∀ a b b', P a b → b ≤ b' → P a b')
    (hasks : ∀ c, ∀ d ∈ asks c, P d.rest.length c.rest.length) (bound : List Char) (c : Cursor) :
    ∀ d ∈ askedAgain item asks bound c, P d.rest.length c.rest.length := by
  induction bound generalizing c with
  | nil =>
      intro d hd
      cases hd
  | cons _ bound ih =>
      intro d hd
      rw [askedAgain] at hd
      rcases List.mem_append.mp hd with hd | hd
      · exact hasks c d hd
      · rcases hnext : item c with _ | ⟨trees, next⟩
        · simp [hnext] at hd
        · -- behind the first item less is left, so a bound from there is one from here
          obtain ⟨_, hmoves⟩ := hitem c trees next hnext
          exact hP _ _ _ (ih next d (by simpa [hnext] using hd)) hmoves.length_le

/-- What is left where a phrase asks for an expression is no more than what it started with,
and less if the phrase reads something first. -/
theorem asks_length (hnested : Forward nested) (p : Phrase) (c : Cursor) :
    ∀ d ∈ p.asks nested c, d.rest.length ≤ c.rest.length
      ∧ (p.guarded = true → d.rest.length < c.rest.length) := by
  induction p generalizing c with
  | symbol | token | endOfText =>
      intro d hd
      cases hd
  | rule name body ih => exact ih c
  | expression =>
      intro d hd
      obtain rfl := List.mem_singleton.mp hd
      exact ⟨Nat.le_refl _, fun h => by cases h⟩
  | seq first second ihfirst ihsecond =>
      intro d hd
      rcases mem_asks_seq_iff.mp hd with hd | ⟨left, next, hnext, hd⟩
      · obtain ⟨hle, hlt⟩ := ihfirst c d hd
        exact ⟨hle, fun h => hlt (Bool.and_eq_true_iff.mp h).1⟩
      · obtain ⟨hle, hlt⟩ := ihsecond (skipLayout next) d hd
        obtain ⟨_, hmoves⟩ := matched?_moves hnested first c left next hnext
        obtain ⟨_, hskip⟩ := skipLayout_moves next
        have hmoved := hmoves.length_le
        have hskipped := hskip.length_le
        refine ⟨by omega, fun h => ?_⟩
        -- the first part has taken something, or the second takes something before it asks
        rcases Bool.or_eq_true_iff.mp (Bool.and_eq_true_iff.mp h).2 with htakes | hguarded
        · have htaken := length_lt_of_takes hnested htakes hnext
          omega
        · have hless := hlt hguarded
          omega
  | alt first second ihfirst ihsecond =>
      intro d hd
      rcases mem_asks_alt_iff.mp hd with hd | ⟨-, hd⟩
      · obtain ⟨hle, hlt⟩ := ihfirst c d hd
        exact ⟨hle, fun h => hlt (Bool.and_eq_true_iff.mp h).1⟩
      · obtain ⟨hle, hlt⟩ := ihsecond c d hd
        exact ⟨hle, fun h => hlt (Bool.and_eq_true_iff.mp h).2⟩
  | many item ih =>
      intro d hd
      rcases mem_asks_many_iff.mp hd with hd | ⟨left, next, hnext, hd⟩
      · exact ih c d hd
      · have hskipping : Forward fun c => item.matched? nested (skipLayout c) :=
          forward_skipping (matched?_moves hnested item)
        obtain ⟨_, hmoves⟩ := matched?_moves hnested item c left next hnext
        have hmoved := hmoves.length_le
        have hagain := askedAgain_length hskipping
          (P := fun a b => a ≤ b ∧ (item.guarded = true → a < b))
          (fun a b b' h hb => ⟨Nat.le_trans h.1 hb, fun hg => Nat.lt_of_lt_of_le (h.2 hg) hb⟩)
          (fun c d hd => ?_) c.rest next d hd
        · exact ⟨Nat.le_trans hagain.1 hmoved, fun hg => Nat.lt_of_lt_of_le (hagain.2 hg) hmoved⟩
        · -- in front of an item only layout is skipped, which makes what is left no longer
          obtain ⟨hle, hlt⟩ := ih (skipLayout c) d hd
          obtain ⟨_, hskip⟩ := skipLayout_moves c
          have hskipped := hskip.length_le
          exact ⟨by omega, fun hg => by have hless := hlt hg; omega⟩
  | optional item ih => exact ih c

end Phrase

/-! ## Expressions -/

/-- Expressions nested at most `depth` deep. -/
def expressionsTo : (depth : Nat) → Matcher
  | 0, _ => none
  | depth + 1, c => Phrase.expressionBody.matched? (expressionsTo depth) c

/-- What is read at a depth is what is found there. -/
theorem readExpression_found (depth : Nat) (c : Cursor) (f : Frontier) :
    (readExpression nothing depth c f).found = expressionsTo depth c := by
  induction depth generalizing c f with
  | zero => rfl
  | succ depth ih => exact Phrase.read_found ih Phrase.expressionBody c f

/-- Expressions of limited depth are read forward. -/
theorem expressionsTo_moves (depth : Nat) : Phrase.Forward (expressionsTo depth) := by
  induction depth with
  | zero =>
      intro c trees next h
      cases h
  | succ depth ih => exact Phrase.matched?_moves ih Phrase.expressionBody

/-- With more levels than characters are left, the number of levels makes no difference. -/
theorem expressionsTo_eq {depth depth' : Nat} {c : Cursor} (h : c.rest.length < depth)
    (h' : c.rest.length < depth') : expressionsTo depth c = expressionsTo depth' c := by
  induction depth generalizing depth' c with
  | zero => omega
  | succ depth ih =>
      cases depth' with
      | zero => omega
      | succ depth' =>
          -- inside the body less is left, and so are levels
          refine (Phrase.matched?_congr Phrase.expressionBody c fun d hd => ?_).1
          have hless := (Phrase.asks_length (expressionsTo_moves depth) _ c d hd).2 rfl
          exact ih (by omega) (by omega)

/-- An expression, nested as deep as the text permits. -/
def expression? : Matcher := fun c => expressionsTo (c.rest.length + 1) c

theorem expression?_moves : Phrase.Forward expression? :=
  fun c trees next h => expressionsTo_moves _ c trees next h

/-- **Expressions are what they are made of.** An expression is what its body makes of the
expressions inside it. -/
theorem expression?_eq (c : Cursor) :
    expression? c = Phrase.expressionBody.matched? expression? c := by
  rw [expression?, expressionsTo]
  refine (Phrase.matched?_congr Phrase.expressionBody c fun d hd => ?_).1
  have hless := (Phrase.asks_length (expressionsTo_moves _) _ c d hd).2 rfl
  exact expressionsTo_eq hless (Nat.lt_succ_self _)

/-- Reading an expression, nested as deep as the text permits. -/
def readFully : Reader := fun c f => readExpression nothing (c.rest.length + 1) c f

/-- What is read is what is found. -/
theorem readFully_found (c : Cursor) (f : Frontier) : (readFully c f).found = expression? c :=
  readExpression_found _ c f

/-- With more levels than characters are left, it makes no difference what is read below them. -/
theorem readExpression_eq_of_lt {depth depth' : Nat} {c : Cursor} (h : c.rest.length < depth)
    (h' : c.rest.length < depth') (f : Frontier) :
    readExpression nothing depth c f = readExpression nothing depth' c f := by
  induction depth generalizing depth' c f with
  | zero => omega
  | succ depth ih =>
      cases depth' with
      | zero => omega
      | succ depth' =>
          rw [readExpression, readExpression]
          refine Phrase.read_congr (readExpression_found depth) _ c (fun d hd f => ?_) f
          have hless := (Phrase.asks_length (expressionsTo_moves depth) _ c d hd).2 rfl
          exact ih (by omega) (by omega) f

/-- Reading an expression is reading its body, with nested expressions read alike. -/
theorem readFully_eq (c : Cursor) (f : Frontier) :
    readFully c f = Phrase.expressionBody.read readFully c f := by
  rw [readFully, readExpression]
  refine Phrase.read_congr (readExpression_found _) Phrase.expressionBody c (fun d hd f => ?_) f
  have hless := (Phrase.asks_length (expressionsTo_moves _) _ c d hd).2 rfl
  exact readExpression_eq_of_lt hless (Nat.lt_succ_self _) f

/-- A program is read on as many levels as it has characters, and one more. -/
theorem read_program_eq (text : List Char) (f : Frontier) :
    Phrase.program.read (readExpression nothing (text.length + 1)) (.ofText text) f
      = Phrase.program.read readFully (.ofText text) f := by
  refine Phrase.read_congr (readExpression_found _) Phrase.program _ (fun d hd f => ?_) f
  have hle : d.rest.length ≤ text.length :=
    (Phrase.asks_length (expressionsTo_moves _) _ _ d hd).1
  exact readExpression_eq_of_lt (Nat.lt_succ_of_le hle) (Nat.lt_succ_self _) f

/-- Reading a program succeeds with the tree that the program matches. -/
theorem readProgram_eq_ok_iff {text : List Char} {tree : Tree} :
    readProgram text = .ok tree ↔
      ∃ next, Phrase.program.matched? expression? (.ofText text) = some ([tree], next) := by
  unfold readProgram
  dsimp only
  rw [read_program_eq, Phrase.read_found readFully_found]
  -- a program is one node
  rcases hmatch : Phrase.program.matched? expression? (.ofText text) with _ | ⟨trees, next⟩
  · simp
  · obtain ⟨inner, -, rfl⟩ := Phrase.matched?_rule_eq_some_iff.mp hmatch
    simp

end RowFilter.Grammar
