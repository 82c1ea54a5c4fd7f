/-
Where a derivation stands, the parser finds it.

A derivation stands at the front of a text if its tokens do (`Occurs`). The parser tries
alternatives in their order and repeats as long as it can, so whether it finds the derivation, and
not another one, depends on the phrase and on what may follow (`Predicted`). Like the matcher, this
goes from the parts of a phrase to the whole: what follows a part is the beginning of the next one
(`Begins`), and a repetition ends where an item fails. The number of tokens is bounded on the way,
since expressions nest, and the ones in brackets are shorter.
-/
import RowFilter.Proofs.Grammar.Sentences

set_option autoImplicit false

namespace RowFilter.Grammar.Phrase

variable {n m : Nat} {p q item body : Phrase} {text tail : List Char} {trees : List Tree}
  {P Q R : List Char → Prop}

/-! ## Derivations in texts -/

/-- A derivation of the phrase, of fewer than `n` tokens, stands at the front of a text where no
layout does; `tail` is left behind it and the layout that follows. -/
structure Occurs (n : Nat) (p : Phrase) (trees : List Tree) (text tail : List Char) : Prop where
  settled : unlaid text = text
  derives : ∃ tokens, tokens.length < n ∧ p.Derives tokens trees ∧ Spaced tokens text tail

theorem Occurs.mono (h : Occurs n p trees text tail) (hle : n ≤ m) :
    Occurs m p trees text tail := by
  obtain ⟨tokens, hlength, hderives, hspaced⟩ := h.derives
  exact ⟨h.settled, tokens, by omega, hderives, hspaced⟩

/-- The parts of a sequence stand one behind the other. -/
theorem Occurs.seq (h : Occurs n (.seq p q) trees text tail) :
    ∃ left right middle, trees = left ++ right ∧ Occurs n p left text middle
      ∧ Occurs n q right middle tail := by
  obtain ⟨tokens, hlength, hderives, hspaced⟩ := h.derives
  cases hderives with
  | @seq _ _ first second left right hfirst hsecond =>
      rw [List.length_append] at hlength
      obtain ⟨middle, hleft, hright⟩ := hspaced.split
      exact ⟨left, right, middle, rfl, ⟨h.settled, first, by omega, hfirst, hleft⟩,
        hleft.settled h.settled, second, by omega, hsecond, hright⟩

/-- One of two alternatives has been derived. -/
theorem Occurs.alt (h : Occurs n (.alt p q) trees text tail) :
    Occurs n p trees text tail ∨ Occurs n q trees text tail := by
  obtain ⟨tokens, hlength, hderives, hspaced⟩ := h.derives
  cases hderives with
  | altFirst hderives => exact .inl ⟨h.settled, tokens, hlength, hderives, hspaced⟩
  | altSecond hderives => exact .inr ⟨h.settled, tokens, hlength, hderives, hspaced⟩

/-- What is optional has been derived, or nothing stands there. -/
theorem Occurs.optional (h : Occurs n (.optional p) trees text tail) :
    trees = [] ∧ text = tail ∨ Occurs n p trees text tail := by
  obtain ⟨tokens, hlength, hderives, hspaced⟩ := h.derives
  cases hderives with
  | optionalNone =>
      cases hspaced with
      | nil => exact .inl ⟨rfl, rfl⟩
  | optionalSome hderives => exact .inr ⟨h.settled, tokens, hlength, hderives, hspaced⟩

/-- A rule has been derived by its body. -/
theorem Occurs.rule {name : Rule} (h : Occurs n (.rule name body) trees text tail) :
    ∃ inner, trees = [.node name default inner] ∧ Occurs n body inner text tail := by
  obtain ⟨tokens, hlength, hderives, hspaced⟩ := h.derives
  cases hderives with
  | @rule _ _ _ inner hderives => exact ⟨inner, rfl, h.settled, tokens, hlength, hderives, hspaced⟩

/-- An expression has been derived by its own body. -/
theorem Occurs.expression (h : Occurs n .expression trees text tail) :
    Occurs n expressionBody trees text tail := by
  obtain ⟨tokens, hlength, hderives, hspaced⟩ := h.derives
  cases hderives with
  | expression hderives => exact ⟨h.settled, tokens, hlength, hderives, hspaced⟩

/-- A token stands at the front, and it has ended. -/
theorem Occurs.token {name : Rule} {pattern : Pattern}
    (h : Occurs n (.token name pattern) trees text tail) :
    ∃ w rest, pattern.split? w = some (w, []) ∧ trees = [.token name default w] ∧ text = w ++ rest
      ∧ Ends w rest ∧ unlaid rest = tail := by
  obtain ⟨tokens, -, hderives, hspaced⟩ := h.derives
  obtain ⟨w, hsplit, rfl, rfl⟩ := exists_of_derives_token hderives
  obtain ⟨rest, htext, hends, htail⟩ := hspaced.singleton
  exact ⟨w, rest, hsplit, rfl, htext, hends, htail⟩

theorem Occurs.mark {c : Char} (h : Occurs n (mark c) trees text tail) :
    trees = [] ∧ ∃ rest, text = c :: rest ∧ unlaid rest = tail := by
  obtain ⟨tokens, -, hderives, hspaced⟩ := h.derives
  cases hderives with
  | symbol =>
      obtain ⟨rest, htext, -, htail⟩ := hspaced.singleton
      exact ⟨rfl, rest, htext, htail⟩

/-- Behind a mark fewer tokens are left. -/
theorem Occurs.seq_mark {c : Char} (h : Occurs (n + 1) (.seq (.mark c) q) trees text tail) :
    ∃ rest, text = c :: rest ∧ Occurs n q trees (unlaid rest) tail := by
  obtain ⟨tokens, hlength, hderives, hspaced⟩ := h.derives
  cases hderives with
  | @seq _ _ first second left right hfirst hsecond =>
      cases hfirst with
      | symbol =>
          rw [List.length_append, List.length_singleton] at hlength
          obtain ⟨middle, hleft, hright⟩ := hspaced.split
          obtain ⟨rest, rfl, -, rfl⟩ := hleft.singleton
          exact ⟨rest, rfl, unlaid_unlaid rest, second, by omega, hsecond, hright⟩

/-- The items of a repetition, from the last one to the first. -/
theorem Occurs.many_induction {motive : List Tree → List Char → Prop}
    (h : Occurs n (.many item) trees text tail) (hnone : unlaid tail = tail → motive [] tail)
    (hmore : ∀ {left right text middle}, Occurs n item left text middle →
      motive right middle → motive (left ++ right) text) : motive trees text := by
  obtain ⟨tokens, hlength, hderives, hspaced⟩ := h.derives
  have hsettled := h.settled
  -- the induction is on the derivation, whose phrase must be a variable for it
  generalize hp : Phrase.many item = p at hderives
  induction hderives generalizing text with
  | manyNone =>
      cases hspaced with
      | nil => exact hnone hsettled
  | @manyMore _ tokens more left right hitem _ _ ih =>
      obtain rfl := Phrase.many.inj hp
      rw [List.length_append] at hlength
      obtain ⟨middle, hleft, hright⟩ := hspaced.split
      have hmiddle := hleft.settled hsettled
      exact hmore ⟨hsettled, tokens, by omega, hitem, hleft⟩
        (ih ⟨hmiddle, more, by omega, by assumption, hright⟩ (by omega) hright hmiddle rfl)
  | _ => cases hp

/-! ## Prediction -/

/-- Where such a derivation of the phrase stands in front of a text with the property, the phrase
matches and finds its trees. -/
structure Predicted (n : Nat) (Q : List Char → Prop) (p : Phrase) : Prop where
  takes : ∀ {trees : List Tree} {text tail : List Char}, Occurs n p trees text tail → Q tail →
    Takes p text tail (Are trees)

/-- Where such a derivation stands in front of a text with the property `Q`, the whole text has the
property `P`. -/
structure Begins (n : Nat) (P Q : List Char → Prop) (p : Phrase) : Prop where
  starts : ∀ {trees : List Tree} {text tail : List Char}, Occurs n p trees text tail → Q tail →
    P text

/-- What is predicted of more tokens, or in front of more texts, is predicted of fewer. -/
theorem Predicted.mono (h : Predicted m P p) (hle : n ≤ m) (hQ : ∀ {text}, Q text → P text) :
    Predicted n Q p := ⟨fun hoccurs htail => h.takes (hoccurs.mono hle) (hQ htail)⟩

theorem Predicted.of_le (h : Predicted m Q p) (hle : n ≤ m) : Predicted n Q p := h.mono hle id

theorem Begins.mono (h : Begins n P R p) (hQ : ∀ {text}, Q text → R text) : Begins n P Q p :=
  ⟨fun hoccurs htail => h.starts hoccurs (hQ htail)⟩

theorem Begins.imp (h : Begins n R Q p) (hR : ∀ {text}, R text → P text) : Begins n P Q p :=
  ⟨fun hoccurs htail => hR (h.starts hoccurs htail)⟩

theorem begins_anyhow : Begins n (fun _ => True) Q p := ⟨fun _ _ => trivial⟩

/-- A text where the phrase fails does not begin with its derivation. -/
theorem Predicted.begins (h : Predicted n Q p) (hfails : ∀ {text}, ¬ P text → Fails p text) :
    Begins n P Q p := by
  refine ⟨fun {trees text tail} hoccurs htail => ?_⟩
  by_contra hP
  obtain ⟨_, _, hmatch, -⟩ := h.takes hoccurs htail ⟨.start, text⟩ rfl
  rw [hfails hP ⟨.start, text⟩ rfl] at hmatch
  cases hmatch

/-- A mark is predicted in front of everything. -/
theorem predicted_mark {c : Char} : Predicted n Q (mark c) := by
  refine ⟨fun {trees text tail} hoccurs _ => ?_⟩
  obtain ⟨rfl, rest, rfl, rfl⟩ := hoccurs.mark
  exact (takes_mark c rest).mono fun ts hts => by rw [hts]; rfl

/-- A text with a mark at its front begins with the mark. -/
theorem begins_mark {c : Char} (h : ∀ rest, P (c :: rest)) : Begins n P Q (mark c) := by
  refine ⟨fun {trees text tail} hoccurs _ => ?_⟩
  obtain ⟨-, rest, rfl, -⟩ := hoccurs.mark
  exact h rest

/-- Trees that are given, one behind the other. -/
theorem Joined.are {left right found : List Tree} (h : Joined (Are left) (Are right) found) :
    Are (left ++ right) found := by
  obtain ⟨first, second, rfl, rfl, rfl⟩ := h
  exact Tree.unplacedAll_append first second

/-- A sequence is predicted if its first phrase is in front of what its second phrase begins with.
-/
theorem Predicted.seq (hp : Predicted n P p) (hq : Predicted n Q q) (hbegins : Begins n P Q q) :
    Predicted n Q (.seq p q) := by
  refine ⟨fun {trees text tail} hoccurs htail => ?_⟩
  obtain ⟨left, right, middle, rfl, hleft, hright⟩ := hoccurs.seq
  exact ((hp.takes hleft (hbegins.starts hright htail)).seq (hq.takes hright htail)).mono
    fun _ => Joined.are

/-- A sequence begins as its first phrase does. -/
theorem Begins.seq (hp : Begins n P R p) (hq : Begins n R Q q) : Begins n P Q (.seq p q) := by
  refine ⟨fun {trees text tail} hoccurs htail => ?_⟩
  obtain ⟨left, right, middle, rfl, hleft, hright⟩ := hoccurs.seq
  exact hp.starts hleft (hq.starts hright htail)

/-- Behind a mark a derivation is shorter. -/
theorem Predicted.seq_mark {c : Char} (hq : Predicted n Q q) :
    Predicted (n + 1) Q (.seq (.mark c) q) := by
  refine ⟨fun {trees text tail} hoccurs htail => ?_⟩
  obtain ⟨rest, rfl, hbehind⟩ := hoccurs.seq_mark
  refine ((takes_mark c rest).seq (hq.takes hbehind htail)).mono fun ts hts => ?_
  obtain ⟨_, right, rfl, rfl, hright⟩ := hts
  exact hright

/-- A mark and a phrase begin with the mark. -/
theorem Begins.seq_mark {c : Char} (hq : Begins n P Q q)
    (h : ∀ {rest}, P (unlaid rest) → R (c :: rest)) : Begins n R Q (.seq (.mark c) q) := by
  refine ⟨fun {trees text tail} hoccurs htail => ?_⟩
  obtain ⟨left, right, middle, rfl, hleft, hright⟩ := hoccurs.seq
  obtain ⟨-, rest, rfl, rfl⟩ := hleft.mark
  exact h (hq.starts hright htail)

/-- Alternatives begin alike if both do. -/
theorem Begins.alt (hp : Begins n P Q p) (hq : Begins n P Q q) : Begins n P Q (.alt p q) := by
  refine ⟨fun {trees text tail} hoccurs htail => ?_⟩
  rcases hoccurs.alt with hfirst | hsecond
  · exact hp.starts hfirst htail
  · exact hq.starts hsecond htail

/-- A rule is predicted by its body. -/
theorem Predicted.rule {name : Rule} (h : Predicted n Q body) :
    Predicted n Q (.rule name body) := by
  refine ⟨fun {trees text tail} hoccurs htail => ?_⟩
  obtain ⟨inner, rfl, hinner⟩ := hoccurs.rule
  refine (h.takes hinner htail).rule fun span ts hts => ?_
  rw [Are, Tree.unplacedAll_cons, Tree.unplaced, hts]
  rfl

theorem Begins.rule {name : Rule} (h : Begins n P Q body) : Begins n P Q (.rule name body) := by
  refine ⟨fun {trees text tail} hoccurs htail => ?_⟩
  obtain ⟨inner, rfl, hinner⟩ := hoccurs.rule
  exact h.starts hinner htail

/-- What is optional is predicted if it fails where it is left out. -/
theorem Predicted.optional (h : Predicted n Q p) (hnone : ∀ {text}, Q text → Fails p text) :
    Predicted n Q (.optional p) := by
  refine ⟨fun {trees text tail} hoccurs htail => ?_⟩
  rcases hoccurs.optional with ⟨rfl, rfl⟩ | hsome
  · exact ((hnone htail).optional hoccurs.settled).mono fun ts hts => by rw [hts]; rfl
  · exact (h.takes hsome htail).optional

/-- A repetition begins as its items, or as what follows it. -/
theorem Begins.many (hitem : Begins n P P item) (hQ : ∀ {text}, Q text → P text) :
    Begins n P Q (.many item) := by
  refine ⟨fun {trees text tail} hoccurs htail => ?_⟩
  exact hoccurs.many_induction (motive := fun _ text => P text) (fun _ => hQ htail) hitem.starts

/-- A repetition is found if its items are, and ends where an item fails. -/
theorem Predicted.many (hp : Predicted n P item) (hitem : Begins n P P item)
    (hQ : ∀ {text}, Q text → P text) (htakes : item.takes = true)
    (hends : ∀ {text}, Q text → Fails item text) : Predicted n Q (.many item) := by
  refine ⟨fun {trees text tail} hoccurs htail => ?_⟩
  -- that the text begins as an item does goes along, since the item in front needs it
  have hrepeats : P text ∧ ∃ R, Repeats item text tail R ∧ ∀ ts, R ts → Are trees ts := by
    refine hoccurs.many_induction
      (motive := fun trees text => P text ∧
        ∃ R, Repeats item text tail R ∧ ∀ ts, R ts → Are trees ts)
      (fun _ => ⟨hQ htail, _, .done (hends htail), ?_⟩) ?_
    · rintro _ rfl
      rfl
    · rintro left right text middle hleft ⟨hmiddle, R, hmore, hR⟩
      refine ⟨hitem.starts hleft hmiddle, _, .more (hp.takes hleft hmiddle) hmore, fun ts hts => ?_⟩
      obtain ⟨first, second, rfl, hfirst, hsecond⟩ := hts
      exact Joined.are ⟨first, second, rfl, hfirst, hR second hsecond⟩
  obtain ⟨-, R, hrepeats, hR⟩ := hrepeats
  exact (hrepeats.takes_many htakes hoccurs.settled).mono hR

/-- A nested expression is predicted as its body is. -/
theorem Predicted.expression (h : Predicted n Q expressionBody) : Predicted n Q .expression :=
  ⟨fun hoccurs htail => (h.takes hoccurs.expression htail).expression⟩

end RowFilter.Grammar.Phrase
