/-
Where the nodes of a parse tree lie.

A span lies in a text if it begins and ends between two characters of it, and has the line and
column of its beginning (`Span.Lies`). Spans stand in order in a stretch if each ends before the
next begins (`InOrder`). A cursor that has been moved forward over a text knows its place in it, so
what a phrase finds lies in the text, in order between the cursors in front of it and behind it,
and so it is inside of every node (`Tree.Fits`).
-/
import RowFilter.Proofs.Grammar.Expressions
import RowFilter.Proofs.Source.Places

set_option autoImplicit false

namespace RowFilter

/-! ## Spans in a text -/

/-- The place is one between two characters of the text, or at one of its ends. -/
def Position.Within (p : Position) (text : List Char) : Prop :=
  ∃ before behind, text = before ++ behind ∧ Position.start.advanceBy before = p

/-- The span is a stretch of the text, with the line and column of its beginning. -/
structure Span.Lies (s : Span) (text : List Char) : Prop where
  begins : Position.Within ⟨s.start, s.line, s.column⟩ text
  ends : ∃ p : Position, p.offset = s.stop ∧ p.Within text
  start_le_stop : s.start ≤ s.stop

/-- Spans between two offsets, each behind the one before it. -/
def InOrder (first last : Nat) : List Span → Prop
  | [] => first ≤ last
  | s :: rest => first ≤ s.start ∧ s.start ≤ s.stop ∧ InOrder s.stop last rest

namespace InOrder

variable {first middle last : Nat} {s : Span} {spans more : List Span}

theorem mono {first' last' : Nat} (hfirst : first' ≤ first) (hlast : last ≤ last')
    (h : InOrder first last spans) : InOrder first' last' spans := by
  induction spans generalizing first first' with
  | nil => exact (hfirst.trans h).trans hlast
  -- only the first span meets the lower bound, and only the last one the upper
  | cons s rest ih => exact ⟨hfirst.trans h.1, h.2.1, ih (Nat.le_refl s.stop) h.2.2⟩

theorem append (h : InOrder first middle spans) (h' : InOrder middle last more) :
    InOrder first last (spans ++ more) := by
  induction spans generalizing first with
  | nil => exact h'.mono h (Nat.le_refl last)
  | cons s rest ih => exact ⟨h.1, h.2.1, ih h.2.2⟩

/-- Between two parts of a list of spans there is such a place. -/
theorem split (h : InOrder first last (spans ++ more)) :
    ∃ middle, InOrder first middle spans ∧ InOrder middle last more := by
  induction spans generalizing first with
  | nil => exact ⟨first, Nat.le_refl first, h⟩
  | cons s rest ih =>
      obtain ⟨middle, hrest, hmore⟩ := ih h.2.2
      exact ⟨middle, ⟨h.1, h.2.1, hrest⟩, hmore⟩

/-- Some of the spans are in order if all are. -/
theorem sublist (hsub : spans.Sublist more) (h : InOrder first last more) :
    InOrder first last spans := by
  induction hsub generalizing first with
  | slnil => exact h
  | cons s _ ih => exact (ih h.2.2).mono (h.1.trans h.2.1) (Nat.le_refl last)
  | cons_cons s _ ih => exact ⟨h.1, h.2.1, ih h.2.2⟩

/-- Every one of them lies between the offsets. -/
theorem bounds (h : InOrder first last spans) (hs : s ∈ spans) :
    first ≤ s.start ∧ s.start ≤ s.stop ∧ s.stop ≤ last :=
  h.sublist (List.singleton_sublist.mpr hs)

/-- Of two spans the one in front ends before the other begins. -/
theorem pairwise (h : InOrder first last spans) :
    spans.Pairwise fun s t => s.stop ≤ t.start := by
  induction spans generalizing first with
  | nil => exact .nil
  | cons s rest ih => exact .cons (fun t ht => (h.2.2.bounds ht).1) (ih h.2.2)

end InOrder

namespace Grammar

/-! ## Trees in a text -/

/-- Every node of the tree lies in the text, and its children stand in order inside of it. -/
inductive Tree.Fits (text : List Char) : Tree → Prop
  | token {rule : Rule} {span : Span} {taken : List Char} (h : span.Lies text) :
      Fits text (.token rule span taken)
  | node {rule : Rule} {span : Span} {children : List Tree} (h : span.Lies text)
      (horder : InOrder span.start span.stop (children.map Tree.span))
      (hchildren : ∀ c ∈ children, Fits text c) : Fits text (.node rule span children)

theorem Tree.Fits.lies {text : List Char} {t : Tree} (h : t.Fits text) : t.span.Lies text := by
  cases h <;> assumption

/-- The trees fit, and they stand in order between two cursors. -/
structure Placed (text : List Char) (c : Cursor) (trees : List Tree) (next : Cursor) : Prop where
  order : InOrder c.position.offset next.position.offset (trees.map Tree.span)
  fits : ∀ t ∈ trees, t.Fits text

namespace Placed

variable {text : List Char} {c between d next : Cursor} {left right : List Tree}

theorem nil (h : c.position.offset ≤ next.position.offset) : Placed text c [] next :=
  ⟨h, by simp⟩

/-- Trees behind each other, perhaps with layout between them. -/
theorem append (h : Placed text c left between)
    (hle : between.position.offset ≤ d.position.offset) (h' : Placed text d right next) :
    Placed text c (left ++ right) next where
  order := by
    rw [List.map_append]
    exact h.order.append (h'.order.mono hle (Nat.le_refl _))
  fits t ht := (List.mem_append.mp ht).elim (h.fits t) (h'.fits t)

/-- One tree that fits, from cursor to cursor. -/
theorem single {t : Tree} (hspan : t.span = .between c.position next.position)
    (hle : c.position.offset ≤ next.position.offset) (h : t.Fits text) :
    Placed text c [t] next where
  order := by
    show InOrder _ _ [t.span]
    rw [hspan]
    exact ⟨Nat.le_refl _, hle, Nat.le_refl _⟩
  fits t' ht := by
    obtain rfl := List.mem_singleton.mp ht
    exact h

end Placed

end Grammar

/-! ## Cursors in a text -/

namespace Cursor

variable {text read taken : List Char} {c d : Cursor}

/-- The cursor is one that has been moved over the text from its beginning. -/
def In (c : Cursor) (text : List Char) : Prop := ∃ read, (ofText text).Moves read c

/-- A cursor starts in its text. -/
theorem in_ofText (text : List Char) : (ofText text).In text := ⟨[], .refl _⟩

theorem In.moves (h : c.In text) (hmoves : c.Moves taken d) : d.In text := by
  obtain ⟨read, hread⟩ := h
  exact ⟨read ++ taken, hread.trans hmoves⟩

theorem In.within (h : c.In text) : c.position.Within text := by
  obtain ⟨read, hread⟩ := h
  exact ⟨read, c.rest, hread.rest_eq, hread.position_eq.symm⟩

/-- Offsets only grow. -/
theorem offset_le_advanceBy (p : Position) (taken : List Char) :
    p.offset ≤ (p.advanceBy taken).offset := by
  induction taken generalizing p with
  | nil => exact Nat.le_refl p.offset
  | cons c rest ih =>
      have hone : p.offset ≤ (p.advance c).offset := by
        unfold Position.advance
        split <;> exact Nat.le_add_right _ _
      exact hone.trans (ih (p.advance c))

theorem Moves.offset_le (h : c.Moves taken d) : c.position.offset ≤ d.position.offset := by
  rw [h.position_eq]
  exact offset_le_advanceBy c.position taken

/-- What stands between two cursors in a text lies in it. -/
theorem In.lies (h : c.In text) (hmoves : c.Moves taken d) :
    (Span.between c.position d.position).Lies text where
  begins := h.within
  ends := ⟨d.position, rfl, (h.moves hmoves).within⟩
  start_le_stop := hmoves.offset_le

end Cursor

namespace Grammar

/-! ## Matching -/

/-- A matcher that moves forward and finds trees in order on its way. -/
def Places (text : List Char) (m : Matcher) : Prop :=
  ∀ c trees next, c.In text → m c = some (trees, next) →
    (∃ taken, c.Moves taken next) ∧ Placed text c trees next

variable {text : List Char} {nested : Matcher}

/-- Layout in front does not matter to where trees are placed. -/
theorem places_skipping {m : Matcher} (h : Places text m) :
    Places text fun c => m (skipLayout c) := by
  intro c trees next hc hmatch
  obtain ⟨blanks, hskip⟩ := skipLayout_moves c
  obtain ⟨⟨taken, hmoves⟩, hplaced⟩ := h _ trees next (hc.moves hskip) hmatch
  exact ⟨⟨blanks ++ taken, hskip.trans hmoves⟩,
    (Placed.nil (Nat.le_refl _)).append hskip.offset_le hplaced⟩

/-- Items one after the other are placed one after the other. -/
theorem repeated_placed {item : Matcher} (h : Places text item) (bound : List Char) (c : Cursor)
    (hc : c.In text) : (∃ taken, c.Moves taken (repeated item bound c).2)
      ∧ Placed text c (repeated item bound c).1 (repeated item bound c).2 := by
  -- one item at a time, from where the one before it has ended
  induction bound generalizing c with
  | nil => exact ⟨⟨[], .refl c⟩, .nil (Nat.le_refl _)⟩
  | cons _ bound ih =>
      rw [repeated_cons]
      rcases hitem : item c with _ | ⟨trees, next⟩
      · exact ⟨⟨[], .refl c⟩, .nil (Nat.le_refl _)⟩
      · obtain ⟨⟨taken, hmoves⟩, hplaced⟩ := h c trees next hc hitem
        obtain ⟨⟨more, hlast⟩, hmore⟩ := ih next (hc.moves hmoves)
        exact ⟨⟨taken ++ more, hmoves.trans hlast⟩, hplaced.append (Nat.le_refl _) hmore⟩

/-- **What a phrase finds lies in order**, if the expressions inside it do. -/
theorem Phrase.places_matched? (h : Places text nested) (p : Phrase) :
    Places text (p.matched? nested) := by
  -- a node is put around its children, so it takes up their order, and its own span is the way
  -- that its body has moved; a symbol moves without a tree, and leaves a gap
  induction p with
  | symbol expected =>
      intro c trees next hc hmatch
      obtain ⟨rfl, rest, hrest, rfl⟩ := matched?_symbol_eq_some_iff.mp hmatch
      have hmoves := Cursor.moves_past hrest
      exact ⟨⟨expected, hmoves⟩, .nil hmoves.offset_le⟩
  | token name pattern =>
      intro c trees next hc hmatch
      obtain ⟨taken, rest, hsplit, rfl, rfl⟩ := matched?_token_eq_some_iff.mp hmatch
      have hmoves := Cursor.moves_past (Pattern.split?_append hsplit).symm
      exact ⟨⟨taken, hmoves⟩, .single rfl hmoves.offset_le (.token (hc.lies hmoves))⟩
  | endOfText =>
      intro c trees next hc hmatch
      obtain ⟨hempty, rfl, rfl⟩ := matched?_endOfText_eq_some_iff.mp hmatch
      have hmoves : c.Moves [] (c.past [] []) := Cursor.moves_past hempty
      exact ⟨⟨[], hmoves⟩, .single rfl hmoves.offset_le (.token (hc.lies hmoves))⟩
  | rule name body ih =>
      intro c trees next hc hmatch
      obtain ⟨inner, hbody, rfl⟩ := matched?_rule_eq_some_iff.mp hmatch
      obtain ⟨⟨taken, hmoves⟩, hplaced⟩ := ih c inner next hc hbody
      exact ⟨⟨taken, hmoves⟩, .single rfl hmoves.offset_le
        (.node (hc.lies hmoves) hplaced.order hplaced.fits)⟩
  | expression => exact h
  | seq first second ihfirst ihsecond =>
      intro c trees next hc hmatch
      obtain ⟨left, between, right, hfirst, hsecond, rfl⟩ := matched?_seq_eq_some_iff.mp hmatch
      obtain ⟨⟨taken, hmoves⟩, hleft⟩ := ihfirst c left between hc hfirst
      obtain ⟨⟨more, hlast⟩, hright⟩ :=
        places_skipping ihsecond between right next (hc.moves hmoves) hsecond
      exact ⟨⟨taken ++ more, hmoves.trans hlast⟩, hleft.append (Nat.le_refl _) hright⟩
  | alt first second ihfirst ihsecond =>
      intro c trees next hc hmatch
      rcases Option.or_eq_some_iff.mp hmatch with hfirst | ⟨-, hsecond⟩
      · exact ihfirst c trees next hc hfirst
      · exact ihsecond c trees next hc hsecond
  | many item ih =>
      intro c trees next hc hmatch
      rcases matched?_many_eq_some_iff.mp hmatch with
        ⟨-, rfl, rfl⟩ | ⟨left, middle, right, hitem, hagain, rfl⟩
      · exact ⟨⟨[], .refl next⟩, .nil (Nat.le_refl _)⟩
      · obtain ⟨⟨taken, hmoves⟩, hleft⟩ := ih c left middle hc hitem
        obtain ⟨⟨more, hlast⟩, hright⟩ :=
          repeated_placed (places_skipping ih) c.rest middle (hc.moves hmoves)
        rw [hagain] at hlast hright
        exact ⟨⟨taken ++ more, hmoves.trans hlast⟩, hleft.append (Nat.le_refl _) hright⟩
  | optional item ih =>
      intro c trees next hc hmatch
      rcases matched?_optional_eq_some_iff.mp hmatch with hitem | ⟨-, rfl, rfl⟩
      · exact ih c trees next hc hitem
      · exact ⟨⟨[], .refl next⟩, .nil (Nat.le_refl _)⟩

/-- Nested expressions are placed, however deep. -/
theorem places_expressionsTo (depth : Nat) : Places text (expressionsTo depth) := by
  induction depth with
  | zero =>
      intro c trees next _ hmatch
      cases hmatch
  | succ depth ih => exact Phrase.places_matched? ih Phrase.expressionBody

/-- **A parse tree fits its text.** Every node lies in the text, with its children in order inside
of it. -/
theorem fits_of_readProgram {tree : Tree} (h : readProgram text = .ok tree) : tree.Fits text := by
  obtain ⟨last, hmatch⟩ := readProgram_eq_ok_iff.mp h
  have hnested : Places text expression? := fun c => places_expressionsTo _ c
  obtain ⟨-, hplaced⟩ := Phrase.places_matched? hnested Phrase.program _ _ _
    (Cursor.in_ofText text) hmatch
  exact hplaced.fits tree List.mem_cons_self

end Grammar

end RowFilter
