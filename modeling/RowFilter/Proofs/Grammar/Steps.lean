/-
The scan is led along a match.

Phrase by phrase it is said what the scan does while the parser reads (`Phrase.Keeps`). Over a match
it sees the brackets that the trees found stand for, and they are closed again; where an
expression is asked for, it stands in front of it with so many brackets open as the phrase
has put around it, whatever comes of the attempt. What the trees stand for is left
open here: it is a relation between trees and brackets that goes along with sequences and
repetitions. Only brackets move the scan up (`Keeps.enclosed`).
-/
import RowFilter.Proofs.Grammar.Expressions
import RowFilter.Proofs.Grammar.Scanning

set_option autoImplicit false

namespace RowFilter.Grammar

open Brackets (Context)
open Brackets.Context (Code Ready)

/-! ## Led along -/

/-- Brackets that lead `n` levels up, from wherever they start. -/
def Rises (n : Nat) (brackets : List Char) : Prop :=
  ∀ depth, Brackets.level depth brackets = depth + n

theorem rises_nil : Rises 0 [] := fun _ => rfl

theorem Rises.append {m n : Nat} {first second : List Char} (h : Rises m first)
    (h' : Rises n second) : Rises (m + n) (first ++ second) := by
  intro depth
  rw [Brackets.level_append, h, h', Nat.add_assoc]

/-- The text between two cursors leads the scan from one context to another, and shows it the
brackets. -/
def Covers (k : Context) (c : Cursor) (brackets : List Char) (k' : Context) (d : Cursor) : Prop :=
  ∃ taken, c.Moves taken d ∧ k.after taken = k' ∧ k.seen taken = brackets

theorem Covers.refl (k : Context) (c : Cursor) : Covers k c [] k c :=
  ⟨[], .refl c, rfl, rfl⟩

theorem Covers.trans {k k' k'' : Context} {c d e : Cursor} {first second : List Char}
    (h : Covers k c first k' d) (h' : Covers k' d second k'' e) :
    Covers k c (first ++ second) k'' e := by
  obtain ⟨taken, hmoves, rfl, rfl⟩ := h
  obtain ⟨more, hmoves', rfl, rfl⟩ := h'
  exact ⟨taken ++ more, hmoves.trans hmoves', Context.after_append k taken more,
    Context.seen_append k taken more⟩

/-- Where a scan may stand when a phrase has been read. -/
structure Stands (clean : Bool) (k : Context) (c : Cursor) : Prop where
  ready : k.Ready c.rest
  rawMark_eq : clean = true → k.rawMark = false

/-- Where a scan may stand when a phrase is to be read: there is no layout any more. -/
structure Meets (clean : Bool) (k : Context) (c : Cursor) : Prop extends Stands clean k c where
  settled : (Pattern.alt blank comment).split? c.rest = none

section
variable {clean clean' : Bool} {k : Context} {c : Cursor} {x : Char} {taken rest : List Char}

/-- Whether a letter `r` stands in front may be forgotten. -/
theorem Stands.loosen (h : Stands clean k c) : Stands false k c := ⟨h.ready, by rintro ⟨⟩⟩

theorem Meets.loosen (h : Meets clean k c) : Meets false k c := ⟨h.toStands.loosen, h.settled⟩

/-- What is ahead is read as code. -/
theorem Stands.asCode (h : Stands clean k c) : Code clean k.asCode := ⟨rfl, h.rawMark_eq⟩

theorem stands_of_code {k : Context} (h : Code clean k) (c : Cursor) : Stands clean k c :=
  ⟨h.ready c.rest, h.rawMark_eq⟩

/-- A token is passed as its pattern leads. -/
theorem Stands.past_token {p : Pattern} (h : Stands clean k c)
    (hleads : p.Leads (Code clean) (Code clean')) (htakes : p.takes = true)
    (hsplit : p.split? c.rest = some (taken, rest)) :
    ∃ k', Covers k c [] k' (c.past taken rest) ∧ Stands clean' k' (c.past taken rest) := by
  have htext : taken ++ rest = c.rest := Pattern.split?_append hsplit
  have hready : k.Ready (taken ++ rest) := by
    rw [htext]
    exact h.ready
  obtain ⟨hafter, hseen⟩ := hready.after_eq (Pattern.ne_nil_of_takes htakes hsplit)
  obtain ⟨hcode, hnone⟩ := hleads _ _ _ _ hsplit h.asCode
  refine ⟨_, ⟨taken, Cursor.moves_past htext.symm, hafter, hseen.trans hnone⟩, ?_⟩
  exact stands_of_code hcode _

/-- A bracket is passed and seen. -/
theorem Stands.past_bracket (h : Stands clean k c) (hx : Brackets.isBracket x = true)
    (hrest : c.rest = x :: rest) :
    Covers k c [x] ⟨.code, false⟩ (c.past [x] rest) ∧
      Stands true ⟨.code, false⟩ (c.past [x] rest) := by
  have hready : k.Ready (x :: rest) := by
    rw [← hrest]
    exact h.ready
  obtain ⟨hnext, hcounts⟩ := hready.next_eq
  -- a bracket is counted, and leaves the scan in code with no letter in front
  have hcode : k.asCode.next x = ⟨.code, false⟩ ∧ k.asCode.counts x = true := by
    have hcases : x = '(' ∨ x = '[' ∨ x = ')' ∨ x = ']' := by
      simpa [Brackets.isBracket, Brackets.isOpening, Brackets.isClosing, or_assoc] using hx
    rcases hcases with rfl | rfl | rfl | rfl <;> exact ⟨rfl, rfl⟩
  refine ⟨⟨[x], Cursor.moves_past hrest, hnext.trans hcode.1, ?_⟩,
    stands_of_code ⟨rfl, fun _ => rfl⟩ _⟩
  exact Context.seen_cons_of_counts (hcounts.trans hcode.2) []

/-! ### Layout -/

/-- A blank is passed, also the one that ends a comment. -/
theorem Ready.past_blank (h : k.Ready (x :: rest)) (hx : x = ' ' ∨ x = '\t' ∨ x = '\r' ∨ x = '\n') :
    k.next x = ⟨.code, false⟩ ∧ k.counts x = false := by
  obtain ⟨hnext, hcounts⟩ := h.next_eq
  rw [hnext, hcounts]
  rcases hx with rfl | rfl | rfl | rfl <;> exact ⟨rfl, rfl⟩

/-- Within a comment, up to the end of its line. -/
theorem after_comment (htaken : ∀ d ∈ taken, d ≠ '\n') :
    (Context.mk .comment false).after taken = ⟨.comment, false⟩
      ∧ (Context.mk .comment false).seen taken = [] := by
  induction taken with
  | nil => exact ⟨rfl, rfl⟩
  | cons d more ih =>
      have hnext : (Context.mk .comment false).next d = ⟨.comment, false⟩ :=
        if_neg (htaken d List.mem_cons_self)
      rw [Context.after_cons, Context.seen_cons_of_not_counts rfl, hnext]
      exact ih fun e he => htaken e (List.mem_cons_of_mem _ he)

/-- Two slashes lead into a comment. -/
theorem Ready.past_comment (h : k.Ready ('/' :: '/' :: rest)) :
    (k.next '/').next '/' = ⟨.comment, false⟩ ∧ k.counts '/' = false
      ∧ (k.next '/').counts '/' = false := by
  obtain ⟨hnext, hcounts⟩ := h.next_eq
  rw [hnext, hcounts]
  exact ⟨rfl, rfl, rfl⟩

/-- A blank or a comment is passed without a bracket, and leaves no letter `r` behind. -/
theorem Ready.past_layoutItem {text middle : List Char} (h : k.Ready text)
    (hitem : (Pattern.alt blank comment).split? text = some (taken, middle)) :
    (k.after taken).Ready middle ∧ (k.after taken).rawMark = false ∧ k.seen taken = [] := by
  have htext := Pattern.split?_append hitem
  subst htext
  rcases Pattern.split?_alt_eq_some_iff.mp hitem with hblank | ⟨-, hcomment⟩
  · obtain ⟨x, hx, rfl, -⟩ := Pattern.split?_one_eq_some_iff.mp hblank
    simp only [Bool.or_eq_true, beq_iff_eq, or_assoc] at hx
    obtain ⟨hnext, hcounts⟩ := Ready.past_blank h hx
    rw [Context.seen_cons_of_not_counts hcounts, Context.after_cons, hnext]
    exact ⟨trivial, rfl, rfl⟩
  · obtain ⟨left, between, body, hslashes, hbody, rfl⟩ :=
      Pattern.split?_seq_eq_some_iff.mp hcomment
    obtain ⟨rfl, -⟩ := Pattern.split?_exactly_eq_some_iff.mp hslashes
    rw [Pattern.noneOf, Pattern.split?_many_one, Option.some.injEq, Prod.mk.injEq] at hbody
    obtain ⟨hinside, hbehind⟩ := hbody
    obtain ⟨hnext, hcounts, hcounts'⟩ := Ready.past_comment h
    -- a comment goes on to a line feed or to the end, which is where the scan leaves it as well
    have hline : ∀ d ∈ body, d ≠ '\n' := by
      intro d hd
      rw [← hinside] at hd
      simpa using List.all_eq_true.mp List.all_takeWhile d hd
    obtain ⟨hafter, hseen⟩ := after_comment hline
    rw [List.cons_append, List.cons_append, List.nil_append, Context.after_cons,
      Context.after_cons, Context.seen_cons_of_not_counts hcounts,
      Context.seen_cons_of_not_counts hcounts', hnext, hafter, hseen]
    refine ⟨fun d hd => ?_, rfl, rfl⟩
    rw [← hbehind] at hd
    have hstop := List.head?_dropWhile_not (fun d => !(['\n'].contains d)) between
    rw [hd] at hstop
    simpa using hstop

/-- Layout is passed, to where the next token may begin. -/
theorem Ready.past_layout {text : List Char} (h : k.Ready text)
    (hmark : clean = true → k.rawMark = false) (hsplit : layout.split? text = some (taken, rest)) :
    (k.after taken).Ready rest ∧ (clean = true → (k.after taken).rawMark = false)
      ∧ k.seen taken = [] := by
  -- for every context, as each item leads to another one
  refine Pattern.split?_many_induction (motive := fun text taken rest =>
    ∀ k : Context, k.Ready text → (clean = true → k.rawMark = false) →
      (k.after taken).Ready rest ∧ (clean = true → (k.after taken).rawMark = false)
        ∧ k.seen taken = []) hsplit ?_ ?_ k h hmark
  · exact fun text k hready hmark => ⟨hready, hmark, rfl⟩
  · intro text taken middle more rest hitem hmore k hready hmark
    obtain ⟨hready', hmark', hseen⟩ := Ready.past_layoutItem hready hitem
    obtain ⟨hlast, hmark'', hseen'⟩ := hmore _ hready' fun _ => hmark'
    rw [Context.after_append, Context.seen_append, hseen, hseen']
    exact ⟨hlast, hmark'', rfl⟩

/-- Layout is passed without a bracket, and as far as it goes. -/
theorem Stands.skipLayout (h : Stands clean k c) :
    ∃ k', Covers k c [] k' (skipLayout c) ∧ Meets clean k' (skipLayout c) := by
  rcases hsplit : layout.split? c.rest with _ | ⟨taken, rest⟩
  · cases hsplit
  · have hskip : Grammar.skipLayout c = c.past taken rest := by rw [Grammar.skipLayout, hsplit]
    obtain ⟨hready, hmark, hseen⟩ := Ready.past_layout h.ready h.rawMark_eq hsplit
    rw [hskip]
    refine ⟨_, ⟨taken, Cursor.moves_past (Pattern.split?_append hsplit).symm, rfl, hseen⟩,
      ⟨hready, hmark⟩, ?_⟩
    exact Pattern.split?_many_stops rfl hsplit

end

/-! ## Phrases keep step -/

/-- A match leads the scan to where the next phrase may begin, shows it brackets that are closed
again, and finds trees that spell them. -/
def Led (before after : Bool) (spells : List Tree → List Char → Prop) (m : Matcher) : Prop :=
  ∀ k c trees next, Meets before k c → m c = some (trees, next) →
    ∃ brackets k', Covers k c brackets k' next ∧ Stands after k' next
      ∧ spells trees brackets ∧ Rises 0 brackets

/-- What a phrase does to the scan. It is led over a match, and where the phrase asks for an
expression, whatever becomes of it, it is in front of it, `n` levels up. -/
structure Phrase.Keeps (nested : Matcher) (n : Nat) (before after : Bool)
    (spells : List Tree → List Char → Prop) (p : Phrase) : Prop where
  matched : Led before after spells (p.matched? nested)
  asked : ∀ k c d, Meets before k c → d ∈ p.asks nested c →
    ∃ brackets k', Covers k c brackets k' d ∧ Meets true k' d ∧ Rises n brackets

namespace Phrase

section
variable {nested : Matcher} {n : Nat} {before middle after : Bool}
  {R S T : List Tree → List Char → Prop} {p q item body : Phrase}

/-- Less may be said of where the scan stands behind a match, and of what the trees spell. -/
theorem Keeps.weaken (h : Keeps nested n before middle R p)
    (hstands : ∀ k c, Stands middle k c → Stands after k c) (hR : ∀ ts w, R ts w → S ts w) :
    Keeps nested n before after S p where
  matched k c trees next hmeets hmatch := by
    obtain ⟨w, k', hcovers, hbehind, hspells, hrises⟩ := h.matched k c trees next hmeets hmatch
    exact ⟨w, k', hcovers, hstands _ _ hbehind, hR _ _ hspells, hrises⟩
  asked := h.asked

theorem Keeps.mono (h : Keeps nested n before after R p) (hR : ∀ ts w, R ts w → S ts w) :
    Keeps nested n before after S p := h.weaken (fun _ _ => id) hR

theorem Keeps.loosen (h : Keeps nested n before after R p) : Keeps nested n before false R p :=
  h.weaken (fun _ _ => Stands.loosen) fun _ _ => id

/-- A phrase that may stand behind a letter `r` may stand elsewhere. -/
theorem Keeps.tighten (h : Keeps nested n false after R p) : Keeps nested n before after R p where
  matched k c trees next hmeets := h.matched k c trees next hmeets.loosen
  asked k c d hmeets := h.asked k c d hmeets.loosen

/-- A token is kept if its pattern leads the scan past it. -/
theorem keeps_token {name : Rule} {pattern : Pattern}
    (hleads : pattern.Leads (Code before) (Code after)) (htakes : pattern.takes = true)
    (hspells : ∀ span text, R [.token name span text] []) :
    Keeps nested n before after R (.token name pattern) where
  matched k c trees next hmeets hmatch := by
    obtain ⟨taken, rest, hsplit, rfl, rfl⟩ := matched?_token_eq_some_iff.mp hmatch
    obtain ⟨k', hcovers, hstands⟩ := hmeets.past_token hleads htakes hsplit
    exact ⟨[], k', hcovers, hstands, hspells _ _, rises_nil⟩
  asked k c d _ hd := by cases hd

/-- A mark is kept if it has no special meaning. -/
theorem keeps_mark {x : Char}
    (hx : (Pattern.exactly [x]).avoids ('r' :: 'R' :: Context.special) = true)
    (hspells : R [] []) : Keeps nested n false true R (mark x) where
  matched k c trees next hmeets hmatch := by
    obtain ⟨rfl, rest, hrest, rfl⟩ := matched?_symbol_eq_some_iff.mp hmatch
    have hsplit := Pattern.split?_exactly_eq_some_iff.mpr ⟨rfl, hrest⟩
    obtain ⟨k', hcovers, hstands⟩ :=
      hmeets.past_token (Pattern.leads_clean hx rfl) rfl hsplit
    exact ⟨[], k', hcovers, hstands, hspells, rises_nil⟩
  asked k c d _ hd := by cases hd

/-- A nested expression is kept as it is assumed to be. -/
theorem keeps_expression (h : Led true false R nested) :
    Keeps nested 0 true false R .expression where
  matched := h
  asked k c d hmeets hd := by
    obtain rfl := List.mem_singleton.mp hd
    exact ⟨[], k, .refl k d, hmeets, rises_nil⟩

/-- **Sequences.** The brackets of the first phrase, and those of the second behind the layout
between them. -/
theorem Keeps.seq (hp : Keeps nested n before middle R p) (hq : Keeps nested n middle after S q)
    (hspells : ∀ left right v w, R left v → S right w → T (left ++ right) (v ++ w)) :
    Keeps nested n before after T (.seq p q) where
  matched k c trees next hmeets hmatch := by
    obtain ⟨left, between, right, hleft, hright, rfl⟩ := matched?_seq_eq_some_iff.mp hmatch
    obtain ⟨v, _, hcovers, hstands, hv, hrises⟩ := hp.matched k c left between hmeets hleft
    -- the layout has no brackets for the scan
    obtain ⟨_, hskip, hmeets'⟩ := hstands.skipLayout
    obtain ⟨w, k', hcovers', hstands', hw, hrises'⟩ := hq.matched _ _ right next hmeets' hright
    have hall := (hcovers.trans hskip).trans hcovers'
    rw [List.append_nil] at hall
    exact ⟨v ++ w, k', hall, hstands', hspells _ _ _ _ hv hw, hrises.append hrises'⟩
  asked k c d hmeets hd := by
    rcases mem_asks_seq_iff.mp hd with hd | ⟨left, between, hleft, hd⟩
    · exact hp.asked k c d hmeets hd
    · obtain ⟨v, _, hcovers, hstands, -, hrises⟩ := hp.matched k c left between hmeets hleft
      obtain ⟨_, hskip, hmeets'⟩ := hstands.skipLayout
      obtain ⟨w, k', hcovers', hmeets'', hrises'⟩ := hq.asked _ _ d hmeets' hd
      have hall := (hcovers.trans hskip).trans hcovers'
      have hlevels := hrises.append hrises'
      rw [List.append_nil] at hall
      -- the first phrase is balanced, so only what the second one has open counts
      rw [Nat.zero_add] at hlevels
      exact ⟨v ++ w, k', hall, hmeets'', hlevels⟩

/-- **Alternatives.** Whichever matches, and what the first one asks for before it fails. -/
theorem Keeps.alt (hp : Keeps nested n before after R p) (hq : Keeps nested n before after R q) :
    Keeps nested n before after R (.alt p q) where
  matched k c trees next hmeets hmatch := by
    rcases Option.or_eq_some_iff.mp hmatch with hmatch | ⟨-, hmatch⟩
    · exact hp.matched k c trees next hmeets hmatch
    · exact hq.matched k c trees next hmeets hmatch
  asked k c d hmeets hd := by
    rcases mem_asks_alt_iff.mp hd with hd | ⟨-, hd⟩
    · exact hp.asked k c d hmeets hd
    · exact hq.asked k c d hmeets hd

theorem Keeps.optional (hp : Keeps nested n before false R p) (hnil : R [] []) :
    Keeps nested n before false R (.optional p) where
  matched k c trees next hmeets hmatch := by
    rcases matched?_optional_eq_some_iff.mp hmatch with hitem | ⟨-, rfl, rfl⟩
    · exact hp.matched k c trees next hmeets hitem
    · exact ⟨[], k, .refl k next, hmeets.toStands.loosen, hnil, rises_nil⟩
  asked := hp.asked

/-- The items behind the first one. Layout is skipped in front of each of them. -/
theorem Keeps.repeated (hp : Keeps nested n before before R p) (hnil : R [] [])
    (happend : ∀ left right v w, R left v → R right w → R (left ++ right) (v ++ w))
    (bound : List Char) (k : Context) (c : Cursor) (hstands : Stands before k c) :
    (∃ brackets k',
      Covers k c brackets k' (repeated (fun c => p.matched? nested (skipLayout c)) bound c).2
        ∧ Stands before k' (repeated (fun c => p.matched? nested (skipLayout c)) bound c).2
        ∧ R (repeated (fun c => p.matched? nested (skipLayout c)) bound c).1 brackets
        ∧ Rises 0 brackets)
      ∧ ∀ d ∈ askedAgain (fun c => p.matched? nested (skipLayout c))
          (fun c => p.asks nested (skipLayout c)) bound c,
        ∃ brackets k', Covers k c brackets k' d ∧ Meets true k' d ∧ Rises n brackets := by
  induction bound generalizing k c with
  | nil => exact ⟨⟨[], k, .refl k c, hstands, hnil, rises_nil⟩, by rintro d ⟨⟩⟩
  | cons _ bound ih =>
      obtain ⟨_, hskip, hmeets⟩ := hstands.skipLayout
      rw [repeated_cons, askedAgain]
      have hasked : ∀ d ∈ p.asks nested (skipLayout c),
          ∃ brackets k', Covers k c brackets k' d ∧ Meets true k' d ∧ Rises n brackets := by
        intro d hd
        obtain ⟨w, k', hcovers, hmeets', hrises⟩ := hp.asked _ _ d hmeets hd
        exact ⟨w, k', hskip.trans hcovers, hmeets', hrises⟩
      rcases hitem : p.matched? nested (skipLayout c) with _ | ⟨trees, next⟩
      · -- the repetition ends in front of the layout, though the attempt was made behind it
        refine ⟨⟨[], k, .refl k c, hstands, hnil, rises_nil⟩, fun d hd => ?_⟩
        rw [List.append_nil] at hd
        exact hasked d hd
      · obtain ⟨v, _, hcovers, hstands', hv, hrises⟩ := hp.matched _ _ trees next hmeets hitem
        obtain ⟨⟨w, k', hcovers', hstands'', hw, hrises'⟩, hmore⟩ := ih _ next hstands'
        have hfirst := hskip.trans hcovers
        refine ⟨⟨v ++ w, k', hfirst.trans hcovers', hstands'', happend _ _ _ _ hv hw,
          hrises.append hrises'⟩, fun d hd => ?_⟩
        rcases List.mem_append.mp hd with hd | hd
        · exact hasked d hd
        · obtain ⟨u, k'', hcovers'', hmeets', hrises''⟩ := hmore d hd
          have hlevels := hrises.append hrises''
          rw [Nat.zero_add] at hlevels
          exact ⟨v ++ u, k'', hfirst.trans hcovers'', hmeets', hlevels⟩

/-- **Repetitions.** -/
theorem Keeps.many (hp : Keeps nested n before before R p) (hnil : R [] [])
    (happend : ∀ left right v w, R left v → R right w → R (left ++ right) (v ++ w)) :
    Keeps nested n before before R (.many p) where
  matched k c trees next hmeets hmatch := by
    rcases matched?_many_eq_some_iff.mp hmatch with
      ⟨-, rfl, rfl⟩ | ⟨left, between, right, hitem, hagain, rfl⟩
    · exact ⟨[], k, .refl k next, hmeets.toStands, hnil, rises_nil⟩
    · obtain ⟨v, _, hcovers, hstands, hv, hrises⟩ := hp.matched k c left between hmeets hitem
      obtain ⟨⟨w, k', hcovers', hstands', hw, hrises'⟩, -⟩ :=
        -- the items behind the first are kept as it is
        hp.repeated hnil happend c.rest _ between hstands
      rw [hagain] at hcovers' hstands' hw
      exact ⟨v ++ w, k', hcovers.trans hcovers', hstands', happend _ _ _ _ hv hw,
        hrises.append hrises'⟩
  asked k c d hmeets hd := by
    rcases mem_asks_many_iff.mp hd with hd | ⟨left, between, hitem, hd⟩
    · exact hp.asked k c d hmeets hd
    · obtain ⟨v, _, hcovers, hstands, -, hrises⟩ := hp.matched k c left between hmeets hitem
      obtain ⟨w, k', hcovers', hmeets', hrises'⟩ :=
        (hp.repeated hnil happend c.rest _ between hstands).2 d hd
      have hlevels := hrises.append hrises'
      rw [Nat.zero_add] at hlevels
      exact ⟨v ++ w, k', hcovers.trans hcovers', hmeets', hlevels⟩

/-- **Rules.** A rule makes a node of its body, which may have brackets of its own. -/
theorem Keeps.rule {name : Rule} (h : Keeps nested n before after R body)
    (hspells : ∀ span ts w, R ts w → S [.node name span ts] w) :
    Keeps nested n before after S (.rule name body) where
  matched k c trees next hmeets hmatch := by
    obtain ⟨inner, hbody, rfl⟩ := matched?_rule_eq_some_iff.mp hmatch
    obtain ⟨w, k', hcovers, hstands, hw, hrises⟩ := h.matched k c inner next hmeets hbody
    exact ⟨w, k', hcovers, hstands, hspells _ _ _ hw, hrises⟩
  asked := h.asked

/-- What stands in brackets is one level up. -/
theorem Keeps.enclosed {first last : Char} (hfirst : Brackets.isOpening first = true)
    (hlast : Brackets.isClosing last = true) (h : Keeps nested 0 true false R body)
    (hspells : ∀ ts w, R ts w → S ts (first :: w ++ [last])) :
    Keeps nested 1 false true S (parts (mark first) [body, mark last]) := by
  -- the beginning is common to both halves: past the first bracket, in front of the body
  have hopen := Brackets.rise_of_isOpening hfirst
  have hclose := Brackets.rise_of_isClosing hlast
  have hbegin : ∀ k c trees next, Meets false k c →
      (mark first).matched? nested c = some (trees, next) →
      trees = [] ∧ ∃ k', Covers k c [first] k' (skipLayout next) ∧
        Meets true k' (skipLayout next) := by
    intro k c trees next hmeets hmatch
    obtain ⟨rfl, rest, hrest, rfl⟩ := matched?_symbol_eq_some_iff.mp hmatch
    obtain ⟨hcovers, hstands⟩ := hmeets.past_bracket (Brackets.isBracket_of_isOpening hfirst) hrest
    obtain ⟨k', hskip, hmeets'⟩ := hstands.skipLayout
    exact ⟨rfl, k', hcovers.trans hskip, hmeets'⟩
  constructor
  · intro k c trees next hmeets hmatch
    obtain ⟨none, opened, right, hmark, hright, rfl⟩ := matched?_seq_eq_some_iff.mp hmatch
    obtain ⟨inner, ended, none', hbody, hend, rfl⟩ := matched?_seq_eq_some_iff.mp hright
    obtain ⟨rfl, _, hcovers, hmeets'⟩ := hbegin k c none opened hmeets hmark
    obtain ⟨w, _, hinside, hstands, hw, hrises⟩ := h.matched _ _ inner ended hmeets' hbody
    obtain ⟨_, hskip, hmeets''⟩ := hstands.skipLayout
    obtain ⟨rfl, rest, hrest, rfl⟩ := matched?_symbol_eq_some_iff.mp hend
    obtain ⟨hcovers', hstands'⟩ :=
      hmeets''.past_bracket (Brackets.isBracket_of_isClosing hlast) hrest
    have hall := ((hcovers.trans hinside).trans hskip).trans hcovers'
    rw [List.append_nil] at hall
    refine ⟨_, _, hall, hstands', ?_, fun depth => ?_⟩
    · rw [List.nil_append, List.append_nil]
      exact hspells _ _ hw
    · -- up with the first bracket, back down with the last, level in between
      show Brackets.level depth ([first] ++ w ++ [last]) = depth + 0
      rw [Brackets.level_append, Brackets.level_append]
      show Brackets.rise (Brackets.level (Brackets.rise depth first) w) last = depth + 0
      rw [hopen, hrises, hclose]
      omega
  · intro k c d hmeets hd
    rcases mem_asks_seq_iff.mp hd with hd | ⟨none, opened, hmark, hd⟩
    · cases hd
    · obtain ⟨-, _, hcovers, hmeets'⟩ := hbegin k c none opened hmeets hmark
      rcases mem_asks_seq_iff.mp hd with hd | ⟨_, _, -, hd⟩
      · obtain ⟨w, k', hcovers', hmeets'', hrises⟩ := h.asked _ _ d hmeets' hd
        refine ⟨[first] ++ w, k', hcovers.trans hcovers', hmeets'', fun depth => ?_⟩
        rw [Brackets.level_append]
        show Brackets.level (Brackets.rise depth first) w = depth + 1
        rw [hopen, hrises]
      · cases hd

end

end Phrase

end RowFilter.Grammar
