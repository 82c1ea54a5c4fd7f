/-
Layout between tokens.

A source text is taken apart into its tokens, each with all the layout that stands behind it
(`LaidOut`). Layout in front of a token is skipped as a whole, because no more of it stands there
(`Settled`): whether a token is settled shows in its first two characters, and whether a word ends
shows in the one behind it. A blank in front of the next token changes neither for the worse. So if
gaps are replaced by others that begin with a blank, the text that comes out is taken apart into
the same tokens again (`LaidOut.relaid`).
-/
import Mathlib.Data.List.Forall2
import RowFilter.Proofs.Grammar.Lexemes

set_option autoImplicit false

namespace RowFilter.Grammar

variable {c : Char} {text rest gap gap' w front front' source first first' : List Char}

/-! ## Runs of blanks and comments -/

/-- The blanks of the language. -/
def isBlank (c : Char) : Bool := c == ' ' || c == '\t' || c == '\r' || c == '\n'

/-- Blanks and comments, each comment with the end of its line. -/
inductive IsLayout : List Char → Prop
  | nil : IsLayout []
  | blank {c : Char} {run : List Char} (hc : isBlank c = true) (h : IsLayout run) :
      IsLayout (c :: run)
  | comment {body run : List Char} (hbody : '\n' ∉ body) (h : IsLayout run) :
      IsLayout ('/' :: '/' :: (body ++ '\n' :: run))

/-- A run of blanks and comments that begins with a blank. -/
structure Separates (run : List Char) : Prop where
  layout : IsLayout run
  blank : ∃ c ∈ run.head?, isBlank c = true

/-- No layout stands at the front of the text. -/
def Settled (text : List Char) : Prop := (Pattern.alt blank comment).split? text = none

theorem settled_of_skipped (h : layout.split? text = some (gap, rest)) : Settled rest :=
  Pattern.split?_many_stops rfl h

theorem split?_item_blank (hc : isBlank c = true) (rest : List Char) :
    (Pattern.alt blank comment).split? (c :: rest) = some ([c], rest) := by
  have hblank : blank.split? (c :: rest) = some ([c], rest) :=
    Pattern.split?_one_eq_some_iff.mpr ⟨c, hc, rfl, rfl⟩
  exact Pattern.split?_alt_eq_some_iff.mpr (.inl hblank)

/-- A comment is taken up to the end of its line. -/
theorem split?_item_comment {body : List Char} (hbody : '\n' ∉ body) (rest : List Char) :
    (Pattern.alt blank comment).split? ('/' :: '/' :: (body ++ '\n' :: rest))
      = some ('/' :: '/' :: body, '\n' :: rest) := by
  have hline : (Pattern.many (.noneOf ['\n'])).split? (body ++ '\n' :: rest)
      = some (body, '\n' :: rest) := by
    refine split?_many_run (fun d hd => ?_) (by rintro _ ⟨⟩; rfl)
    have hne : d ≠ '\n' := fun h => hbody (h ▸ hd)
    simp [hne]
  refine Pattern.split?_alt_eq_some_iff.mpr (.inr ⟨rfl, ?_⟩)
  exact Pattern.split?_seq_eq_some_iff.mpr
    ⟨['/', '/'], body ++ '\n' :: rest, body, rfl, hline, rfl⟩

/-- A run is skipped as a whole in front of a text that is settled. -/
theorem IsLayout.skipped (h : IsLayout gap) (hrest : Settled rest) :
    layout.split? (gap ++ rest) = some (gap, rest) := by
  induction h with
  | nil => exact Pattern.split?_many_of_none hrest
  | blank hc _ ih => exact Pattern.split?_many_of_some rfl (split?_item_blank hc _) ih
  | @comment body run hbody _ ih =>
      have hline : layout.split? ('\n' :: (run ++ rest)) = some ('\n' :: run, rest) :=
        Pattern.split?_many_of_some rfl (split?_item_blank rfl _) ih
      have hall : layout.split? ('/' :: '/' :: (body ++ '\n' :: (run ++ rest)))
          = some (('/' :: '/' :: body) ++ '\n' :: run, rest) :=
        Pattern.split?_many_of_some rfl (split?_item_comment hbody _) hline
      simpa using hall

/-- Behind a blank at the front of a run there is a run again. -/
theorem IsLayout.tail (h : IsLayout ('\n' :: gap)) : IsLayout gap := by
  cases h with
  | blank _ h => exact h

/-- What is skipped in front of something is a run: a comment there ends with its line. -/
theorem isLayout_of_skipped (h : layout.split? text = some (gap, rest)) (hrest : rest ≠ []) :
    IsLayout gap := by
  have hsettled := settled_of_skipped h
  refine (Pattern.split?_many_induction (motive := fun text gap last => gap ++ last = text ∧
    (last = rest → IsLayout gap)) h (fun text => ⟨rfl, fun _ => .nil⟩) ?_).2 rfl
  rintro text taken middle more last hitem ⟨hmiddle, hmore⟩
  have htext := Pattern.split?_append hitem
  refine ⟨by rw [List.append_assoc, hmiddle, htext], fun hlast => ?_⟩
  rcases Pattern.split?_alt_eq_some_iff.mp hitem with hblank | ⟨-, hcomment⟩
  · obtain ⟨c, hc, rfl, -⟩ := Pattern.split?_one_eq_some_iff.mp hblank
    exact .blank hc (hmore hlast)
  · obtain ⟨left, line, body, hslashes, hbody, rfl⟩ := Pattern.split?_seq_eq_some_iff.mp hcomment
    obtain ⟨rfl, -⟩ := Pattern.split?_exactly_eq_some_iff.mp hslashes
    have havoids : (Pattern.many (.noneOf ['\n'])).avoids ['\n'] = true := rfl
    have hnewline : '\n' ∉ body := fun hmem =>
      Pattern.not_mem_of_avoids havoids hbody '\n' hmem List.mem_cons_self
    have hstops := Pattern.split?_many_stops rfl hbody
    rw [← hmiddle, hlast] at hstops
    cases more with
    | nil =>
        -- then the end of the line would stand at the front of the rest
        cases rest with
        | nil => exact absurd rfl hrest
        | cons d rest =>
            obtain rfl : d = '\n' := by
              by_contra hne
              simp [Pattern.noneOf, Pattern.split?_one_cons, hne] at hstops
            cases hsettled
    | cons d more =>
        obtain rfl : d = '\n' := by
          by_contra hne
          simp [Pattern.noneOf, Pattern.split?_one_cons, hne] at hstops
        exact .comment hnewline (hmore hlast).tail

/-- A text is settled if it begins neither with a blank nor with two slashes. -/
theorem settled_iff : Settled text ↔
    (∀ c ∈ text.head?, isBlank c = false) ∧ ¬ ['/', '/'] <+: text := by
  constructor
  · intro h
    refine ⟨fun c hc => Bool.eq_false_iff.mpr fun hblank => ?_, ?_⟩
    · obtain ⟨rest, rfl⟩ := List.head?_eq_some_iff.mp hc
      rw [Settled, split?_item_blank hblank] at h
      cases h
    · rintro ⟨rest, rfl⟩
      cases h
  · rintro ⟨hblank, hslashes⟩
    rw [Settled, Pattern.split?_alt]
    have hnoblank : blank.split? text = none := by
      cases text with
      | nil => rfl
      | cons c rest => exact if_neg (Bool.eq_false_iff.mp (hblank c rfl))
    -- a comment begins with two slashes, and nothing else is layout
    have hnocomment : (Pattern.exactly ['/', '/']).split? text = none := by
      rw [Option.eq_none_iff_forall_ne_some]
      rintro ⟨taken, rest⟩ hsplit
      obtain ⟨-, rfl⟩ := Pattern.split?_exactly_eq_some_iff.mp hsplit
      exact hslashes (List.prefix_append _ rest)
    rw [hnoblank, comment, Pattern.split?_seq, hnocomment]

/-! ## Gaps that are replaced -/

/-- A gap is kept, or a run that begins with a blank stands in its place. -/
def Relaid (gap gap' : List Char) : Prop := gap' = gap ∨ Separates gap'

/-- Two texts begin with the same character, or the second one with a blank. -/
def Loosened (front front' : List Char) : Prop :=
  front'.head? = front.head? ∨ ∃ c ∈ front'.head?, isBlank c = true

/-- Layout that is skipped as a whole is skipped as a whole when it is relaid, in front of any other
text that is settled. -/
theorem Relaid.skipped {rest' : List Char} (h : Relaid gap gap')
    (hskipped : layout.split? (gap ++ rest) = some (gap, rest)) (hrest : Settled rest')
    (hnil : rest = [] → rest' = []) : layout.split? (gap' ++ rest') = some (gap', rest') := by
  rcases h with rfl | hseparates
  · -- at the end of the text alone a comment may go without the end of its line
    by_cases hend : rest = []
    · rwa [hnil hend, ← hend]
    · exact (isLayout_of_skipped hskipped hend).skipped hrest
  · exact hseparates.layout.skipped hrest

/-- What begins behind a gap that is relaid is loosened. -/
theorem Relaid.loosened {rest' : List Char} (h : Relaid gap gap')
    (hhead : rest'.head? = rest.head?) :
    Loosened (gap ++ rest) (gap' ++ rest') := by
  rcases h with rfl | hseparates
  · refine .inl ?_
    rw [List.head?_append, List.head?_append, hhead]
  · obtain ⟨c, hc, hblank⟩ := hseparates.blank
    obtain ⟨more, rfl⟩ := List.head?_eq_some_iff.mp hc
    exact .inr ⟨c, rfl, hblank⟩

/-- No blank belongs to a word. -/
theorem isWordChar_of_isBlank (h : isBlank c = true) : isWordChar c = false := by
  simp only [isBlank, Bool.or_eq_true, beq_iff_eq] at h
  rcases h with ((rfl | rfl) | rfl) | rfl <;> rfl

/-- A word that ends still ends. -/
theorem Loosened.ends (h : Loosened front front') (hends : Ends w front) : Ends w front' := by
  intro hword c hc
  rcases h with hhead | ⟨d, hd, hblank⟩
  · exact hends hword c (hhead ▸ hc)
  · obtain rfl : d = c := Option.some.inj (hd.symm.trans hc)
    exact isWordChar_of_isBlank hblank

/-- In front of a token that is settled there is still no layout. -/
theorem Loosened.settled (h : Loosened front front') (hw : w ≠ [])
    (hsettled : Settled (w ++ front)) : Settled (w ++ front') := by
  obtain ⟨hblank, hslashes⟩ := settled_iff.mp hsettled
  obtain ⟨c, w, rfl⟩ := List.exists_cons_of_ne_nil hw
  refine settled_iff.mpr ⟨hblank, fun hprefix => hslashes ?_⟩
  cases w with
  | cons d w =>
      -- both slashes would belong to the token
      obtain ⟨rest, htext⟩ := hprefix
      obtain ⟨rfl, hbehind⟩ := List.cons.inj htext
      obtain ⟨rfl, -⟩ := List.cons.inj hbehind
      exact ⟨w ++ front, rfl⟩
  | nil =>
      -- the second one would follow the token
      obtain ⟨rest, htext⟩ := hprefix
      obtain ⟨rfl, hbehind⟩ := List.cons.inj htext
      obtain rfl : '/' :: rest = front' := hbehind
      rcases h with hhead | ⟨d, hd, hblank⟩
      · obtain ⟨more, rfl⟩ := List.head?_eq_some_iff.mp hhead.symm
        exact ⟨more, rfl⟩
      · obtain rfl : '/' = d := Option.some.inj hd
        cases hblank

/-! ## Lexemes -/

/-- A token as it stands in a text, with the layout behind it. -/
structure Lexeme where
  text : List Char
  gap : List Char

/-- The text that lexemes make up. -/
def spelled : List Lexeme → List Char
  | [] => []
  | l :: more => l.text ++ (l.gap ++ spelled more)

/-- Each token ends where its gap begins, and the gap is all the layout that stands there. -/
inductive Fits : List Lexeme → Prop
  | nil : Fits []
  | cons {l : Lexeme} {more : List Lexeme} (htext : l.text ≠ [])
      (hends : Ends l.text (l.gap ++ spelled more))
      (hgap : layout.split? (l.gap ++ spelled more) = some (l.gap, spelled more)) (h : Fits more) :
      Fits (l :: more)

/-- The same token, its gap relaid. -/
structure Lexeme.Relaid (l l' : Lexeme) : Prop where
  text_eq : l'.text = l.text
  gap : Grammar.Relaid l.gap l'.gap

open List (Forall₂)

variable {lexemes lexemes' : List Lexeme} {tokens : List (List Char)} {trees : List Tree}

/-- Lexemes stand one after the other in the text that they make up. -/
theorem Fits.spaced (h : Fits lexemes) : Spaced (lexemes.map Lexeme.text) (spelled lexemes) [] := by
  induction h with
  | nil => exact .nil []
  | @cons l more htext hends hgap _ ih =>
      have hrest : unlaid (l.gap ++ spelled more) = spelled more := by
        rw [unlaid, hgap, Option.getD_some]
      exact .cons htext hends (by rwa [hrest])

/-- Layout is always taken, though perhaps none is there. -/
theorem exists_skipped (text : List Char) :
    ∃ gap, layout.split? text = some (gap, unlaid text) := by
  rw [unlaid]
  rcases h : layout.split? text with _ | ⟨gap, rest⟩
  · cases h
  · exact ⟨gap, rfl⟩

/-- Tokens that stand one after the other are lexemes with the layout between them. -/
theorem Spaced.exists_fits {tail : List Char} (h : Spaced tokens text tail) (htail : tail = []) :
    ∃ lexemes, lexemes.map Lexeme.text = tokens ∧ spelled lexemes = text ∧ Fits lexemes := by
  induction h with
  | nil => exact ⟨[], rfl, htail.symm, .nil⟩
  | @cons w rest _ _ hw hends _ ih =>
      obtain ⟨lexemes, rfl, hspelled, hfits⟩ := ih htail
      obtain ⟨gap, hgap⟩ := exists_skipped rest
      have hrest : gap ++ unlaid rest = rest := Pattern.split?_append hgap
      refine ⟨⟨w, gap⟩ :: lexemes, rfl, ?_, ?_⟩
      · rw [spelled, hspelled, hrest]
      · refine .cons hw ?_ ?_ hfits
        · rwa [hspelled, hrest]
        · rw [hspelled, hrest, hgap]

/-- Relaying changes gaps only. -/
theorem texts_of_relaid (h : Forall₂ Lexeme.Relaid lexemes lexemes') :
    lexemes'.map Lexeme.text = lexemes.map Lexeme.text := by
  induction h with
  | nil => rfl
  | cons h _ ih => rw [List.map_cons, List.map_cons, h.text_eq, ih]

/-- Other layout between the lexemes does not change the first character. -/
theorem head?_spelled (hfits : Fits lexemes) (h : Forall₂ Lexeme.Relaid lexemes lexemes') :
    (spelled lexemes').head? = (spelled lexemes).head? := by
  cases h with
  | nil => rfl
  | cons h _ =>
      cases hfits with
      | cons htext =>
          rw [spelled, spelled, h.text_eq, List.head?_append_of_ne_nil _ htext,
            List.head?_append_of_ne_nil _ htext]

/-- What is relaid fits again, and no layout stands in front of it if none has stood there. -/
theorem Fits.relaid (hfits : Fits lexemes) (h : Forall₂ Lexeme.Relaid lexemes lexemes') :
    Fits lexemes' ∧ (Settled (spelled lexemes) → Settled (spelled lexemes')) := by
  -- from the end, since what is skipped in front of a token depends on the text behind it
  induction h with
  | nil => exact ⟨.nil, id⟩
  | @cons l l' more more' h hmore ih =>
      cases hfits with
      | cons htext hends hgap hfits =>
          obtain ⟨hfits', hsettled'⟩ := ih hfits
          have hhead := head?_spelled hfits hmore
          have hloosened := h.gap.loosened hhead
          have hend : spelled more = [] → spelled more' = [] := fun hnil =>
            List.head?_eq_none_iff.mp (hhead.trans (List.head?_eq_none_iff.mpr hnil))
          rw [← h.text_eq] at htext hends
          refine ⟨.cons htext (hloosened.ends hends) ?_ hfits', fun hsettled => ?_⟩
          · exact h.gap.skipped hgap (hsettled' (settled_of_skipped hgap)) hend
          · rw [spelled, ← h.text_eq] at hsettled
            exact hloosened.settled htext hsettled

/-! ## Sources -/

/-- **A source taken apart.** It is made of layout at its front and of the tokens of a derivation,
each with the layout behind it. -/
structure LaidOut (source first : List Char) (lexemes : List Lexeme) (trees : List Tree) :
    Prop where
  first : layout.split? source = some (first, spelled lexemes)
  fits : Fits lexemes
  derives : Phrase.Derives .expression (lexemes.map Lexeme.text) trees

/-- A program can be taken apart. -/
theorem exists_laidOut {tree : Tree} (h : readProgram source = .ok tree) :
    ∃ first lexemes trees, LaidOut source first lexemes trees := by
  obtain ⟨tokens, trees, hderives, hspaced⟩ :=
    Phrase.derives_of_readProgram Phrase.lexical_expressionBody h
  obtain ⟨lexemes, rfl, hspelled, hfits⟩ := hspaced.exists_fits rfl
  obtain ⟨first, hfirst⟩ := exists_skipped source
  exact ⟨first, lexemes, trees, by rw [hspelled, hfirst], hfits, hderives⟩

/-- **Gaps can be replaced.** With other gaps a source is taken apart into the same tokens. -/
theorem LaidOut.relaid (h : LaidOut source first lexemes trees) (hfirst : Relaid first first')
    (hlexemes : Forall₂ Lexeme.Relaid lexemes lexemes') :
    LaidOut (first' ++ spelled lexemes') first' lexemes' trees := by
  obtain ⟨hfits, hsettled⟩ := h.fits.relaid hlexemes
  have hhead := head?_spelled h.fits hlexemes
  have hsource := h.first
  rw [← Pattern.split?_append h.first] at hsource
  refine ⟨?_, hfits, ?_⟩
  · refine hfirst.skipped hsource (hsettled (settled_of_skipped h.first)) fun hnil => ?_
    exact List.head?_eq_none_iff.mp (hhead.trans (List.head?_eq_none_iff.mpr hnil))
  · rw [texts_of_relaid hlexemes]
    exact h.derives

end RowFilter.Grammar
