/-
Places read off a text, and the place of a refusal.

The place behind a text is given by counting (`Position.start_advanceBy`): the line feeds of the
text, and the characters behind the last of them. The scan of brackets counts as spans do in
code, in literals and over comments. It knows no line behind an escape: a line feed that a
backslash skips is one more column to it. So it counts in the text that has a blank in place of
each such line feed (`Context.unbroken`), and the place that it reports is the one of spans
exactly if there is none in front of the bracket (`scan_eq_error`).
-/
import Mathlib.Data.List.DropRight
import RowFilter.Source.Span
import RowFilter.Proofs.Source.Brackets

set_option autoImplicit false

namespace RowFilter

/-! ## Places by counting -/

/-- The number of characters behind the last line feed of a text. -/
def sinceLineFeed (text : List Char) : Nat := (text.rtakeWhile (· ≠ '\n')).length

/-- One more character is one more column, or the beginning of a line. -/
theorem sinceLineFeed_concat (text : List Char) (c : Char) :
    sinceLineFeed (text ++ [c]) = if c = '\n' then 0 else sinceLineFeed text + 1 := by
  rw [sinceLineFeed, List.rtakeWhile_concat]
  by_cases h : c = '\n' <;> simp [h, sinceLineFeed]

theorem count_lineFeed_concat (text : List Char) (c : Char) :
    (text ++ [c]).count '\n' = if c = '\n' then text.count '\n' + 1 else text.count '\n' := by
  rw [List.count_append, List.count_singleton]
  by_cases h : c = '\n' <;> simp [h]

namespace Position

theorem advanceBy_append (p : Position) (first second : List Char) :
    p.advanceBy (first ++ second) = (p.advanceBy first).advanceBy second := List.foldl_append

/-- **The place behind a text.** Its bytes, the line feeds in it, and the characters behind the
last line feed. -/
theorem start_advanceBy (text : List Char) :
    start.advanceBy text =
      ⟨(String.ofList text).utf8ByteSize, 1 + text.count '\n', 1 + sinceLineFeed text⟩ := by
  induction text using List.reverseRecOn with
  | nil => rfl
  | append_singleton text c ih =>
      have hsize : (String.ofList (text ++ [c])).utf8ByteSize
          = (String.ofList text).utf8ByteSize + c.utf8Size := by simp
      rw [advanceBy_append, ih, hsize, sinceLineFeed_concat, count_lineFeed_concat]
      by_cases h : c = '\n' <;> simp [advanceBy, advance, h, Nat.add_assoc]

end Position

namespace Brackets

/-! ## Line feeds that escapes skip -/

namespace Context

/-- How the scan counts a character: behind a backslash even a line feed is a column. -/
def shown (k : Context) (c : Char) : Char :=
  match k.mode with
  | .escaped _ => if c = '\n' then ' ' else c
  | .code | .slash | .comment | .quoted _ _ => c

/-- A text with a blank in place of every line feed that an escape skips. -/
def unbroken : Context → List Char → List Char
  | _, [] => []
  | k, c :: rest => k.shown c :: (k.next c).unbroken rest

/-- What is shown of two texts is what is shown of the second after the first. -/
theorem unbroken_append (k : Context) (first second : List Char) :
    k.unbroken (first ++ second) = k.unbroken first ++ (k.after first).unbroken second := by
  induction first generalizing k with
  | nil => rfl
  | cons c rest ih => rw [List.cons_append, unbroken, ih, unbroken, after_cons, List.cons_append]

/-- Where a text has a line feed that an escape skips. -/
def SkipsLineFeed (k : Context) (text : List Char) : Prop :=
  ∃ first rest delimiter, text = first ++ '\n' :: rest ∧ (k.after first).mode = .escaped delimiter

/-- Only line feeds are shown as something else. -/
theorem shown_of_ne {k : Context} {c : Char} (h : c ≠ '\n') : k.shown c = c := by
  unfold shown
  split
  · exact if_neg h
  all_goals rfl

/-- A line feed behind a backslash is shown as a blank. -/
theorem shown_lineFeed_of_escaped {k : Context} {delimiter : Char}
    (h : k.mode = .escaped delimiter) : k.shown '\n' = ' ' := by
  rw [shown, h]
  rfl

/-- Elsewhere it is shown as it is. -/
theorem shown_lineFeed {k : Context} (h : ∀ delimiter, k.mode ≠ .escaped delimiter) :
    k.shown '\n' = '\n' := by
  unfold shown
  split
  · exact absurd ‹_› (h _)
  all_goals rfl

theorem SkipsLineFeed.cons {k : Context} {c : Char} {text : List Char}
    (h : (k.next c).SkipsLineFeed text) : k.SkipsLineFeed (c :: text) := by
  obtain ⟨first, rest, delimiter, rfl, hmode⟩ := h
  exact ⟨c :: first, rest, delimiter, rfl, hmode⟩

/-- A text without such line feeds is counted as it stands. -/
theorem unbroken_eq_self {k : Context} {text : List Char} (h : ¬ k.SkipsLineFeed text) :
    k.unbroken text = text := by
  induction text generalizing k with
  | nil => rfl
  | cons c rest ih =>
      rw [unbroken, ih fun hrest => h hrest.cons]
      congr 1
      by_cases hline : c = '\n'
      · subst hline
        exact shown_lineFeed fun delimiter hmode => h ⟨[], rest, delimiter, rfl, hmode⟩
      · exact shown_of_ne hline

/-- No line is shown that is not there. -/
theorem count_unbroken_le (k : Context) (text : List Char) :
    (k.unbroken text).count '\n' ≤ text.count '\n' := by
  induction text generalizing k with
  | nil => exact Nat.le_refl 0
  | cons c rest ih =>
      rw [unbroken, List.count_cons, List.count_cons]
      have hshown : (k.shown c == '\n') = true → (c == '\n') = true := by
        intro h
        by_contra hc
        rw [shown_of_ne (by simpa using hc)] at h
        exact hc h
      have := ih (k.next c)
      grind

/-- Every skipped line feed is one line less. -/
theorem count_unbroken_lt {k : Context} {text : List Char} (h : k.SkipsLineFeed text) :
    (k.unbroken text).count '\n' < text.count '\n' := by
  obtain ⟨first, rest, delimiter, rfl, hmode⟩ := h
  have hfirst := count_unbroken_le k first
  have hrest := count_unbroken_le ((k.after first).next '\n') rest
  rw [unbroken_append, unbroken, shown_lineFeed_of_escaped hmode, List.count_append,
    List.count_append, List.count_cons_self, List.count_cons_of_ne (by decide)]
  omega

end Context

/-! ## The place of a refusal -/

/-- What a scan knows behind a text: how the next character is to be read, the level, and the
place, whose column is wrong only inside of a comment. -/
structure State.Behind (s : State) (text : List Char) : Prop where
  context_eq : s.context = Context.start.after text
  depth_eq : s.depth = level 0 (Context.start.seen text)
  deepest_le : deepest (Context.start.seen text) ≤ maxNesting
  line_eq : s.line = 1 + (Context.start.unbroken text).count '\n'
  column_eq : s.mode ≠ .comment → s.column = sinceLineFeed (Context.start.unbroken text)

/-- The start stands behind nothing. -/
theorem State.behind_start : State.start.Behind [] :=
  ⟨rfl, rfl, Nat.zero_le _, rfl, fun _ => rfl⟩

/-- The line is counted at a line feed. -/
theorem State.count_line (s : State) (c : Char) :
    (s.count c).line = if c = '\n' then s.line + 1 else s.line := by
  unfold State.count
  split <;> rfl

/-- The column is counted from the last one. -/
theorem State.count_column (s : State) (c : Char) :
    (s.count c).column = if c = '\n' then 0 else s.column + 1 := by
  unfold State.count
  split <;> rfl

/-- Reading code does not move the place, which has been counted before. -/
theorem State.code_place {s t : State} {c : Char} (h : s.code c = .ok t) :
    t.line = s.line ∧ t.column = s.column := by
  unfold State.code at h
  dsimp only at h
  split_ifs at h <;> cases h <;> exact ⟨rfl, rfl⟩

/-- Code refuses nothing but a bracket that opens a level too many. -/
theorem State.code_eq_error {s : State} {c : Char} {e : TooDeep} (h : s.code c = .error e) :
    isOpening c = true ∧ maxNesting ≤ s.depth ∧ e = ⟨s.line, s.column⟩ := by
  unfold State.code at h
  dsimp only at h
  split_ifs at h with _ _ hopen hdeep
  cases h
  exact ⟨by simpa [isOpening] using hopen, hdeep, rfl⟩

/-- A step counts the character as it is shown. Only the column inside of a comment is left
behind, until the line feed that ends the comment sets it again. -/
structure State.Moves (s t : State) (shown : Char) : Prop where
  line_eq : t.line = (s.count shown).line
  column_eq : t.mode ≠ .comment → t.column = (s.count shown).column
  lineFeed_of_comment : s.mode = .comment → t.mode ≠ .comment → shown = '\n'

/-- A character of code moves the place as its line feeds tell. -/
theorem State.moves_of_code {s t : State} {c : Char} (h : (s.count c).code c = .ok t)
    (hline : s.mode = .comment → c = '\n') : s.Moves t c :=
  ⟨(State.code_place h).1, fun _ => (State.code_place h).2, fun hcomment _ => hline hcomment⟩

/-- **Steps.** Every step moves the place by the character that is shown. -/
theorem State.step_moves {s t : State} {c : Char} (h : s.step c = .ok t) :
    s.Moves t (s.context.shown c) := by
  rcases s with ⟨mode, depth, line, column, rawMark⟩
  cases mode with
  | code => exact State.moves_of_code h (by rintro ⟨⟩)
  | slash =>
      by_cases hslash : c = '/'
      · subst hslash
        obtain rfl := Except.ok.inj h
        exact ⟨rfl, fun hcode => absurd rfl hcode, by rintro ⟨⟩⟩
      · exact State.moves_of_code ((if_neg hslash).symm.trans h) (by rintro ⟨⟩)
  -- in a comment the column is not counted, which the line feed at its end makes good
  | comment =>
      by_cases hline : c = '\n'
      · exact State.moves_of_code ((if_pos hline).symm.trans h) fun _ => hline
      · obtain rfl := Except.ok.inj ((if_neg hline).symm.trans h)
        refine ⟨?_, fun hcode => absurd rfl hcode, fun _ hcode => absurd rfl hcode⟩
        exact ((State.count_line _ c).trans (if_neg hline)).symm
  | quoted delimiter raw =>
      rw [State.step] at h
      dsimp only at h
      split_ifs at h <;> cases h <;> exact ⟨rfl, fun _ => rfl, by rintro ⟨⟩⟩
  | escaped delimiter =>
      obtain rfl := Except.ok.inj h
      -- the character behind a backslash is passed as part of the line, also if it is a line feed
      have hshown : (⟨.escaped delimiter, rawMark⟩ : Context).shown c ≠ '\n' := by
        unfold Context.shown
        dsimp only
        split
        · decide
        · assumption
      refine ⟨?_, fun _ => ?_, by rintro ⟨⟩⟩
      · rw [State.count_line]
        exact (if_neg hshown).symm
      · rw [State.count_column]
        exact (if_neg hshown).symm

theorem Context.unbroken_concat (k : Context) (text : List Char) (c : Char) :
    k.unbroken (text ++ [c]) = k.unbroken text ++ [(k.after text).shown c] :=
  k.unbroken_append text [c]

theorem peak_concat (depth : Nat) (brackets : List Char) (c : Char) :
    peak depth (brackets ++ [c]) = max (peak depth brackets) (level depth (brackets ++ [c])) := by
  have hlevel := level_le_peak depth brackets
  rw [peak_append, level_append]
  show max _ (max (level depth brackets) (rise (level depth brackets) c)) = _
  rw [← Nat.max_assoc, Nat.max_eq_left hlevel]
  rfl

/-- A step keeps what the scan knows. -/
theorem State.Behind.step {s t : State} {text : List Char} {c : Char} (hs : s.Behind text)
    (hsteps : s.Steps c t) : t.Behind (text ++ [c]) := by
  have hmoves := State.step_moves hsteps.step_eq
  have hdepth := hsteps.depth_eq
  have hle := hsteps.depth_le
  rw [State.levelAfter, hs.context_eq, hs.depth_eq] at hdepth
  rw [hs.context_eq] at hmoves
  -- the depth is the level of what has been seen, which the bracket raises or lowers
  have hbrackets : t.depth = level 0 (Context.start.seen (text ++ [c]))
      ∧ deepest (Context.start.seen (text ++ [c])) ≤ maxNesting := by
    rw [Context.seen_append]
    rcases hcounts : (Context.start.after text).counts c with _ | _
    · rw [Context.seen_cons_of_not_counts hcounts, Context.seen, List.append_nil]
      rw [hcounts] at hdepth
      exact ⟨hdepth, hs.deepest_le⟩
    · rw [Context.seen_cons_of_counts hcounts, Context.seen]
      rw [if_pos hcounts] at hdepth
      have hlevel : t.depth = level 0 (Context.start.seen text ++ [c]) := by
        rw [hdepth, level_append]
        rfl
      refine ⟨hlevel, ?_⟩
      rw [deepest, peak_concat, ← hlevel]
      exact Nat.max_le.mpr ⟨hs.deepest_le, hle⟩
  refine ⟨?_, hbrackets.1, hbrackets.2, ?_, fun hcode => ?_⟩
  · -- then the three parts of the place: context, line and column
    rw [hsteps.context_eq, hs.context_eq, Context.after_append]
    rfl
  · rw [hmoves.line_eq, State.count_line, hs.line_eq, Context.unbroken_concat,
      count_lineFeed_concat]
    split <;> omega
  · rw [hmoves.column_eq hcode, State.count_column, Context.unbroken_concat, sinceLineFeed_concat]
    split
    · rfl
    · rw [hs.column_eq fun hcomment => ?_]
      exact absurd (hmoves.lineFeed_of_comment hcomment hcode) ‹_›

/-- A step fails at a bracket that opens a level too many, one column further on. -/
theorem State.step_eq_error {s : State} {c : Char} {e : TooDeep} (h : s.step c = .error e) :
    isOpening c = true ∧ s.context.counts c = true ∧ maxNesting ≤ s.depth ∧ s.mode ≠ .comment
      ∧ e = ⟨s.line, s.column + 1⟩ := by
  -- only an opening bracket in code is refused, in whatever mode the code begins
  have hcode : (s.count c).code c = .error e →
      isOpening c = true ∧ isBracket c = true ∧ maxNesting ≤ s.depth
        ∧ e = ⟨s.line, s.column + 1⟩ := by
    intro h
    obtain ⟨hopening, hdeep, he⟩ := State.code_eq_error h
    have hline : c ≠ '\n' := by
      rintro rfl
      exact absurd hopening (by decide)
    rw [State.count_line, State.count_column, if_neg hline, if_neg hline] at he
    rw [State.count_depth] at hdeep
    exact ⟨hopening, isBracket_of_isOpening hopening, hdeep, he⟩
  rcases s with ⟨mode, depth, line, column, rawMark⟩
  cases mode with
  | code =>
      obtain ⟨hopening, hbracket, hdeep, he⟩ := hcode h
      exact ⟨hopening, hbracket, hdeep, by rintro ⟨⟩, he⟩
  | slash =>
      by_cases hslash : c = '/'
      · cases (if_pos hslash).symm.trans h
      · obtain ⟨hopening, hbracket, hdeep, he⟩ := hcode ((if_neg hslash).symm.trans h)
        exact ⟨hopening, hbracket, hdeep, by rintro ⟨⟩, he⟩
  | comment =>
      by_cases hline : c = '\n'
      · -- the line feed that ends a comment is no bracket
        obtain ⟨hopening, -⟩ := hcode ((if_pos hline).symm.trans h)
        rw [hline] at hopening
        exact absurd hopening (by decide)
      · cases (if_neg hline).symm.trans h
  | quoted delimiter raw =>
      rw [State.step] at h
      dsimp only at h
      split_ifs at h
  | escaped delimiter => cases h

/-- What a refusal says of the text: where the first bracket stands that opens a level beyond the
deepest, and how its place has been counted. -/
structure Refused (text : List Char) (e : TooDeep) (before : List Char) (bracket : Char)
    (behind : List Char) : Prop where
  text_eq : text = before ++ bracket :: behind
  opens : isOpening bracket = true
  counts : (Context.start.after before).counts bracket = true
  level_eq : level 0 (Context.start.seen before) = maxNesting
  deepest_le : deepest (Context.start.seen before) ≤ maxNesting
  line_eq : e.line = 1 + (Context.start.unbroken before).count '\n'
  column_eq : e.column = 1 + sinceLineFeed (Context.start.unbroken before)

/-- What is refused stands behind a text that has been read. -/
theorem scanFrom_eq_error {s : State} {read text : List Char} {e : TooDeep} (hs : s.Behind read)
    (h : scanFrom s text = .error e) :
    ∃ before bracket behind, Refused (read ++ text) e before bracket behind := by
  induction text generalizing s read with
  | nil => cases h
  | cons c rest ih =>
      have hdepth : s.depth ≤ maxNesting := by
        rw [hs.depth_eq]
        exact (level_le_peak _ _).trans hs.deepest_le
      rw [scanFrom] at h
      rcases hstep : s.step c with e' | t
      · rw [hstep] at h
        obtain rfl := Except.error.inj h
        obtain ⟨hopening, hcounts, hdeep, hcode, rfl⟩ := State.step_eq_error hstep
        -- the step at hand is the one that fails, and the state tells where it stands
        refine ⟨read, c, rest, rfl, hopening, hs.context_eq ▸ hcounts, ?_, hs.deepest_le,
          hs.line_eq, ?_⟩
        · rw [← hs.depth_eq]
          exact Nat.le_antisymm hdepth hdeep
        · rw [Nat.add_comm, ← hs.column_eq hcode]
      · rw [hstep] at h
        rcases s.step_cases c hdepth with ⟨t', hsteps⟩ | ⟨-, e', he⟩
        · obtain rfl := Except.ok.inj (hstep.symm.trans hsteps.step_eq)
          -- or it is one further on
          obtain ⟨before, bracket, behind, hrefused⟩ := ih (hs.step hsteps) h
          rw [List.append_assoc] at hrefused
          exact ⟨before, bracket, behind, hrefused⟩
        · cases hstep.symm.trans he

/-- **Where a refusal points.** At the first bracket that opens a level beyond the deepest, by its
place in the text with a blank for every line feed that an escape skips. That is the place
that spans give it exactly if no escape skips a line feed in front of it. -/
theorem scan_refuses {text : List Char} {e : TooDeep} (h : scan text = .error e) :
    ∃ before bracket behind, Refused text e before bracket behind
      ∧ ((e.line = (Position.start.advanceBy before).line
          ∧ e.column = (Position.start.advanceBy before).column)
        ↔ ¬ Context.start.SkipsLineFeed before) := by
  obtain ⟨before, bracket, behind, hrefused⟩ := scanFrom_eq_error State.behind_start h
  refine ⟨before, bracket, behind, hrefused, ?_⟩
  rw [hrefused.line_eq, hrefused.column_eq, Position.start_advanceBy]
  constructor
  · -- a skipped line feed is one line less
    rintro ⟨hline, -⟩ hskips
    have hlt := Context.count_unbroken_lt hskips
    dsimp only at hline
    omega
  · intro hskips
    rw [Context.unbroken_eq_self hskips]
    exact ⟨rfl, rfl⟩

set_option maxRecDepth 2000 in
/-- A comment over one line, and a literal over another, in front of the brackets. -/
theorem scan_refuses_lines :
    scan ("// (\n'(' ".toList ++ List.replicate 65 '(') = .error ⟨2, 69⟩
      ∧ ∃ before bracket behind,
        Refused ("// (\n'(' ".toList ++ List.replicate 65 '(') ⟨2, 69⟩ before bracket behind
          ∧ ((2 = (Position.start.advanceBy before).line
              ∧ 69 = (Position.start.advanceBy before).column)
            ↔ ¬ Context.start.SkipsLineFeed before) := by
  have hscan : scan ("// (\n'(' ".toList ++ List.replicate 65 '(') = .error ⟨2, 69⟩ := rfl
  exact ⟨hscan, scan_refuses hscan⟩

set_option maxRecDepth 2000 in
/-- Behind a literal with an escaped line feed the first bracket too many stands on the second
line, and is reported on the first. -/
theorem scan_misplaces_behind_escape :
    let before := ['\x22', '\\', '\n', '\x22'] ++ List.replicate 64 '('
    scan (before ++ ['(']) = .error ⟨1, 69⟩
      ∧ scan before = .ok ()
      ∧ Position.start.advanceBy before = ⟨68, 2, 66⟩ := ⟨rfl, rfl, rfl⟩

end Brackets

end RowFilter
