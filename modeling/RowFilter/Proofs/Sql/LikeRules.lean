/-
`LIKE` by its rules, and that the pattern of a test matches just the texts the test is for.

`matchesText` decides whether a text matches a pattern: it takes the escapes out of the pattern and
then tries every end a `%` may have. `Matches` says what is to be decided, one rule for each way a
pattern can begin, and `matchesText_eq_true_iff` that it is decided.

A pattern may end in a backslash with nothing behind it to be made literal. Whether it does depends
on the backslashes before: they make one another literal from left to right, so the last one is left
over if the run of backslashes at the end is of odd length. This is `Dangling`, and such patterns
are the only ones with no reading (`dangling_iff`). The argument goes through the beginnings that a
pattern is read in, `dangling_append`.
-/
import Mathlib.Data.List.DropRight
import RowFilter.Proofs.Sql.LikePattern

set_option autoImplicit false

namespace RowFilter.Sql

namespace LikePattern

/-! ## Rules -/

/-- `Matches pattern text`: the whole text matches the pattern. -/
inductive Matches : List Char → List Char → Prop where
  | nothing : Matches [] []
  /-- `%` matches any sequence of characters. -/
  | sequence (skipped : List Char) {pattern text : List Char} (h : Matches pattern text) :
      Matches ('%' :: pattern) (skipped ++ text)
  /-- `_` matches exactly one character. -/
  | one (c : Char) {pattern text : List Char} (h : Matches pattern text) :
      Matches ('_' :: pattern) (c :: text)
  /-- A backslash makes the next character literal. -/
  | escaped (c : Char) {pattern text : List Char} (h : Matches pattern text) :
      Matches ('\\' :: c :: pattern) (c :: text)
  /-- Any other character stands for itself. -/
  | itself {c : Char} {pattern text : List Char} (hback : c ≠ '\\') (hpercent : c ≠ '%')
      (hunderscore : c ≠ '_') (h : Matches pattern text) : Matches (c :: pattern) (c :: text)

/-- What matches by the rules has a reading in pieces, and these are matched. -/
theorem Matches.exists_pieces {pattern text : List Char} (h : Matches pattern text) :
    ∃ ps, pieces pattern = some ps ∧ Piece.allMatch ps text = true := by
  -- a rule of the match is a piece of the pattern
  induction h with
  | nothing => exact ⟨[], by rw [pieces], rfl⟩
  | sequence skipped _ ih =>
      obtain ⟨ps, hps, hmatch⟩ := ih
      refine ⟨.anything :: ps, by rw [pieces_percent, hps, Option.map_some], ?_⟩
      exact Piece.allMatch_anything.mpr ⟨_, List.suffix_append skipped _, hmatch⟩
  | one c _ ih =>
      obtain ⟨ps, hps, hmatch⟩ := ih
      refine ⟨.anyCharacter :: ps, by rw [pieces_underscore, hps, Option.map_some], ?_⟩
      rw [Piece.allMatch, hmatch]
  | escaped c _ ih =>
      obtain ⟨ps, hps, hmatch⟩ := ih
      refine ⟨.just c :: ps, by rw [pieces_backslash, hps, Option.map_some], ?_⟩
      simp [Piece.allMatch, hmatch]
  | itself hback hpercent hunderscore _ ih =>
      obtain ⟨ps, hps, hmatch⟩ := ih
      refine ⟨_, by rw [pieces_plain hback hpercent hunderscore, hps, Option.map_some], ?_⟩
      simp [Piece.allMatch, hmatch]

/-- A text that the pieces of a pattern match is matched by the rules. -/
theorem matches_of_pieces {pattern text : List Char} {ps : List Piece}
    (hps : pieces pattern = some ps) (h : Piece.allMatch ps text = true) :
    Matches pattern text := by
  induction pattern using pieces.induct generalizing ps text with
  | case1 =>
      rw [pieces, Option.some.injEq] at hps
      rw [← hps, Piece.allMatch, List.isEmpty_iff] at h
      rw [h]
      exact Matches.nothing
  | case2 =>
      -- nothing is left for the backslash
      rw [pieces.eq_def] at hps
      simp at hps
  | case3 c pattern ih =>
      rw [pieces_backslash, Option.map_eq_some_iff] at hps
      obtain ⟨rest, hrest, rfl⟩ := hps
      rcases text with _ | ⟨d, text⟩
      · simp [Piece.allMatch] at h
      · simp only [Piece.allMatch, Bool.and_eq_true, decide_eq_true_eq] at h
        rw [h.1]
        exact Matches.escaped c (ih hrest h.2)
  | case4 pattern _ ih =>
      rw [pieces_percent, Option.map_eq_some_iff] at hps
      obtain ⟨rest, hrest, rfl⟩ := hps
      obtain ⟨t, ⟨skipped, rfl⟩, ht⟩ := Piece.allMatch_anything.mp h
      exact Matches.sequence skipped (ih hrest ht)
  | case5 pattern _ _ ih =>
      rw [pieces_underscore, Option.map_eq_some_iff] at hps
      obtain ⟨rest, hrest, rfl⟩ := hps
      rcases text with _ | ⟨d, text⟩
      · simp [Piece.allMatch] at h
      · rw [Piece.allMatch] at h
        exact Matches.one d (ih hrest h)
  | case6 c pattern hback hpercent hunderscore ih =>
      rw [pieces_plain hback hpercent hunderscore, Option.map_eq_some_iff] at hps
      obtain ⟨rest, hrest, rfl⟩ := hps
      rcases text with _ | ⟨d, text⟩
      · simp [Piece.allMatch] at h
      · simp only [Piece.allMatch, Bool.and_eq_true, decide_eq_true_eq] at h
        rw [h.1]
        exact Matches.itself hback hpercent hunderscore (ih hrest h.2)

/-- **The matcher decides the rules.** -/
theorem matchesText_eq_true_iff {pattern text : String} :
    matchesText pattern text = true ↔ Matches pattern.toList text.toList := by
  unfold matchesText
  constructor
  · intro h
    split at h
    · cases h
    · next ps hps => exact matches_of_pieces hps h
  · intro h
    obtain ⟨ps, hps, hmatch⟩ := h.exists_pieces
    rw [hps]
    exact hmatch

/-! ## Patterns that end in a backslash -/

/-- The length of the run of backslashes that a text ends in. -/
def backslashesAtEnd (text : List Char) : Nat := (text.rtakeWhile (· = '\\')).length

/-- A pattern that ends in a backslash which no other one makes literal: they do so in pairs. -/
def Dangling (pattern : List Char) : Prop := backslashesAtEnd pattern % 2 = 1

instance (pattern : List Char) : Decidable (Dangling pattern) :=
  inferInstanceAs (Decidable (backslashesAtEnd pattern % 2 = 1))

/-- The run at the end of a longer text goes on in front of a part that is all backslashes. -/
theorem backslashesAtEnd_append (s t : List Char) :
    backslashesAtEnd (s ++ t)
      = if backslashesAtEnd t = t.length then backslashesAtEnd s + t.length
        else backslashesAtEnd t := by
  simp only [backslashesAtEnd, List.rtakeWhile, List.reverse_append, List.takeWhile_append,
    List.length_reverse]
  split
  · rw [List.length_append, List.length_reverse, Nat.add_comm]
  · rfl

/-- Behind a beginning in which every backslash has found its character, the rest decides. -/
theorem dangling_append {s t : List Char} (hs : ¬ Dangling s) : Dangling (s ++ t) ↔ Dangling t := by
  unfold Dangling at *
  rw [backslashesAtEnd_append]
  split <;> omega

/-- A character that is no backslash leaves none behind. -/
theorem not_dangling_singleton {c : Char} (hc : c ≠ '\\') : ¬ Dangling [c] := by
  simp [Dangling, backslashesAtEnd, List.rtakeWhile, hc]

theorem not_dangling_escape (c : Char) : ¬ Dangling ['\\', c] := by
  by_cases hc : c = '\\' <;> simp [Dangling, backslashesAtEnd, List.rtakeWhile, hc]

/-- A beginning that is read by itself leaves the question to the rest. -/
theorem dangling_iff_of_map {s t : List Char} {f : List Piece → List Piece} (hs : ¬ Dangling s)
    (hread : pieces (s ++ t) = (pieces t).map f) (ht : Dangling t ↔ pieces t = none) :
    Dangling (s ++ t) ↔ pieces (s ++ t) = none := by
  rw [dangling_append hs, hread, Option.map_eq_none_iff]
  exact ht

/-- **Only dangling patterns have no reading.** -/
theorem dangling_iff {pattern : List Char} : Dangling pattern ↔ pieces pattern = none := by
  -- by the pieces that are read, each of which keeps what dangles at the end
  induction pattern using pieces.induct with
  | case1 => simp [Dangling, backslashesAtEnd, pieces]
  | case2 =>
      rw [pieces.eq_def]
      simp [Dangling, backslashesAtEnd, List.rtakeWhile]
  | case3 c pattern ih =>
      exact dangling_iff_of_map (not_dangling_escape c) (pieces_backslash c pattern) ih
  | case4 pattern hback ih =>
      exact dangling_iff_of_map (not_dangling_singleton hback) (pieces_percent pattern) ih
  | case5 pattern hback _ ih =>
      exact dangling_iff_of_map (not_dangling_singleton hback) (pieces_underscore pattern) ih
  | case6 c pattern hback hpercent hunderscore ih =>
      exact dangling_iff_of_map (not_dangling_singleton hback)
        (pieces_plain hback hpercent hunderscore pattern) ih

end LikePattern

/-! ## Tests -/

namespace StringTest

open LikePattern (Matches Dangling)

/-- **Patterns match the literal text.** By the rules of `LIKE`, a text matches the pattern of a
test exactly if what is sought stands in it, at its beginning or at its end, as the test asks,
whatever characters are sought; and every backslash of the pattern has a character to make
literal. -/
theorem pattern_matches_iff (test : StringTest) (sought text : String) :
    (Matches (test.pattern sought).toList text.toList ↔ test.Holds sought text)
      ∧ ¬ Dangling (test.pattern sought).toList := by
  constructor
  · rw [← LikePattern.matchesText_eq_true_iff, matchesText_pattern_iff]
  · rw [LikePattern.dangling_iff, pieces_pattern]
    simp

/-- What is sought may end in a backslash: before the open end of the pattern it is doubled. -/
example : pattern .startsWith "50%\\" = "50\\%\\\\%" ∧ ¬ Dangling "50\\%\\\\%".toList
    ∧ Dangling "50\\%\\".toList := by
  decide

end StringTest

end RowFilter.Sql
