/-
What a pattern of `LIKE` matches, and that the patterns of the tests on strings match
what the tests ask for.

Escaping goes over the text once for every special character. That this puts one
backslash before each special character and no other rests on the order of the
characters: the backslashes that are added are in danger of being escaped again, and
they are not, because the backslash is the first character that is dealt with.
`foldl_escapeEvery` is this argument as an invariant of the passes: after some of the
characters the text is the original one, with a backslash before each of just these.

The matching itself is read off a pattern in two steps. `pieces` takes the escapes away
and `Piece.allMatch` compares what is left with a text; a text that has been escaped
leaves nothing but pieces that stand for themselves.
-/
import Mathlib.Data.List.Infix
import RowFilter.Sql.LikePattern

set_option autoImplicit false

namespace RowFilter.Sql

namespace LikePattern

/-! ## Escaping in one pass -/

/-- A character with a backslash before it if it is one of `done`. -/
def escapeIn (done : List Char) (c : Char) : List Char :=
  if c ∈ done then ['\\', c] else [c]

/-- A character that has been dealt with is escaped. -/
theorem escapeIn_of_mem {done : List Char} {c : Char} (h : c ∈ done) :
    escapeIn done c = ['\\', c] := if_pos h

theorem escapeIn_of_not_mem {done : List Char} {c : Char} (h : c ∉ done) :
    escapeIn done c = [c] := if_neg h

/-- One more pass, over one character of the original text: the backslash before it is
not the character of this pass, and neither is an escaped character. -/
theorem escapeEvery_escapeIn {done : List Char} {special : Char} (hback : special ≠ '\\')
    (hnew : special ∉ done) (c : Char) :
    escapeEvery special (escapeIn done c) = escapeIn (done ++ [special]) c := by
  -- a later pass does not touch the backslash of an earlier one
  by_cases hdone : c ∈ done
  · have hne : c ≠ special := fun h => hnew (h ▸ hdone)
    rw [escapeIn_of_mem hdone, escapeIn_of_mem (List.mem_append_left _ hdone)]
    simp [escapeEvery, hne, hback.symm]
  · rw [escapeIn_of_not_mem hdone]
    by_cases hc : c = special
    · subst hc
      rw [escapeIn_of_mem (by simp)]
      simp [escapeEvery]
    · have hnot : c ∉ done ++ [special] := by simp [hdone, hc]
      rw [escapeIn_of_not_mem hnot]
      simp [escapeEvery, hc]

/-- The same over a whole text. -/
theorem escapeEvery_flatMap {done : List Char} {special : Char} (hback : special ≠ '\\')
    (hnew : special ∉ done) (text : List Char) :
    escapeEvery special (text.flatMap (escapeIn done))
      = text.flatMap (escapeIn (done ++ [special])) := by
  rw [escapeEvery, List.flatMap_assoc]
  congr 1
  funext c
  exact escapeEvery_escapeIn hback hnew c

/-- **The passes together.** Going on from `done` with characters that are new and no
backslashes escapes each character of the original text at most once. -/
theorem foldl_escapeEvery (done rest : List Char) (text : List Char) (hback : '\\' ∉ rest)
    (hnodup : (done ++ rest).Nodup) :
    rest.foldl (fun t c => escapeEvery c t) (text.flatMap (escapeIn done))
      = text.flatMap (escapeIn (done ++ rest)) := by
  induction rest generalizing done with
  | nil => rw [List.append_nil, List.foldl_nil]
  | cons special rest ih =>
      have hne : special ≠ '\\' := fun h => hback (h ▸ List.mem_cons_self)
      have hnew : special ∉ done := by
        intro hmem
        exact (List.nodup_append.mp hnodup).2.2 special hmem special List.mem_cons_self rfl
      -- after this pass the character counts among those that are done
      have hassoc : done ++ special :: rest = (done ++ [special]) ++ rest := by simp
      rw [hassoc] at hnodup ⊢
      rw [List.foldl_cons, escapeEvery_flatMap hne hnew]
      exact ih (done ++ [special]) (fun h => hback (List.mem_cons_of_mem _ h)) hnodup

/-- **Escaping is done in one pass.** The escaped text is the original one with a
backslash before each special character. -/
theorem toList_escape (text : String) :
    (escape text).toList = text.toList.flatMap (escapeIn specials) := by
  -- the pass over backslashes comes first: later ones would see those that were added
  have hfirst : escapeEvery '\\' text.toList = text.toList.flatMap (escapeIn ['\\']) := by
    unfold escapeEvery
    congr 1
    funext c
    simp [escapeIn]
  have hrest := foldl_escapeEvery ['\\'] ['%', '_', '[', ']'] text.toList (by decide) (by decide)
  rw [escape, String.toList_ofList, specials, List.foldl_cons, hfirst]
  exact hrest

/-! ## Matching -/

/-- What a pattern is made of. -/
inductive Piece where
  /-- `%` -/
  | anything
  /-- `_` -/
  | anyCharacter
  | just (c : Char)
  deriving DecidableEq, Repr

/-- The pieces of a pattern. A backslash makes the next character stand for itself; a
pattern that ends in one is no pattern. -/
def pieces : List Char → Option (List Piece)
  | [] => some []
  | c :: rest =>
    if c = '\\' then
      match rest with
      | [] => none
      | escaped :: rest => (pieces rest).map (.just escaped :: ·)
    else if c = '%' then (pieces rest).map (.anything :: ·)
    else if c = '_' then (pieces rest).map (.anyCharacter :: ·)
    else (pieces rest).map (.just c :: ·)

/-- Whether a whole text matches some pieces, one after the other. -/
def Piece.allMatch : List Piece → List Char → Bool
  | [], text => text.isEmpty
  | .anything :: ps, text => text.tails.any (allMatch ps)
  | .anyCharacter :: ps, text =>
    match text with
    | [] => false
    | _ :: rest => allMatch ps rest
  | .just c :: ps, text =>
    match text with
    | [] => false
    | d :: rest => d = c && allMatch ps rest

/-- Whether a text matches a pattern. -/
def matchesText (pattern text : String) : Bool :=
  match pieces pattern.toList with
  | none => false
  | some ps => Piece.allMatch ps text.toList

/-! ### Pieces of a pattern -/

/-- Behind a backslash a character means itself. -/
theorem pieces_backslash (c : Char) (rest : List Char) :
    pieces ('\\' :: c :: rest) = (pieces rest).map (.just c :: ·) := by
  rw [pieces.eq_def]
  rfl

/-- A percent sign is any text. -/
theorem pieces_percent (rest : List Char) :
    pieces ('%' :: rest) = (pieces rest).map (.anything :: ·) := by
  rw [pieces.eq_def]
  rfl

/-- An underscore is any character. -/
theorem pieces_underscore (rest : List Char) :
    pieces ('_' :: rest) = (pieces rest).map (.anyCharacter :: ·) := by
  rw [pieces.eq_def]
  rfl

/-- All other characters mean themselves. -/
theorem pieces_plain {c : Char} (hback : c ≠ '\\') (hpercent : c ≠ '%')
    (hunderscore : c ≠ '_') (rest : List Char) :
    pieces (c :: rest) = (pieces rest).map (.just c :: ·) := by
  rw [pieces.eq_def]
  simp only [if_neg hback, if_neg hpercent, if_neg hunderscore]

/-- A character that has been escaped stands for itself, whatever follows. -/
theorem pieces_escapeIn (c : Char) (rest : List Char) :
    pieces (escapeIn specials c ++ rest) = (pieces rest).map (.just c :: ·) := by
  by_cases h : c ∈ specials
  · rw [escapeIn_of_mem h, List.cons_append, List.cons_append, List.nil_append]
    exact pieces_backslash c rest
  · -- what has not been escaped is none of the characters with a meaning
    have hback : c ≠ '\\' := fun hc => h (hc ▸ by decide)
    have hpercent : c ≠ '%' := fun hc => h (hc ▸ by decide)
    have hunderscore : c ≠ '_' := fun hc => h (hc ▸ by decide)
    rw [escapeIn_of_not_mem h, List.cons_append, List.nil_append]
    exact pieces_plain hback hpercent hunderscore rest

/-- A text that has been escaped stands for itself, whatever follows. -/
theorem pieces_escape_append (text : String) (rest : List Char) :
    pieces ((escape text).toList ++ rest) = (pieces rest).map (text.toList.map .just ++ ·) := by
  rw [toList_escape]
  induction text.toList with
  | nil => simp
  | cons c text ih =>
      rw [List.flatMap_cons, List.append_assoc, pieces_escapeIn, ih, Option.map_map]
      rfl

/-- What has been escaped is read as the text itself. -/
theorem pieces_escape (text : String) :
    pieces (escape text).toList = some (text.toList.map .just) := by
  have h := pieces_escape_append text []
  rw [List.append_nil] at h
  rw [h, pieces, Option.map_some, List.append_nil]

/-! ### Texts and their patterns -/

/-- Each part of a text is escaped by itself. -/
theorem escape_append (a b : String) : escape (a ++ b) = escape a ++ escape b := by
  refine String.toList_inj.mp ?_
  rw [toList_escape, String.toList_append, List.flatMap_append, ← toList_escape, ← toList_escape,
    ← String.toList_append]

/-- Reading the pattern gives the text back. -/
theorem escape_injective : Function.Injective escape := by
  intro a b h
  have hread : some (a.toList.map Piece.just) = some (b.toList.map Piece.just) := by
    rw [← pieces_escape a, h, pieces_escape b]
  refine String.toList_inj.mp (List.map_injective_iff.mpr ?_ (Option.some.inj hread))
  intro c d hcd
  exact Piece.just.inj hcd

/-- **The passes are one substitution.** However the special characters of a text are mixed, the
passes over it, one for each of them, put a backslash before each one and leave all else as it is.
So two texts may be escaped together or apart, and no two texts are escaped to the same pattern. -/
theorem escape_substitutes :
    (∀ text : String, escape text = String.ofList (text.toList.flatMap fun c =>
        if c ∈ ['\\', '%', '_', '[', ']'] then ['\\', c] else [c]))
      ∧ (∀ a b : String, escape (a ++ b) = escape a ++ escape b)
      ∧ Function.Injective escape := by
  refine ⟨fun text => ?_, escape_append, escape_injective⟩
  rw [← String.ofList_toList (s := escape text), toList_escape]
  rfl

/-! ### Matching the pieces -/

namespace Piece

/-- `%` leaves any beginning out. -/
theorem allMatch_anything {ps : List Piece} {text : List Char} :
    allMatch (.anything :: ps) text = true ↔ ∃ t, t <:+ text ∧ allMatch ps t = true := by
  simp [allMatch]

/-- Pieces that stand for themselves are compared character by character. -/
theorem allMatch_just {s : List Char} {ps : List Piece} {text : List Char} :
    allMatch (s.map .just ++ ps) text = true ↔
      ∃ t, text = s ++ t ∧ allMatch ps t = true := by
  induction s generalizing text with
  | nil => simp
  | cons c s ih =>
      rw [List.map_cons, List.cons_append]
      constructor
      · intro h
        -- a text that is used up has no character left to match
        rcases text with _ | ⟨d, rest⟩
        · cases h
        · rw [allMatch, Bool.and_eq_true, decide_eq_true_eq] at h
          obtain ⟨t, rfl, ht⟩ := ih.mp h.2
          exact ⟨t, by rw [h.1, List.cons_append], ht⟩
      · rintro ⟨t, rfl, ht⟩
        rw [List.cons_append, allMatch, Bool.and_eq_true, decide_eq_true_eq]
        exact ⟨rfl, ih.mpr ⟨t, rfl, ht⟩⟩

/-- Closed at the end, nothing further is matched. -/
theorem allMatch_closed {s text : List Char} :
    allMatch (s.map .just) text = true ↔ text = s := by
  have h := @allMatch_just s [] text
  rw [List.append_nil] at h
  rw [h]
  constructor
  · rintro ⟨t, rfl, ht⟩
    rw [allMatch, List.isEmpty_iff] at ht
    rw [ht, List.append_nil]
  · rintro rfl
    exact ⟨[], (List.append_nil _).symm, rfl⟩

/-- Open at the end, a beginning is matched. -/
theorem allMatch_open {s text : List Char} :
    allMatch (s.map .just ++ [.anything]) text = true ↔ s <+: text := by
  rw [allMatch_just]
  constructor
  · rintro ⟨t, rfl, -⟩
    exact List.prefix_append s t
  · rintro ⟨t, rfl⟩
    exact ⟨t, rfl, allMatch_anything.mpr ⟨[], List.nil_suffix, rfl⟩⟩

end Piece

end LikePattern

/-! ## The tests on strings -/

namespace StringTest

open LikePattern (matchesText Piece)

/-- What a test asks of a text, given what is sought in it. -/
def Holds (test : StringTest) (sought text : String) : Prop :=
  match test with
  | .contains => sought.toList <:+: text.toList
  | .startsWith => sought.toList <+: text.toList
  | .endsWith => sought.toList <:+ text.toList

/-- The pieces of the pattern of a test: what is sought, open where the text may go
on. -/
def pieces (test : StringTest) (sought : String) : List Piece :=
  match test with
  | .contains => .anything :: (sought.toList.map .just ++ [.anything])
  | .startsWith => sought.toList.map .just ++ [.anything]
  | .endsWith => .anything :: sought.toList.map .just

/-- The pattern of a test is a pattern, with just these pieces. -/
theorem pieces_pattern (test : StringTest) (sought : String) :
    LikePattern.pieces (test.pattern sought).toList = some (test.pieces sought) := by
  -- the escaped text comes out as itself, with the wildcard behind it
  have hopen : LikePattern.pieces ((LikePattern.escape sought).toList ++ ['%'])
      = some (sought.toList.map .just ++ [.anything]) := by
    rw [LikePattern.pieces_escape_append]
    rfl
  rcases test with _ | _ | _
  · have htext : (pattern .contains sought).toList
        = '%' :: ((LikePattern.escape sought).toList ++ ['%']) := by
      simp [pattern]
    rw [htext, LikePattern.pieces_percent, hopen]
    rfl
  · have htext : (pattern .startsWith sought).toList
        = (LikePattern.escape sought).toList ++ ['%'] := by
      simp [pattern]
    rw [htext, hopen]
    rfl
  · have htext : (pattern .endsWith sought).toList
        = '%' :: (LikePattern.escape sought).toList := by
      simp [pattern]
    rw [htext, LikePattern.pieces_percent, LikePattern.pieces_escape]
    rfl

/-- **Patterns are tests.** The pattern of a test matches a text exactly if the test
holds of the text, whatever characters are sought. -/
theorem matchesText_pattern_iff {test : StringTest} {sought text : String} :
    matchesText (test.pattern sought) text = true ↔ test.Holds sought text := by
  unfold matchesText
  rw [pieces_pattern]
  rcases test with _ | _ | _
  · -- to stand somewhere inside a text is to stand at the beginning of an end of it
    have h := @Piece.allMatch_anything (sought.toList.map .just ++ [.anything]) text.toList
    simp only [Piece.allMatch_open] at h
    refine h.trans ?_
    rw [Holds, List.infix_iff_prefix_suffix]
    exact exists_congr fun t => and_comm
  · exact Piece.allMatch_open
  · have h := @Piece.allMatch_anything (sought.toList.map .just) text.toList
    simp only [Piece.allMatch_closed] at h
    refine h.trans ?_
    constructor
    · rintro ⟨t, ht, rfl⟩
      exact ht
    · intro ht
      exact ⟨_, ht, rfl⟩

end StringTest

end RowFilter.Sql
