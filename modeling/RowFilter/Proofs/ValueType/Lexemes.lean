/-
Lexemes of type texts.

A text is cut into lexemes: words as long as possible, every other character by itself, and blanks
nowhere. The reader never cuts a text; it drops the blanks in front whenever it looks for a word or
a mark, and hands on the rest. Here the two are brought together for the front of a text (`Front`):
what the reader finds there is the next lexeme, and the other way round.
-/
import Mathlib.Data.List.TakeWhile
import RowFilter.ValueType.Reader

set_option autoImplicit false

namespace RowFilter.ValueType

/-! ## Lexemes -/

/-- A piece of a type text. -/
inductive Lexeme where
  | word (letters : List Char)
  | mark (symbol : Char)
  deriving DecidableEq, Repr

/-- Whether a text goes on with a character of a word. -/
def startsWord : List Char → Bool
  | c :: _ => isWordChar c
  | [] => false

/-- The lexemes of a text: words as long as possible, every other character that is not blank by
itself. -/
def lexemes : List Char → List Lexeme
  | [] => []
  | c :: rest =>
    if isWordChar c then
      match startsWord rest, lexemes rest with
      | true, .word letters :: more => .word (c :: letters) :: more
      | _, more => .word [c] :: more
    else if Text.isBlank c then lexemes rest
    else .mark c :: lexemes rest

variable {text rest w : List Char} {c symbol : Char} {more : List Lexeme} {name : String}

/-- The characters of words lie between the dot and the last letter. -/
theorem toNat_of_isWordChar (h : isWordChar c = true) : 46 ≤ c.toNat ∧ c.toNat ≤ 122 := by
  simp only [isWordChar, Bool.or_eq_true, beq_iff_eq] at h
  -- letters and digits by their ranges, and the two other characters by themselves
  rcases h with (h | rfl) | rfl
  · rcases Bool.or_eq_true_iff.mp h with hletter | hdigit
    · rcases Bool.or_eq_true_iff.mp hletter with hupper | hlower
      · have hrange : 65 ≤ c.toNat ∧ c.toNat ≤ 90 := of_decide_eq_true hupper
        omega
      · have hrange : 97 ≤ c.toNat ∧ c.toNat ≤ 122 :=
          (Bool.and_eq_true_iff.mp hlower).imp of_decide_eq_true of_decide_eq_true
        omega
    · have hrange : 48 ≤ c.toNat ∧ c.toNat ≤ 57 :=
        (Bool.and_eq_true_iff.mp hdigit).imp of_decide_eq_true of_decide_eq_true
      omega
  · decide
  · decide

/-- No blank belongs to a word. -/
theorem isWordChar_of_isBlank (h : Text.isBlank c = true) : isWordChar c = false := by
  rcases hword : isWordChar c with _ | _
  · rfl
  · have hrange := toNat_of_isWordChar hword
    simp only [Text.isBlank, Bool.or_eq_true, Bool.and_eq_true, decide_eq_true_eq, beq_iff_eq] at h
    omega

/-- Blanks between lexemes are left out. -/
theorem lexemes_of_isBlank (h : Text.isBlank c = true) : lexemes (c :: rest) = lexemes rest := by
  rw [lexemes, if_neg (by simp [isWordChar_of_isBlank h]), if_pos h]

/-- What is neither a word nor a blank is a mark. -/
theorem lexemes_mark (hword : isWordChar c = false) (hblank : Text.isBlank c = false) :
    lexemes (c :: rest) = .mark c :: lexemes rest := by
  rw [lexemes, if_neg (by simp [hword]), if_neg (by simp [hblank])]

/-- A run of characters of words that does not go on is one word. -/
theorem lexemes_word (hne : w ≠ []) (hw : ∀ d ∈ w, isWordChar d = true)
    (hrest : startsWord rest = false) : lexemes (w ++ rest) = .word w :: lexemes rest := by
  induction w with
  | nil => exact absurd rfl hne
  | cons c w ih =>
      rw [List.cons_append, lexemes, if_pos (hw c List.mem_cons_self)]
      cases w with
      | nil => rw [List.nil_append, hrest]
      | cons d w =>
          have hmore : ∀ e ∈ d :: w, isWordChar e = true := fun e he =>
            hw e (List.mem_cons_of_mem _ he)
          have hstarts : startsWord (d :: w ++ rest) = true := hmore d List.mem_cons_self
          -- the first letter joins the word that the others are
          rw [hstarts, ih (by simp) hmore]

/-! ## The front of a text -/

/-- Blanks in front are no lexemes. -/
theorem lexemes_skipBlanks (text : List Char) : lexemes (skipBlanks text) = lexemes text := by
  induction text with
  | nil => rfl
  | cons c rest ih =>
      rw [skipBlanks, List.dropWhile_cons]
      by_cases hblank : Text.isBlank c = true
      · rw [if_pos hblank, lexemes_of_isBlank hblank]
        exact ih
      · rw [if_neg hblank]

/-- A mark that was expected stands behind blanks. -/
theorem skipBlanks_of_expectMark (h : expectMark symbol text = some rest) :
    skipBlanks text = symbol :: rest := by
  unfold expectMark at h
  split at h
  · next c behind hskipped =>
    split at h
    · next hc => rw [hskipped, hc, Option.some.inj h]
    · cases h
  · cases h

/-- Behind the blanks in front there is none. -/
theorem isBlank_of_skipBlanks (h : skipBlanks text = c :: rest) : Text.isBlank c = false := by
  have hhead := List.head?_dropWhile_not Text.isBlank text
  rw [← skipBlanks, h] at hhead
  simpa using hhead

/-- Behind a word no word goes on. -/
theorem startsWord_dropWhile (text : List Char) :
    startsWord (text.dropWhile isWordChar) = false := by
  rcases h : text.dropWhile isWordChar with _ | ⟨c, rest⟩
  · rfl
  · have hhead := List.head?_dropWhile_not isWordChar text
    rw [h] at hhead
    simpa [startsWord] using hhead

/-- A word that is found is the next lexeme. -/
theorem lexemes_of_splitWord (h : splitWord text = (name, rest)) (hne : name ≠ "") :
    lexemes text = .word name.toList :: lexemes rest := by
  obtain ⟨rfl, rfl⟩ := Prod.mk.inj h
  rw [String.toList_ofList]
  have htaken : (skipBlanks text).takeWhile isWordChar ≠ [] := fun hnil => hne (by rw [hnil])
  have hword := lexemes_word htaken (List.all_eq_true.mp List.all_takeWhile)
    (startsWord_dropWhile (skipBlanks text))
  rwa [List.takeWhile_append_dropWhile, lexemes_skipBlanks] at hword

/-- A mark that is found is the next lexeme. -/
theorem lexemes_of_expectMark (hsymbol : isWordChar symbol = false)
    (h : expectMark symbol text = some rest) : lexemes text = .mark symbol :: lexemes rest := by
  have hskipped := skipBlanks_of_expectMark h
  rw [← lexemes_skipBlanks, hskipped, lexemes_mark hsymbol (isBlank_of_skipBlanks hskipped)]

/-- What stands in front of a text, as the reader finds it, with the lexemes that the text begins
with. -/
inductive Front (text : List Char) : List Lexeme → Prop
  | nothing (h : skipBlanks text = []) : Front text []
  | word {name : String} {rest : List Char} (h : splitWord text = (name, rest)) :
      Front text (.word name.toList :: lexemes rest)
  | mark {symbol : Char} {rest : List Char} (h : expectMark symbol text = some rest) :
      Front text (.mark symbol :: lexemes rest)

/-- Every text has lexemes at its front, or has none. -/
theorem front_lexemes (text : List Char) : Front text (lexemes text) := by
  rcases hskipped : skipBlanks text with _ | ⟨c, rest⟩
  · rw [← lexemes_skipBlanks, hskipped]
    exact .nothing hskipped
  · rcases hword : isWordChar c with _ | _
    · have hmark : expectMark c text = some rest := by rw [expectMark, hskipped]; exact if_pos rfl
      rw [lexemes_of_expectMark hword hmark]
      exact .mark hmark
    · -- an empty word would be the sign that there is none
      have hne : (splitWord text).1 ≠ "" := by
        rw [splitWord, hskipped, List.takeWhile_cons, if_pos hword]
        simp
      rw [lexemes_of_splitWord rfl hne]
      exact .word rfl

/-- The next lexeme is found if it is a word. -/
theorem splitWord_of_lexemes (h : lexemes text = .word w :: more) :
    ∃ rest, splitWord text = (String.ofList w, rest) ∧ lexemes rest = more := by
  have hfront := front_lexemes text
  rw [h] at hfront
  cases hfront with
  | word hword => exact ⟨_, by rw [String.ofList_toList]; exact hword, rfl⟩

/-- The next lexeme is found if it is a mark. -/
theorem expectMark_of_lexemes (h : lexemes text = .mark symbol :: more) :
    ∃ rest, expectMark symbol text = some rest ∧ lexemes rest = more := by
  have hfront := front_lexemes text
  rw [h] at hfront
  cases hfront with
  | mark hmark => exact ⟨_, hmark, rfl⟩

/-- A text without lexemes is blank. -/
theorem lexemes_eq_nil_iff : lexemes text = [] ↔ text.all Text.isBlank = true := by
  rw [List.all_eq_true, ← List.dropWhile_eq_nil_iff, ← skipBlanks]
  constructor
  · intro h
    have hfront := front_lexemes text
    rw [h] at hfront
    cases hfront with
    | nothing hskipped => exact hskipped
  · intro h
    rw [← lexemes_skipBlanks, h]
    rfl

/-! ### What is taken off a text -/

/-- Behind a word less is left, or as much. -/
theorem length_splitWord_le (h : splitWord text = (name, rest)) : rest.length ≤ text.length := by
  obtain ⟨rfl, rfl⟩ := Prod.mk.inj h
  exact ((List.dropWhile_suffix _).trans (List.dropWhile_suffix _)).length_le

/-- Behind a mark less is left. -/
theorem length_expectMark_lt (h : expectMark symbol text = some rest) :
    rest.length < text.length := by
  have hlength : (skipBlanks text).length ≤ text.length := (List.dropWhile_suffix _).length_le
  rwa [skipBlanks_of_expectMark h, List.length_cons] at hlength

end RowFilter.ValueType
