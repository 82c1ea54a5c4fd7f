/-
What patterns match.

A pattern takes a part off the front of a text, which it is put together with again from what
is taken and what is left (`split?_append`). One equivalence says for every kind of pattern
when it matches; a repetition is taken apart item by item.
-/
import Mathlib.Data.List.Basic
import RowFilter.Grammar.Pattern

set_option autoImplicit false

namespace RowFilter.Grammar

namespace Pattern

variable {accepts : Char → Bool} {expected text taken rest : List Char}
  {first second item : Pattern}
  {found : List Char × List Char}

/-- When one character is taken. -/
theorem split?_one_eq_some_iff :
    (one accepts).split? text = some (taken, rest) ↔
      ∃ c, accepts c = true ∧ taken = [c] ∧ text = c :: rest := by
  cases text with
  | nil => simp [split?_one_nil]
  | cons c more =>
      rw [split?_one_cons]
      split
      · next h =>
          rw [Option.some.injEq, Prod.mk.injEq]
          constructor
          · rintro ⟨rfl, rfl⟩
            exact ⟨c, h, rfl, rfl⟩
          · rintro ⟨d, -, rfl, htext⟩
            obtain ⟨rfl, rfl⟩ := List.cons.inj htext
            exact ⟨rfl, rfl⟩
      · next h =>
          refine iff_of_false (by rintro ⟨⟩) ?_
          rintro ⟨d, hd, -, htext⟩
          obtain ⟨rfl, -⟩ := List.cons.inj htext
          exact h hd

/-- When a fixed text is taken. -/
theorem split?_exactly_eq_some_iff :
    (exactly expected).split? text = some (taken, rest) ↔
      taken = expected ∧ text = expected ++ rest := by
  rw [split?_exactly, Option.map_eq_some_iff]
  constructor
  · rintro ⟨more, hmore, hpair⟩
    obtain ⟨rfl, rfl⟩ := Prod.mk.inj hpair
    exact ⟨rfl, (List.isPrefixOf?_eq_some_iff_append_eq.mp hmore).symm⟩
  · rintro ⟨rfl, htext⟩
    exact ⟨rest, List.isPrefixOf?_eq_some_iff_append_eq.mpr htext.symm, rfl⟩

/-- When a sequence is taken. -/
theorem split?_seq_eq_some_iff :
    (seq first second).split? text = some (taken, rest) ↔
      ∃ left middle right, first.split? text = some (left, middle) ∧
        second.split? middle = some (right, rest) ∧ taken = left ++ right := by
  rw [split?_seq]
  rcases hfirst : first.split? text with _ | ⟨left, middle⟩
  · exact iff_of_false (by rintro ⟨⟩) (by rintro ⟨_, _, _, ⟨⟩, _⟩)
  · dsimp only
    constructor
    · intro h
      rcases hsecond : second.split? middle with _ | ⟨right, last⟩
      · simp [hsecond] at h
      · simp only [hsecond, Option.some.injEq, Prod.mk.injEq] at h
        obtain ⟨rfl, rfl⟩ := h
        exact ⟨left, middle, right, rfl, hsecond, rfl⟩
    · rintro ⟨left', middle', right, hleft, hsecond, rfl⟩
      obtain ⟨rfl, rfl⟩ := Prod.mk.inj (Option.some.inj hleft)
      simp only [hsecond]

theorem split?_alt_eq_some_iff :
    (alt first second).split? text = some found ↔
      first.split? text = some found ∨
        first.split? text = none ∧ second.split? text = some found := by
  rw [split?_alt]
  rcases hfirst : first.split? text with _ | other <;> simp

theorem split?_optional_eq_some_iff :
    (optional item).split? text = some found ↔
      item.split? text = some found ∨ item.split? text = none ∧ found = ([], text) := by
  rw [split?_optional]
  rcases hitem : item.split? text with _ | other <;> simp [eq_comm]

theorem split?_unless_eq_some_iff :
    («unless» item).split? text = some found ↔ item.split? text = none ∧ found = ([], text) := by
  rw [split?_unless]
  rcases hitem : item.split? text with _ | other <;> simp [eq_comm]

/-- What holds of a repetition without items, and with one item more, holds of every one. -/
theorem repeatedly_induction {item : List Char → Option (List Char × List Char)}
    {motive : List Char → List Char → List Char → Prop} (hnil : ∀ text, motive text [] text)
    (hcons : ∀ text taken middle more rest, item text = some (taken, middle) →
      motive middle more rest → motive text (taken ++ more) rest)
    (bound text : List Char) :
    motive text (repeatedly item bound text).1 (repeatedly item bound text).2 := by
  induction bound generalizing text with
  | nil => exact hnil text
  | cons _ bound ih =>
      rw [repeatedly_cons]
      rcases h : item text with _ | ⟨taken, middle⟩
      · exact hnil text
      · exact hcons text taken middle _ _ h (ih middle)

/-- To show something of what a repetition takes, one shows it of nothing and of one more item. -/
theorem split?_many_induction {motive : List Char → List Char → List Char → Prop}
    (h : (many item).split? text = some (taken, rest)) (hnil : ∀ text, motive text [] text)
    (hcons : ∀ text taken middle more rest, item.split? text = some (taken, middle) →
      motive middle more rest → motive text (taken ++ more) rest) : motive text taken rest := by
  have hall := repeatedly_induction hnil hcons text text
  rw [split?_many, Option.some.injEq] at h
  rwa [h] at hall

/-- What a pattern takes and what it leaves make up the text. -/
theorem split?_append {p : Pattern} (h : p.split? text = some (taken, rest)) :
    taken ++ rest = text := by
  induction p generalizing text taken rest with
  | one accepts =>
      obtain ⟨c, -, rfl, rfl⟩ := split?_one_eq_some_iff.mp h
      rfl
  | exactly expected =>
      obtain ⟨rfl, rfl⟩ := split?_exactly_eq_some_iff.mp h
      rfl
  | seq first second ihfirst ihsecond =>
      obtain ⟨left, middle, right, hfirst, hsecond, rfl⟩ := split?_seq_eq_some_iff.mp h
      rw [List.append_assoc, ihsecond hsecond, ihfirst hfirst]
  | alt first second ihfirst ihsecond =>
      rcases split?_alt_eq_some_iff.mp h with hfirst | ⟨-, hsecond⟩
      · exact ihfirst hfirst
      · exact ihsecond hsecond
  -- by induction on the items, with the pattern for one of them as the case at hand
  | many item ih =>
      refine split?_many_induction (motive := fun text taken rest => taken ++ rest = text) h
        (fun _ => rfl) fun text taken middle more rest hitem hmore => ?_
      rw [List.append_assoc, hmore, ih hitem]
  | optional item ih =>
      rcases split?_optional_eq_some_iff.mp h with hitem | ⟨-, hpair⟩
      · exact ih hitem
      · obtain ⟨rfl, rfl⟩ := Prod.mk.inj hpair
        rfl
  | «unless» item _ =>
      obtain ⟨-, hpair⟩ := split?_unless_eq_some_iff.mp h
      obtain ⟨rfl, rfl⟩ := Prod.mk.inj hpair
      rfl

/-! ### How far a repetition goes -/

/-- Every match takes a character. -/
def takes : Pattern → Bool
  | .one _ => true
  | .exactly expected => !expected.isEmpty
  | .seq first second => first.takes || second.takes
  | .alt first second => first.takes && second.takes
  | .many _ | .optional _ | .unless _ => false

/-- A pattern that takes something does not take nothing. -/
theorem ne_nil_of_takes {p : Pattern} (hp : p.takes = true)
    (h : p.split? text = some (taken, rest)) : taken ≠ [] := by
  induction p generalizing text taken rest with
  | one accepts =>
      obtain ⟨c, -, rfl, -⟩ := split?_one_eq_some_iff.mp h
      exact List.cons_ne_nil _ _
  | exactly expected =>
      obtain ⟨rfl, -⟩ := split?_exactly_eq_some_iff.mp h
      simpa [takes] using hp
  | seq first second ihfirst ihsecond =>
      obtain ⟨left, middle, right, hfirst, hsecond, rfl⟩ := split?_seq_eq_some_iff.mp h
      intro hnil
      obtain ⟨hleft, hright⟩ := List.append_eq_nil_iff.mp hnil
      rcases Bool.or_eq_true_iff.mp hp with hp | hp
      · exact ihfirst hp hfirst hleft
      · exact ihsecond hp hsecond hright
  | alt first second ihfirst ihsecond =>
      obtain ⟨hpfirst, hpsecond⟩ := Bool.and_eq_true_iff.mp hp
      rcases split?_alt_eq_some_iff.mp h with hfirst | ⟨-, hsecond⟩
      · exact ihfirst hpfirst hfirst
      · exact ihsecond hpsecond hsecond
  | many | optional | «unless» => cases hp

theorem split?_nil_of_takes {p : Pattern} (hp : p.takes = true) : p.split? [] = none := by
  rcases h : p.split? [] with _ | ⟨taken, rest⟩
  · rfl
  · obtain ⟨htaken, -⟩ := List.append_eq_nil_iff.mp (split?_append h)
    exact absurd htaken (ne_nil_of_takes hp h)

/-- A repetition goes on until its item does not match any more. -/
theorem repeatedly_stops (hitem : item.takes = true) (bound text : List Char)
    (hbound : text.length ≤ bound.length) :
    item.split? (repeatedly item.split? bound text).2 = none := by
  induction bound generalizing text with
  | nil =>
      obtain rfl := List.eq_nil_of_length_eq_zero (Nat.le_zero.mp hbound)
      exact split?_nil_of_takes hitem
  | cons _ bound ih =>
      rw [repeatedly_cons]
      rcases h : item.split? text with _ | ⟨taken, rest⟩
      · exact h
      · -- an item has taken a character, so what is left still fits the shorter bound
        refine ih rest ?_
        have htaken := List.length_pos_iff.mpr (ne_nil_of_takes hitem h)
        have hlength := congrArg List.length (split?_append h)
        rw [List.length_append] at hlength
        rw [List.length_cons] at hbound
        omega

/-- A repetition stops where its item does not match. -/
theorem split?_many_stops (hitem : item.takes = true)
    (h : (many item).split? text = some (taken, rest)) : item.split? rest = none := by
  have hstops := repeatedly_stops hitem text text (Nat.le_refl _)
  rw [split?_many, Option.some.injEq] at h
  rwa [h] at hstops

/-- A repetition of characters takes all that are accepted. -/
theorem repeatedly_one (accepts : Char → Bool) (bound text : List Char)
    (hbound : text.length ≤ bound.length) :
    repeatedly (one accepts).split? bound text
      = (text.takeWhile accepts, text.dropWhile accepts) := by
  induction bound generalizing text with
  | nil =>
      obtain rfl := List.eq_nil_of_length_eq_zero (Nat.le_zero.mp hbound)
      rfl
  | cons _ bound ih =>
      cases text with
      | nil => rfl
      | cons c rest =>
          rw [repeatedly_cons, split?_one_cons]
          -- the first character that is not accepted ends the run
          by_cases hc : accepts c = true
          · rw [if_pos hc]
            dsimp only
            rw [ih rest (by simpa using hbound), List.takeWhile_cons_of_pos hc,
              List.dropWhile_cons_of_pos hc]
            rfl
          · rw [if_neg hc, List.takeWhile_cons_of_neg hc, List.dropWhile_cons_of_neg hc]

/-- A repetition of one character takes the longest run of such characters. -/
theorem split?_many_one (accepts : Char → Bool) (text : List Char) :
    (many (one accepts)).split? text
      = some (text.takeWhile accepts, text.dropWhile accepts) := by
  rw [split?_many, repeatedly_one accepts text text (Nat.le_refl _)]

/-! ### A repetition item by item -/

theorem split?_many_of_none (h : item.split? text = none) :
    (many item).split? text = some ([], text) := by
  rw [split?_many]
  cases text with
  | nil => rfl
  | cons c more => rw [repeatedly_cons, h]

/-- What bounds a repetition makes no difference if it is long enough. -/
theorem repeatedly_bound (hitem : item.takes = true) (bound bound' text : List Char)
    (hbound : text.length ≤ bound.length) (hbound' : text.length ≤ bound'.length) :
    repeatedly item.split? bound text = repeatedly item.split? bound' text := by
  induction bound generalizing bound' text with
  | nil =>
      obtain rfl := List.eq_nil_of_length_eq_zero (Nat.le_zero.mp hbound)
      cases bound' with
      | nil => rfl
      | cons _ bound' => rw [repeatedly_nil, repeatedly_cons, split?_nil_of_takes hitem]
  | cons _ bound ih =>
      cases bound' with
      | nil =>
          obtain rfl := List.eq_nil_of_length_eq_zero (Nat.le_zero.mp hbound')
          rw [repeatedly_cons, repeatedly_nil, split?_nil_of_takes hitem]
      | cons _ bound' =>
          rw [repeatedly_cons, repeatedly_cons]
          rcases h : item.split? text with _ | ⟨taken, rest⟩
          · rfl
          · -- an item takes a character at least, so what is left is within both bounds
            have htaken := List.length_pos_iff.mpr (ne_nil_of_takes hitem h)
            have hlength := congrArg List.length (split?_append h)
            rw [List.length_append] at hlength
            rw [List.length_cons] at hbound hbound'
            dsimp only
            rw [ih bound' rest (by omega) (by omega)]

/-- With a first item it takes that one and what it takes behind it. -/
theorem split?_many_of_some {more last : List Char} (hitem : item.takes = true)
    (h : item.split? text = some (taken, rest))
    (hmore : (many item).split? rest = some (more, last)) :
    (many item).split? text = some (taken ++ more, last) := by
  rw [split?_many, Option.some.injEq] at hmore
  have htaken := List.length_pos_iff.mpr (ne_nil_of_takes hitem h)
  have hlength := congrArg List.length (split?_append h)
  rw [List.length_append] at hlength
  cases text with
  | nil => exact absurd (split?_nil_of_takes hitem) (by rw [h]; rintro ⟨⟩)
  | cons c text =>
      rw [List.length_cons] at hlength
      rw [split?_many, repeatedly_cons, h]
      dsimp only
      rw [repeatedly_bound hitem text rest rest (by omega) (Nat.le_refl _), hmore]

/-! ### Characters that are not taken -/

/-- None of these characters makes a difference to the pattern but to end it. -/
def avoids (excluded : List Char) : Pattern → Bool
  | .one accepts => excluded.all fun c => !accepts c
  | .exactly expected => excluded.all fun c => !expected.contains c
  | .seq first second => first.avoids excluded && second.avoids excluded
  | .alt first second => first.avoids excluded && second.avoids excluded
  | .many item | .optional item => item.avoids excluded
  | .unless item => item.avoids excluded

/-- What a pattern avoids is not among the characters that it takes. -/
theorem not_mem_of_avoids {p : Pattern} {excluded : List Char} (hp : p.avoids excluded = true)
    (h : p.split? text = some (taken, rest)) : ∀ c ∈ taken, c ∉ excluded := by
  induction p generalizing text taken rest with
  | one accepts =>
      obtain ⟨d, hd, rfl, -⟩ := split?_one_eq_some_iff.mp h
      intro c hc hex
      obtain rfl := List.mem_singleton.mp hc
      -- the character is accepted, and it would not be if it were excluded
      have hnot := List.all_eq_true.mp hp c hex
      rw [hd] at hnot
      cases hnot
  | exactly expected =>
      obtain ⟨rfl, -⟩ := split?_exactly_eq_some_iff.mp h
      intro c hc hex
      have hnot := List.all_eq_true.mp hp c hex
      rw [List.contains_iff_mem.mpr hc] at hnot
      cases hnot
  | seq first second ihfirst ihsecond =>
      obtain ⟨hpfirst, hpsecond⟩ := Bool.and_eq_true_iff.mp hp
      obtain ⟨left, middle, right, hfirst, hsecond, rfl⟩ := split?_seq_eq_some_iff.mp h
      intro c hc
      rcases List.mem_append.mp hc with hc | hc
      · exact ihfirst hpfirst hfirst c hc
      · exact ihsecond hpsecond hsecond c hc
  | alt first second ihfirst ihsecond =>
      obtain ⟨hpfirst, hpsecond⟩ := Bool.and_eq_true_iff.mp hp
      rcases split?_alt_eq_some_iff.mp h with hfirst | ⟨-, hsecond⟩
      · exact ihfirst hpfirst hfirst
      · exact ihsecond hpsecond hsecond
  | many item ih =>
      refine split?_many_induction (motive := fun _ taken _ => ∀ c ∈ taken, c ∉ excluded) h
        (by rintro _ c ⟨⟩) fun text taken middle more rest hitem hmore c hc => ?_
      rcases List.mem_append.mp hc with hc | hc
      · exact ih hp hitem c hc
      · exact hmore c hc
  | optional item ih =>
      rcases split?_optional_eq_some_iff.mp h with hitem | ⟨-, hpair⟩
      · exact ih hp hitem
      · obtain ⟨rfl, rfl⟩ := Prod.mk.inj hpair
        rintro c ⟨⟩
  | «unless» item _ =>
      obtain ⟨-, hpair⟩ := split?_unless_eq_some_iff.mp h
      obtain ⟨rfl, rfl⟩ := Prod.mk.inj hpair
      rintro c ⟨⟩

/-- Every item of a repetition takes a character. -/
def steady : Pattern → Bool
  | .one _ | .exactly _ => true
  | .seq first second => first.steady && second.steady
  | .alt first second => first.steady && second.steady
  | .many item => item.takes && item.steady
  | .optional item | .unless item => item.steady

/-- A repetition reads the same in front of a tail if its item does. -/
theorem split?_many_append {tail : List Char} (hitem : item.takes = true)
    (h : ∀ text, item.split? (text ++ tail)
      = (item.split? text).map fun found => (found.1, found.2 ++ tail)) (text : List Char) :
    (many item).split? (text ++ tail)
      = ((many item).split? text).map fun found => (found.1, found.2 ++ tail) := by
  have hsome : ∃ taken rest, (many item).split? text = some (taken, rest) := ⟨_, _, rfl⟩
  obtain ⟨taken, rest, hmany⟩ := hsome
  have hstops := split?_many_stops hitem hmany
  rw [hmany, Option.map_some]
  -- item by item, with the end of the repetition kept: the last item must stop in front of the tail
  refine split?_many_induction (motive := fun text taken rest => item.split? rest = none →
    (many item).split? (text ++ tail) = some (taken, rest ++ tail)) hmany ?_ ?_ hstops
  · intro text hnone
    exact split?_many_of_none (by rw [h, hnone, Option.map_none])
  · intro text taken middle more rest htaken hmore hnone
    refine split?_many_of_some hitem ?_ (hmore hnone)
    rw [h, htaken, Option.map_some]

/-- Characters that a fixed text does not have do not matter behind a text. -/
theorem isPrefixOf?_append_of_not_mem {expected tail : List Char}
    (htail : ∀ c ∈ tail.head?, c ∉ expected) (text : List Char) :
    expected.isPrefixOf? (text ++ tail) = (expected.isPrefixOf? text).map (· ++ tail) := by
  induction expected generalizing text with
  | nil => rfl
  | cons e expected ih =>
      cases text with
      | nil =>
          cases tail with
          | nil => rfl
          | cons c more =>
              have hne : (e == c) = false := by
                rw [beq_eq_false_iff_ne]
                rintro rfl
                exact htail e rfl List.mem_cons_self
              -- the text has ended within the prefix, which the tail does not go on with
              show (if (e == c) = true then expected.isPrefixOf? more else none) = none
              rw [hne]
              rfl
      | cons c more =>
          rw [List.cons_append, List.isPrefixOf?, List.isPrefixOf?]
          split
          · exact ih (fun c hc hmem => htail c hc (List.mem_cons_of_mem _ hmem)) more
          · rfl

/-- **Tokens end where they end.** In front of a character that the pattern avoids, or at the end of
the text, a pattern matches as it matches the text by itself. -/
theorem split?_append_of_avoids {p : Pattern} {excluded tail : List Char}
    (hp : p.avoids excluded = true) (hsteady : p.steady = true)
    (htail : ∀ c ∈ tail.head?, c ∈ excluded) (text : List Char) :
    p.split? (text ++ tail)
      = (p.split? text).map fun found => (found.1, found.2 ++ tail) := by
  induction p generalizing text with
  | one accepts =>
      cases text with
      | nil =>
          cases tail with
          | nil => rfl
          | cons c more =>
              have hnot := List.all_eq_true.mp hp c (htail c rfl)
              have hreject : ¬ accepts c = true := by simpa using hnot
              rw [List.nil_append, split?_one_cons]
              exact if_neg hreject
      | cons c more =>
          rw [List.cons_append, split?_one_cons, split?_one_cons]
          split <;> rfl
  | exactly expected =>
      -- the tail begins with a character that the pattern does not take, so it adds nothing
      have hnone : ∀ c ∈ tail.head?, c ∉ expected := by
        intro c hc hmem
        have hnot := List.all_eq_true.mp hp c (htail c hc)
        rw [List.contains_iff_mem.mpr hmem] at hnot
        cases hnot
      rw [split?_exactly, split?_exactly, isPrefixOf?_append_of_not_mem hnone, Option.map_map,
        Option.map_map]
      rfl
  | seq first second ihfirst ihsecond =>
      obtain ⟨hpfirst, hpsecond⟩ := Bool.and_eq_true_iff.mp hp
      obtain ⟨hsfirst, hssecond⟩ := Bool.and_eq_true_iff.mp hsteady
      rw [split?_seq, split?_seq, ihfirst hpfirst hsfirst]
      rcases first.split? text with _ | ⟨left, middle⟩
      · rfl
      · simp only [Option.map_some]
        rw [ihsecond hpsecond hssecond]
        rcases second.split? middle with _ | ⟨right, rest⟩ <;> rfl
  | alt first second ihfirst ihsecond =>
      obtain ⟨hpfirst, hpsecond⟩ := Bool.and_eq_true_iff.mp hp
      obtain ⟨hsfirst, hssecond⟩ := Bool.and_eq_true_iff.mp hsteady
      rw [split?_alt, split?_alt, ihfirst hpfirst hsfirst]
      rcases first.split? text with _ | found
      · exact ihsecond hpsecond hssecond text
      · rfl
  | many item ih =>
      obtain ⟨htakes, hsitem⟩ := Bool.and_eq_true_iff.mp hsteady
      exact split?_many_append htakes (ih hp hsitem) text
  | optional item ih =>
      rw [split?_optional, split?_optional, ih hp hsteady]
      rcases item.split? text with _ | found <;> rfl
  | «unless» item ih =>
      rw [split?_unless, split?_unless, ih hp hsteady]
      rcases item.split? text with _ | found <;> rfl

/-! ### First characters -/

/-- What never takes a character. -/
def isTest : Pattern → Bool
  | .unless _ => true
  | _ => false

/-- The pattern does not match what begins with the character. -/
def rejects (c : Char) : Pattern → Bool
  | .one accepts => !accepts c
  | .exactly [] => false
  | .exactly (e :: _) => e != c
  | .seq first second => first.rejects c || (first.isTest && second.rejects c)
  | .alt first second => first.rejects c && second.rejects c
  | .many _ | .optional _ | .unless _ => false

/-- A pattern does not match what begins with a character that it rejects. -/
theorem split?_of_rejects {p : Pattern} {c : Char} (hp : p.rejects c = true) (rest : List Char) :
    p.split? (c :: rest) = none := by
  induction p with
  | one accepts => exact if_neg (by simpa [rejects] using hp)
  | exactly expected =>
      cases expected with
      | nil => cases hp
      | cons e more =>
          have hne : (e == c) = false := by simpa [rejects] using hp
          simp [split?_exactly, List.isPrefixOf?, hne]
  | seq first second ihfirst ihsecond =>
      rw [split?_seq]
      rcases Bool.or_eq_true_iff.mp hp with hp | hp
      · rw [ihfirst hp]
      · obtain ⟨htest, hp⟩ := Bool.and_eq_true_iff.mp hp
        rcases hfirst : first.split? (c :: rest) with _ | ⟨left, middle⟩
        · rfl
        · -- a test leaves the text as it is
          cases first with
          | «unless» item =>
              obtain ⟨-, hpair⟩ := split?_unless_eq_some_iff.mp hfirst
              obtain ⟨rfl, rfl⟩ := Prod.mk.inj hpair
              simp only [ihsecond hp]
          | one | exactly | seq | alt | many | optional => cases htest
  | alt first second ihfirst ihsecond =>
      obtain ⟨hpfirst, hpsecond⟩ := Bool.and_eq_true_iff.mp hp
      rw [split?_alt, ihfirst hpfirst]
      exact ihsecond hpsecond
  | many | optional | «unless» => cases hp

end Pattern

end RowFilter.Grammar
