/-
How deep the parser descends.

The parser descends once for each expression inside another one, and the scan in front of it is
there to bound this. `Active` says how many expressions are open at once where one is asked for,
on the ways that the parser gives up as well as on the one that it takes. Brackets are what
leads from one expression to the next, so the scan has one bracket less open than the parser
has expressions (`Active.exists_covers`), and a text that the scan accepts is read to its end, or
to its failure, on a bounded number of levels (`Active.le_of_scan`).
-/
import RowFilter.Proofs.Grammar.Nesting

set_option autoImplicit false

namespace RowFilter.Grammar

open Brackets (Context maxNesting)

/-- Where the parser may have an expression open, and how many are open there with it: one for
the program, and one more for each expression that another one asks for. It makes no
difference whether the parser finds an expression there, or takes another way in the end. -/
inductive Active (text : List Char) : Nat → Cursor → Prop
  | outermost {c : Cursor} (h : c ∈ Phrase.program.asks expression? (.ofText text)) :
      Active text 1 c
  | inside {n : Nat} {c d : Cursor} (hc : Active text n c)
      (hd : d ∈ Phrase.expressionBody.asks expression? c) : Active text (n + 1) d

namespace Active

variable {text : List Char} {n : Nat} {c : Cursor}

/-- At least the expression of the program is open. -/
theorem pos (h : Active text n c) : 1 ≤ n := by
  cases h with
  | outermost h => exact Nat.le_refl 1
  | inside hc hd => exact Nat.succ_le_succ (Nat.zero_le _)

/-- In front of an expression the scan has as many brackets open as there are expressions open
around it. -/
theorem exists_covers (h : Active text n c) :
    ∃ brackets k, Covers .start (.ofText text) brackets k c ∧ Meets true k c
      ∧ Rises (n - 1) brackets := by
  induction h with
  | outermost h =>
      obtain ⟨k, hcovers, hmeets⟩ := exists_meets_start text
      rcases Phrase.mem_asks_seq_iff.mp h with h | ⟨_, start, hstart, h⟩
      · -- the start of the program asks for nothing
        cases h
      · obtain ⟨-, rest, hrest, rfl⟩ := Phrase.matched?_symbol_eq_some_iff.mp hstart
        obtain rfl : text = rest := hrest
        rcases Phrase.mem_asks_seq_iff.mp h with h | ⟨_, _, -, h⟩
        · obtain rfl := List.mem_singleton.mp h
          exact ⟨[], k, hcovers, hmeets, rises_nil⟩
        · cases h
  | @inside n c d hc hd ih =>
      obtain ⟨v, k, hcovers, hmeets, hrises⟩ := ih
      -- one more bracket at least stands between an expression and one that it asks for
      obtain ⟨w, k', hcovers', hmeets', hrises'⟩ :=
        (Phrase.keeps_expressionBody led_expression).asked k _ _ hmeets hd
      refine ⟨v ++ w, k', hcovers.trans hcovers', hmeets', ?_⟩
      have hlevels := hrises.append hrises'
      rwa [Nat.sub_add_cancel hc.pos] at hlevels

/-- A text that the scan accepts does not have too many expressions open at once. -/
theorem le_of_scan (h : Active text n c) (hscan : Brackets.scan text = .ok ()) :
    n ≤ maxNesting + 1 := by
  obtain ⟨brackets, k, ⟨taken, hmoves, -, hseen⟩, -, hrises⟩ := h.exists_covers
  have hpeak := (Brackets.scan_eq_ok_iff text).mp hscan
  have hall : Context.start.seen text = brackets ++ (Context.start.after taken).seen c.rest := by
    have htext : text = taken ++ c.rest := hmoves.rest_eq
    rw [htext, Context.seen_append, hseen]
  have hlevel := Brackets.level_le_peak 0 brackets
  rw [hrises 0] at hlevel
  rw [hall, Brackets.deepest, Brackets.peak_append] at hpeak
  omega

/-- The levels that are left are enough, and what would be read below them is never asked for. -/
theorem readExpression_eq (hscan : Brackets.scan text = .ok ()) (bottom : Reader) (depth : Nat)
    (h : Active text n c) (hdepth : n + depth = maxNesting + 2) (f : Frontier) :
    readFully c f = readExpression bottom depth c f := by
  induction depth generalizing n c f with
  | zero =>
      have hle := h.le_of_scan hscan
      omega
  | succ depth ih =>
      rw [readFully_eq, readExpression]
      refine Phrase.read_congr readFully_found Phrase.expressionBody c (fun d hd f => ?_) f
      exact ih (h.inside hd) (by omega) f

end Active

/-- A text that the scan accepts is read on `maxNesting + 1` levels, whatever stands below. -/
theorem read_eq_of_scan {text : List Char} (hscan : Brackets.scan text = .ok ())
    (bottom : Reader) (f : Frontier) :
    Phrase.program.read (readExpression nothing (text.length + 1)) (.ofText text) f
      = Phrase.program.read (readExpression bottom (maxNesting + 1)) (.ofText text) f := by
  rw [read_program_eq]
  refine Phrase.read_congr readFully_found Phrase.program _ (fun d hd f => ?_) f
  exact Active.readExpression_eq hscan bottom _ (.outermost hd) (by omega) f

/-- **The scan agrees with the grammar.** A text that the grammar derives is accepted if and only
if the brackets of its derivation nest no deeper than allowed. And in every text that is accepted,
whether the grammar derives it or not, no more than one expression over that number is ever open
at once, ways that are given up included: whatever an expression one level further down were read
as, all readings would be the same. -/
theorem scan_agrees_with_grammar (text : List Char) :
    (∀ tree, readProgram text = .ok tree →
      (Brackets.scan text = .ok () ↔ Brackets.deepest tree.brackets ≤ maxNesting))
    ∧ (Brackets.scan text = .ok () →
      (∀ n c, Active text n c → n ≤ maxNesting + 1)
      ∧ ∀ (bottom : Reader) (f : Frontier),
          Phrase.program.read (readExpression nothing (text.length + 1)) (.ofText text) f
            = Phrase.program.read (readExpression bottom (maxNesting + 1)) (.ofText text) f) := by
  refine ⟨fun tree htree => ?_, fun hscan => ⟨fun n c h => h.le_of_scan hscan,
    fun bottom f => read_eq_of_scan hscan bottom f⟩⟩
  rw [Brackets.scan_eq_ok_iff, seen_eq_brackets htree]

/-- A call with a list in it is derived and accepted, and the element of the list is the third
expression that is open at once. -/
theorem scan_agrees_with_grammar_call :
    (∃ tree, readProgram "f([x])".toList = .ok tree
        ∧ (Brackets.scan "f([x])".toList = .ok () ↔ Brackets.deepest tree.brackets ≤ maxNesting))
      ∧ Brackets.scan "f([x])".toList = .ok ()
      ∧ ∃ c, Active "f([x])".toList 3 c ∧ 3 ≤ maxNesting + 1 := by
  obtain ⟨tree, htree⟩ : ∃ tree, readProgram "f([x])".toList = .ok tree := ⟨_, rfl⟩
  have hscan : Brackets.scan "f([x])".toList = .ok () := rfl
  obtain ⟨hderived, haccepted⟩ := scan_agrees_with_grammar "f([x])".toList
  -- the call, the list in it and the element of the list
  have hcall : Active "f([x])".toList 1 ⟨⟨0, 1, 1⟩, "f([x])".toList⟩ :=
    .outermost List.mem_cons_self
  have hlist : Active "f([x])".toList 2 ⟨⟨2, 1, 3⟩, "[x])".toList⟩ :=
    hcall.inside List.mem_cons_self
  have helement : Active "f([x])".toList 3 ⟨⟨3, 1, 4⟩, "x])".toList⟩ :=
    hlist.inside List.mem_cons_self
  exact ⟨⟨tree, htree, hderived tree htree⟩, hscan, _, helement, (haccepted hscan).1 3 _ helement⟩

end RowFilter.Grammar
