/-
Layout does not matter.

A source that is taken apart into tokens and layout has one tree up to places, the one that the
tokens derive, however it is laid out (`readProgram_of_laidOut`). The scan in front of the
parser sees the brackets of that tree, so it lets all layouts pass or none, and from the
tree on nothing depends on places.
-/
import RowFilter.Expr.Parse
import RowFilter.Proofs.Expr.Derived
import RowFilter.Proofs.Expr.Unplaced
import RowFilter.Proofs.Grammar.Layout

set_option autoImplicit false

namespace RowFilter.Expr

open Grammar
open Grammar.Phrase (Derives)
open List (Forall₂)

variable {source first : List Char} {lexemes : List Lexeme} {tokens : List (List Char)}
  {trees : List Tree} {p q : Phrase}

/-- The tree of a program, up to places, with the trees that its tokens derive. -/
def programOf (trees : List Tree) : Tree :=
  .node .program default (trees ++ [.token .endOfInput default []])

/-- **The tree comes from the tokens.** A source that is taken apart is a program, and its tree is
the one that its tokens derive. -/
theorem readProgram_of_laidOut (h : LaidOut source first lexemes trees) :
    ∃ tree, readProgram source = .ok tree ∧ tree.unplaced = programOf trees := by
  have hrest : unlaid source = spelled lexemes := by rw [unlaid, h.first, Option.getD_some]
  -- the lexemes derive the expression and stand in the text with their layout
  have hoccurs : Phrase.Occurs (lexemes.length + 1) .expression trees (spelled lexemes) [] := by
    refine ⟨?_, lexemes.map Lexeme.text, ?_, h.derives, h.fits.spaced⟩
    · rw [← hrest, unlaid_unlaid]
    · rw [List.length_map]
      omega
  have hclosed : Closed [] := by rintro c ⟨⟩
  have htakes := (predicted_expression _).takes hoccurs hclosed
  rw [← hrest] at htakes
  obtain ⟨span, inner, last, htree, hinner⟩ := htakes.readProgram
  refine ⟨_, htree, ?_⟩
  rw [Tree.unplaced, Tree.unplacedAll_append, hinner]
  rfl

/-- What the scan sees of a program, and what its tree means, depends on the tree up to places. -/
theorem parse_of_unplaced {text text' : List Char} {tree tree' : Tree} {e : Expr}
    (h : readProgram text = .ok tree) (h' : readProgram text' = .ok tree')
    (hunplaced : tree.unplaced = tree'.unplaced) (he : Expr.parse (String.ofList text) = .ok e) :
    ∃ e', Expr.parse (String.ofList text') = .ok e' ∧ Alike e' e := by
  obtain ⟨hscan, read, hread, hmeaning⟩ := parse_eq_ok_iff.mp he
  rw [String.toList_ofList] at hscan hread
  obtain rfl : tree = read := Except.ok.inj (h.symm.trans hread)
  -- the scan sees only the tokens, and these are the same
  have hseen : Brackets.Context.start.seen text' = Brackets.Context.start.seen text := by
    rw [seen_eq_brackets h', seen_eq_brackets h, ← tree'.brackets_unplaced, ← hunplaced,
      tree.brackets_unplaced]
  have hscan' : Brackets.scan text' = .ok () := by
    rw [Brackets.scan_eq_ok_iff] at hscan ⊢
    rwa [hseen]
  -- so are the trees, up to places
  have hagree := agree_ofTree hunplaced
  rw [hmeaning] at hagree
  obtain ⟨e', he', halike⟩ := hagree.exists_of_ok
  refine ⟨e', parse_eq_ok_iff.mpr ?_, halike.symm⟩
  rw [String.toList_ofList]
  exact ⟨hscan', tree', h', he'⟩

/-- **Layout does not matter.** A source that is parsed is made of tokens and of layout between
them; and if gaps between its tokens, or at either end, are replaced by other runs of blanks and
comments that begin with a blank, the source that comes out is parsed too, with the same expression
at other places perhaps. -/
theorem parse_relaid {source : String} {e : Expr} (h : Expr.parse source = .ok e) :
    (∃ first lexemes trees, LaidOut source.toList first lexemes trees) ∧
      ∀ first lexemes trees, LaidOut source.toList first lexemes trees →
        ∀ first' lexemes', Relaid first first' → Forall₂ Lexeme.Relaid lexemes lexemes' →
          ∃ e', Expr.parse (String.ofList (first' ++ spelled lexemes')) = .ok e' ∧ Alike e' e := by
  obtain ⟨-, tree, htree, -⟩ := parse_eq_ok_iff.mp h
  refine ⟨exists_laidOut htree, fun first lexemes trees hlaid first' lexemes' hfirst hlexemes => ?_⟩
  obtain ⟨tree, htree, hunplaced⟩ := readProgram_of_laidOut hlaid
  obtain ⟨tree', htree', hunplaced'⟩ := readProgram_of_laidOut (hlaid.relaid hfirst hlexemes)
  rw [← String.ofList_toList (s := source)] at h
  exact parse_of_unplaced htree htree' (hunplaced.trans hunplaced'.symm) h

/-- An operand alone is a chain of its own. -/
theorem derives_alone (h : Derives p tokens trees) : Derives (.seq p (.many q)) tokens trees := by
  have hnone : Derives (.many q) [] [] := .manyNone
  simpa using h.seq hnone

/-- A quotient of two names, on one line and with a comment at its end. -/
theorem laidOut_quotient : ∃ trees, LaidOut "a/b//x".toList []
    [⟨['a'], []⟩, ⟨['/'], []⟩, ⟨['b'], ['/', '/', 'x']⟩] trees := by
  -- a name is an operand of the division by way of the chain of levels
  have hname : ∀ c, identifier.split? [c] = some ([c], []) →
      ∃ trees, Derives Phrase.unary [[c]] trees := fun c hc =>
    ⟨_, .rule (.seq .manyNone (.rule (derives_alone
      (.altSecond (.altSecond (.altSecond (.altSecond (.token hc))))))))⟩
  obtain ⟨left, ha⟩ := hname 'a' rfl
  obtain ⟨right, hb⟩ := hname 'b' rfl
  have hslash : Derives Phrase.productOperator [['/']] _ := .altSecond (.altFirst (.token rfl))
  have hquotient : Derives Phrase.multiplication [['a'], ['/'], ['b']] _ :=
    .rule (ha.seq (.manyMore (hslash.seq hb) .manyNone))
  refine ⟨_, rfl, ?_, .expression (.rule (.rule (derives_alone (.rule (derives_alone
    (.rule (derives_alone (.rule (derives_alone hquotient)))))))))⟩
  refine .cons (by simp) ?_ rfl (.cons (by simp) ?_ rfl (.cons (by simp) ?_ rfl .nil))
  · rintro - _ ⟨⟩
    rfl
  · intro hword
    cases hword.1 '/' List.mem_cons_self
  · rintro - _ ⟨⟩
    rfl

/-- A comment with a quote and open brackets in it moves next to the division. -/
theorem parse_relaid_quotient : ∃ e, Expr.parse "a/b//x" = .ok e ∧
    ∃ e', Expr.parse " a\t//'([\n/b//x" = .ok e' ∧ Alike e' e := by
  have hparsed : (Expr.parse "a/b//x").isOk = true := by decide +kernel
  obtain ⟨e, he⟩ : ∃ e, Expr.parse "a/b//x" = .ok e := by
    rcases hresult : Expr.parse "a/b//x" with err | e
    · rw [hresult] at hparsed
      cases hparsed
    · exact ⟨e, rfl⟩
  obtain ⟨trees, hlaid⟩ := laidOut_quotient
  have hblank : IsLayout [' '] := .blank rfl .nil
  have hbody : '\n' ∉ ['\x27', '(', '['] := by decide
  -- what looks like an open string is within a comment
  have hcomment : IsLayout "\t//'([\n".toList := .blank rfl (.comment hbody .nil)
  refine ⟨e, he, (parse_relaid he).2 _ _ trees hlaid [' ']
    [⟨['a'], "\t//'([\n".toList⟩, ⟨['/'], []⟩, ⟨['b'], ['/', '/', 'x']⟩]
    (.inr ⟨hblank, ' ', rfl, rfl⟩) (.cons ⟨rfl, .inr ⟨hcomment, '\t', rfl, rfl⟩⟩ ?_)⟩
  exact .cons ⟨rfl, .inl rfl⟩ (.cons ⟨rfl, .inl rfl⟩ .nil)

end RowFilter.Expr
