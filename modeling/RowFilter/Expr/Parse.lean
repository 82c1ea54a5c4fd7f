/-
Source text to expression: first the brackets are counted, then the grammar is
matched, then the tree becomes an expression. The first stage that refuses the
text decides the error.
-/
import RowFilter.Expr.OfTree
import RowFilter.Grammar.Filter
import RowFilter.Source.Brackets

set_option autoImplicit false

namespace RowFilter

/-- The expression a source text spells. -/
def Expr.parse (source : String) : Except ParseError Expr :=
  let text := source.toList
  match Brackets.scan text with
  | .error place => .error ⟨.tooDeep Brackets.maxNesting, place.line, place.column⟩
  | .ok () =>
    match Grammar.readProgram text with
    | .error failure =>
      .error ⟨.grammar failure.attempts, failure.position.line, failure.position.column⟩
    | .ok tree => ofTree tree

/-- A text is parsed if its brackets are few enough, it is a program, and its tree means the
expression. -/
theorem Expr.parse_eq_ok_iff {source : String} {e : Expr} :
    Expr.parse source = .ok e ↔ Brackets.scan source.toList = .ok () ∧
      ∃ tree, Grammar.readProgram source.toList = .ok tree ∧ ofTree tree = .ok e := by
  rw [Expr.parse]
  rcases Brackets.scan source.toList with place | ⟨⟩
  · exact iff_of_false (by rintro ⟨⟩) (by rintro ⟨⟨⟩, _⟩)
  · rcases Grammar.readProgram source.toList with failure | tree
    · exact iff_of_false (by rintro ⟨⟩) (by rintro ⟨_, _, ⟨⟩, _⟩)
    · exact ⟨fun h => ⟨rfl, tree, rfl, h⟩, by rintro ⟨-, _, ⟨⟩, h⟩; exact h⟩

end RowFilter
