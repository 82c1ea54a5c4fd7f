/-
Parse trees: which rules matched where. A token keeps the text it took, any other
rule the nodes of the rules inside it.
-/
import RowFilter.Grammar.Rule
import RowFilter.Source.Span

set_option autoImplicit false

namespace RowFilter.Grammar

inductive Tree where
  | token (rule : Rule) (span : Span) (text : List Char)
  | node (rule : Rule) (span : Span) (children : List Tree)
  deriving Repr, Inhabited

namespace Tree

def rule : Tree → Rule
  | .token r _ _ => r
  | .node r _ _ => r

def span : Tree → Span
  | .token _ s _ => s
  | .node _ s _ => s

def children : Tree → List Tree
  | .token _ _ _ => []
  | .node _ _ cs => cs

/-- The text of a token; nodes above tokens keep none. -/
def text : Tree → List Char
  | .token _ _ t => t
  | .node _ _ _ => []

end Tree

end RowFilter.Grammar
