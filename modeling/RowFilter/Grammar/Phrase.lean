/-
Phrases: how tokens are put together.

A phrase is matched at a cursor. Between the parts of a sequence and between the
items of a repetition layout is skipped, blanks and comments, also where the next
part takes nothing; so the span of a node may include layout behind its last
token. Choices and repetitions commit to their first success, and a part that
fails gives back what it took, but not what it told the frontier.

The grammar is recursive in one place only: inside brackets stands an expression
again. A phrase names that place `expression`, and what it means is a parameter
of matching; the recursion is closed outside, one level of nesting at a time.
-/
import RowFilter.Grammar.Frontier
import RowFilter.Grammar.Pattern
import RowFilter.Grammar.Tree

set_option autoImplicit false

namespace RowFilter.Grammar

inductive Phrase where
  /-- A fixed text that leaves no node. -/
  | symbol (expected : List Char)
  /-- A token spelled by a pattern. -/
  | token (rule : Rule) (pattern : Pattern)
  /-- The end of the text, itself a token without characters. -/
  | endOfText
  /-- A rule with a node of its own. -/
  | rule (name : Rule) (body : Phrase)
  /-- An expression, one level deeper. -/
  | expression
  | seq (first second : Phrase)
  | alt (first second : Phrase)
  | many (item : Phrase)
  | optional (item : Phrase)

/-! ## Layout -/

/-- A comment runs from two slashes to the end of the line. -/
def comment : Pattern := .seq (.exactly ['/', '/']) (.many (.noneOf ['\n']))

/-- The four blanks of the language. -/
def blank : Pattern := .one fun c => c == ' ' || c == '\t' || c == '\r' || c == '\n'

/-- What may stand between tokens. -/
def layout : Pattern := .many (.alt blank comment)

/-- The cursor behind whatever layout stands at it. -/
def skipLayout (c : Cursor) : Cursor :=
  match layout.split? c.rest with
  | some (taken, rest) => c.past taken rest
  | none => c

/-! ## Matching -/

/-- The outcome of matching: the nodes found and the cursor behind them, if the
phrase matched, and the frontier in either case. -/
structure Reading where
  found : Option (List Tree × Cursor)
  frontier : Frontier

/-- A way to match at a cursor, given the frontier so far. -/
abbrev Reader := Cursor → Frontier → Reading

/-- As many items as match one after the other, at most as many as `bound` has
characters. -/
def repeatedly (item : Reader) :
    (bound : List Char) → Cursor → Frontier → List Tree × Cursor × Frontier
  | [], c, f => ([], c, f)
  | _ :: bound, c, f =>
    match item c f with
    | ⟨none, f⟩ => ([], c, f)
    | ⟨some (trees, c), f⟩ =>
      let (more, c, f) := repeatedly item bound c f
      (trees ++ more, c, f)

/-- A token from what its pattern took, or its failure. -/
def tokenReading (rule : Rule) (c : Cursor) (f : Frontier) :
    Option (List Char × List Char) → Reading
  | some (taken, rest) =>
    let next := c.past taken rest
    ⟨some ([.token rule (.between c.position next.position) taken], next), f⟩
  | none => ⟨none, f.failed f rule c.position⟩

/-- Matching a phrase, `nested` being the meaning of an expression inside it. Every
item of a repetition takes at least one character, so the text in front of the first
one has enough characters for the others and for the attempt that fails. -/
def Phrase.read (nested : Reader) : Phrase → Reader
  | .symbol expected, c, f =>
    ⟨(expected.isPrefixOf? c.rest).map fun rest => ([], c.past expected rest), f⟩
  | .token name pattern, c, f => tokenReading name c f (pattern.split? c.rest)
  | .endOfText, c, f =>
    tokenReading .endOfInput c f (if c.rest.isEmpty then some ([], []) else none)
  | .rule name body, c, f =>
    match body.read nested c f with
    | ⟨some (trees, next), f⟩ =>
      ⟨some ([.node name (.between c.position next.position) trees], next), f⟩
    | ⟨none, after⟩ => ⟨none, f.failed after name c.position⟩
  | .expression, c, f => nested c f
  | .seq first second, c, f =>
    match first.read nested c f with
    | ⟨none, f⟩ => ⟨none, f⟩
    | ⟨some (left, c), f⟩ =>
      match second.read nested (skipLayout c) f with
      | ⟨none, f⟩ => ⟨none, f⟩
      | ⟨some (right, c), f⟩ => ⟨some (left ++ right, c), f⟩
  | .alt first second, c, f =>
    match first.read nested c f with
    -- back to the same cursor, but with the frontier of the first alternative
    | ⟨none, f⟩ => second.read nested c f
    | reading => reading
  | .many item, c, f =>
    match item.read nested c f with
    | ⟨none, f⟩ => ⟨some ([], c), f⟩
    | ⟨some (trees, next), f⟩ =>
      let (more, next, f) :=
        repeatedly (fun c f => item.read nested (skipLayout c) f) c.rest next f
      ⟨some (trees ++ more, next), f⟩
  | .optional item, c, f =>
    match item.read nested c f with
    | ⟨none, f⟩ => ⟨some ([], c), f⟩
    | reading => reading

/-! ## Shorthands -/

namespace Phrase

/-- A sequence of several parts. -/
def parts : Phrase → List Phrase → Phrase
  | p, [] => p
  | p, q :: more => .seq p (parts q more)

/-- The first that matches of several alternatives. -/
def first : Phrase → List Phrase → Phrase
  | p, [] => p
  | p, q :: more => .alt p (first q more)

/-- An operator with a node of its own. -/
def operator (rule : Rule) (spelling : String) : Phrase :=
  .token rule (.exactly spelling.toList)

/-- Operands of one level with operators between them. -/
def chain (rule : Rule) (operand operators : Phrase) : Phrase :=
  .rule rule (.seq operand (.many (.seq operators operand)))

end Phrase

end RowFilter.Grammar
