/-
How deep brackets may nest.

Before a source text is parsed, its round and square brackets are counted: the
parser descends once per level, so a bound on the levels bounds the descent. The
scan knows quoted literals and comments, whose brackets do not count, and nothing
else of the language; a text whose brackets do not match is left to the parser.

The scan keeps its own line and column. A character that an escape skips is one
column wide even if it is a line feed, and the characters of a comment have no
width; so places behind such text may differ from those of spans.
-/

set_option autoImplicit false

namespace RowFilter.Brackets

/-- The deepest nesting of brackets that is accepted. -/
def maxNesting : Nat := 64

/-- What the scan is inside of. -/
inductive Mode where
  | code
  /-- Behind a slash, which a second one makes a comment. -/
  | slash
  | comment
  | quoted (delimiter : Char) (raw : Bool)
  /-- Behind a backslash in a literal that is not raw. -/
  | escaped (delimiter : Char)
  deriving DecidableEq, Repr

structure State where
  mode : Mode
  depth : Nat
  line : Nat
  column : Nat
  /-- Whether the last character was an `r` or `R`, which makes a literal raw. -/
  rawMark : Bool
  deriving DecidableEq, Repr

def State.start : State := ⟨.code, 0, 1, 0, false⟩

/-- The place of a bracket that opens one level too many. -/
structure TooDeep where
  line : Nat
  column : Nat
  deriving DecidableEq, Repr

/-- Counting one character into line and column. -/
def State.count (s : State) (c : Char) : State :=
  if c = '\n' then { s with line := s.line + 1, column := 0 }
  else { s with column := s.column + 1 }

/-- One character outside of literals and comments, already counted. -/
def State.code (s : State) (c : Char) : Except TooDeep State :=
  let next := { s with mode := .code, rawMark := c == 'r' || c == 'R' }
  if c = '\x22' ∨ c = '\x27' then .ok { next with mode := .quoted c s.rawMark }
  else if c = '/' then .ok { next with mode := .slash }
  else if c = '(' ∨ c = '[' then
    -- the place is that of the bracket: it has been counted already
    if maxNesting ≤ s.depth then .error ⟨s.line, s.column⟩
    else .ok { next with depth := s.depth + 1 }
  else if c = ')' ∨ c = ']' then .ok { next with depth := s.depth - 1 }
  else .ok next

/-- One character. -/
def State.step (s : State) (c : Char) : Except TooDeep State :=
  match s.mode with
  | .code => (s.count c).code c
  | .slash => if c = '/' then .ok { s with mode := .comment } else (s.count c).code c
  | .comment => if c = '\n' then (s.count c).code c else .ok s
  | .quoted delimiter raw =>
    let next := { s.count c with rawMark := c == 'r' || c == 'R' }
    if c = '\\' ∧ raw = false then .ok { next with mode := .escaped delimiter }
    -- a literal that is not closed ends with its line
    else if c = delimiter ∨ c = '\n' then .ok { next with mode := .code }
    else .ok next
  | .escaped delimiter =>
    .ok { s with mode := .quoted delimiter false, column := s.column + 1 }

/-- The scan from a state on. -/
def scanFrom : State → List Char → Except TooDeep Unit
  | _, [] => .ok ()
  | s, c :: rest =>
    match s.step c with
    | .error e => .error e
    | .ok next => scanFrom next rest

/-- The first bracket of a text that opens a level beyond the deepest, if any. -/
def scan (text : List Char) : Except TooDeep Unit := scanFrom .start text

end RowFilter.Brackets
