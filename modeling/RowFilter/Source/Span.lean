/-
Places in source text. Offsets count bytes of the UTF-8 form; lines and columns
count from one, a column being a character, so a tab or a character of four bytes
is one column wide.
-/

set_option autoImplicit false

namespace RowFilter

/-- A place between two characters of a source text. -/
structure Position where
  offset : Nat
  line : Nat
  column : Nat
  deriving DecidableEq, Repr

namespace Position

/-- The place before the first character. -/
def start : Position := ⟨0, 1, 1⟩

/-- The place behind one more character. Only a line feed starts a line; a carriage
return is a character like others. -/
def advance (p : Position) (c : Char) : Position :=
  if c = '\n' then ⟨p.offset + c.utf8Size, p.line + 1, 1⟩
  else ⟨p.offset + c.utf8Size, p.line, p.column + 1⟩

/-- The place behind a run of characters. -/
def advanceBy (p : Position) (text : List Char) : Position := text.foldl advance p

end Position

/-- The bytes from `start` up to `stop`, with the line and column of the first. -/
structure Span where
  start : Nat
  stop : Nat
  line : Nat
  column : Nat
  deriving DecidableEq, Repr, Inhabited

namespace Span

/-- What lies between two places. -/
def between (first last : Position) : Span :=
  ⟨first.offset, last.offset, first.line, first.column⟩

/-- The smallest span that covers both; of two with one start the line and column
of the left one are kept. -/
def merge (a b : Span) : Span :=
  if a.start ≤ b.start then ⟨a.start, max a.stop b.stop, a.line, a.column⟩
  else ⟨b.start, max b.stop a.stop, b.line, b.column⟩

end Span

/-- What is left of a source text, and where it begins. -/
structure Cursor where
  position : Position
  rest : List Char

namespace Cursor

/-- The whole of a text. -/
def ofText (text : List Char) : Cursor := ⟨.start, text⟩

/-- The cursor behind `taken`, with `rest` left over. -/
def past (c : Cursor) (taken rest : List Char) : Cursor := ⟨c.position.advanceBy taken, rest⟩

end Cursor

end RowFilter
