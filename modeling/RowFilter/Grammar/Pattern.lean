/-
Patterns: how single tokens are spelled.

A pattern is matched at the front of a text and commits to its first success:
a choice takes the first alternative that matches, a repetition as many items as
there are. Blanks have no special standing inside a token.
-/

set_option autoImplicit false

namespace RowFilter.Grammar

inductive Pattern where
  /-- One character of a class. -/
  | one (accepts : Char → Bool)
  /-- A fixed text. -/
  | exactly (expected : List Char)
  | seq (first second : Pattern)
  | alt (first second : Pattern)
  | many (item : Pattern)
  | optional (item : Pattern)
  /-- Takes nothing, and matches where `item` does not. -/
  | unless (item : Pattern)

namespace Pattern

/-- As many items as match one after the other, at most as many as `bound` has
characters. -/
def repeatedly (item : List Char → Option (List Char × List Char)) :
    (bound : List Char) → List Char → List Char × List Char
  | [], text => ([], text)
  | _ :: bound, text =>
    match item text with
    | none => ([], text)
    | some (taken, rest) =>
      let (more, rest) := repeatedly item bound rest
      (taken ++ more, rest)

/-- What a pattern takes from the front of a text, and what it leaves. Every item
of a repetition takes at least one character in the patterns used here, so the text
itself bounds their number. -/
def split? : Pattern → List Char → Option (List Char × List Char)
  | .one accepts, text =>
    match text with
    | [] => none
    | c :: rest => if accepts c then some ([c], rest) else none
  | .exactly expected, text => (expected.isPrefixOf? text).map fun rest => (expected, rest)
  | .seq first second, text =>
    match first.split? text with
    | none => none
    | some (left, rest) =>
      match second.split? rest with
      | none => none
      | some (right, rest) => some (left ++ right, rest)
  -- the first success is final: what follows never leads back to the second
  | .alt first second, text =>
    match first.split? text with
    | none => second.split? text
    | some found => some found
  | .many item, text => some (repeatedly item.split? text text)
  | .optional item, text => some ((item.split? text).getD ([], text))
  | .unless item, text =>
    match item.split? text with
    | none => some ([], text)
    | some _ => none

/-! ## What each kind of pattern takes -/

section

variable {item : List Char → Option (List Char × List Char)} {first second p : Pattern}
  {accepts : Char → Bool} {expected bound text rest : List Char} {c : Char}

/-- The bound comes first: where it is used up nothing more is taken, whatever the text is. -/
theorem repeatedly_nil : repeatedly item [] text = ([], text) := rfl

/-- One item more, as long as the bound has a character left for it. -/
theorem repeatedly_cons : repeatedly item (c :: bound) text =
    match item text with
    | none => ([], text)
    | some (taken, rest) =>
      (taken ++ (repeatedly item bound rest).1, (repeatedly item bound rest).2) := rfl

/-- There is no character to take at the end of a text. -/
theorem split?_one_nil : (one accepts).split? [] = none := rfl

/-- In front of a character the question is whether it is accepted. -/
theorem split?_one_cons : (one accepts).split? (c :: rest) =
    if accepts c then some ([c], rest) else none := rfl

/-- An expected text is taken as a whole or not at all. -/
theorem split?_exactly : (exactly expected).split? text =
    (expected.isPrefixOf? text).map fun rest => (expected, rest) := rfl

/-- The second pattern goes on where the first one has stopped, and both are taken together. -/
theorem split?_seq : (seq first second).split? text =
    match first.split? text with
    | none => none
    | some (left, rest) =>
      match second.split? rest with
      | none => none
      | some (right, rest) => some (left ++ right, rest) := rfl

/-- The second alternative is asked only where the first one does not match. -/
theorem split?_alt : (alt first second).split? text =
    match first.split? text with
    | none => second.split? text
    | some found => some found := rfl

/-- The text bounds the number of its own items. -/
theorem split?_many : (many p).split? text = some (repeatedly p.split? text text) := rfl

/-- An optional item that does not match takes nothing and does not fail. -/
theorem split?_optional : (optional p).split? text = some ((p.split? text).getD ([], text)) :=
  rfl

/-- What is forbidden is looked for and not taken. -/
theorem split?_unless : («unless» p).split? text =
    match p.split? text with
    | none => some ([], text)
    | some _ => none := rfl

end

/-! ## Shorthands -/

/-- One given character. -/
def char (c : Char) : Pattern := .one (· == c)

/-- One character that is none of `excluded`. -/
def noneOf (excluded : List Char) : Pattern := .one fun c => !excluded.contains c

/-- Any one character. -/
def any : Pattern := .one fun _ => true

/-- One item or more. -/
def some1 (item : Pattern) : Pattern := .seq item (.many item)

/-- The first that matches of a list of patterns. -/
def first : Pattern → List Pattern → Pattern
  | p, [] => p
  | p, q :: more => .alt p (first q more)

end Pattern

end RowFilter.Grammar
