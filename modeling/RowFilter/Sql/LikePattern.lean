/-
Patterns for `LIKE`. The tests for a part, a beginning and an end of a text become
patterns in which the text itself stands for nothing but itself.
-/

set_option autoImplicit false

namespace RowFilter.Sql

namespace LikePattern

/-- A backslash put before every occurrence of one character. -/
def escapeEvery (special : Char) (text : List Char) : List Char :=
  text.flatMap fun c => if c = special then ['\\', c] else [c]

/-- The characters that a pattern may give a meaning. The backslash comes first, so
that the backslashes added for the others are not doubled. -/
def specials : List Char := ['\\', '%', '_', '[', ']']

/-- A text as a pattern that matches just this text, one special character after
the other. Escaping twice is not the same as escaping once. -/
def escape (text : String) : String :=
  String.ofList (specials.foldl (fun t c => escapeEvery c t) text.toList)

end LikePattern

/-- The tests on strings that become a pattern. -/
inductive StringTest where
  | contains
  | startsWith
  | endsWith
  deriving DecidableEq, Repr, Inhabited

namespace StringTest

/-- The test that a function of the expression language is. -/
def ofFunction? : String → Option StringTest
  | "contains" => some .contains
  | "startsWith" => some .startsWith
  | "endsWith" => some .endsWith
  | _ => none

/-- The pattern of a test for a text, open where the text may go on. -/
def pattern (test : StringTest) (text : String) : String :=
  let escaped := LikePattern.escape text
  match test with
  | .contains => "%" ++ escaped ++ "%"
  | .startsWith => escaped ++ "%"
  | .endsWith => "%" ++ escaped

end StringTest

end RowFilter.Sql
