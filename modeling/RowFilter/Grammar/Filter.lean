/-
The grammar of filter expressions.

Precedence, loosest first: `||`, `&&`, relations, sums, products, the operators
in front of an operand, then member access and calls. Alternatives are tried in
the order in which they stand, so `<=` stands before `<`, a call before a name,
and a double before an integer.
-/
import RowFilter.Grammar.Phrase

set_option autoImplicit false

namespace RowFilter.Grammar

/-! ## Tokens -/

/-- The characters of names, behind the first. -/
def identChar : Pattern := .one fun c => c.isAlphanum || c == '_'

/-- A word that is not just the beginning of a longer one. -/
def word (letters : String) : Pattern := .seq (.exactly letters.toList) (.unless identChar)

def digit : Pattern := .one Char.isDigit

def digits : Pattern := .some1 digit

def hexDigit : Pattern :=
  .one fun c => c.isDigit || ('a' ≤ c && c ≤ 'f') || ('A' ≤ c && c ≤ 'F')

/-- Either case of a letter. -/
def letter (lower upper : Char) : Pattern := .alt (.char lower) (.char upper)

def hexDigits : Pattern := .seq (.char '0') (.seq (letter 'x' 'X') (.some1 hexDigit))

def exponent : Pattern :=
  .seq (letter 'e' 'E') (.seq (.optional (.alt (.char '+') (.char '-'))) digits)

/-- A raw literal: everything up to the next delimiter, on one line. -/
def rawBody (delimiter : Char) : Pattern :=
  .seq (.char delimiter) (.seq (.many (.noneOf [delimiter, '\n'])) (.char delimiter))

def rawString : Pattern := .seq (letter 'r' 'R') (.alt (rawBody '\x22') (rawBody '\x27'))

/-- A literal with escapes: a backslash takes the next character with it, even a
delimiter or the end of the line. -/
def quotedBody (delimiter : Char) : Pattern :=
  .seq (.char delimiter)
    (.seq (.many (.alt (.seq (.char '\\') .any) (.noneOf [delimiter, '\\', '\n'])))
      (.char delimiter))

def quotedString : Pattern := .alt (quotedBody '\x22') (quotedBody '\x27')

def stringLiteral : Pattern := .alt rawString quotedString

def bytesLiteral : Pattern := .seq (letter 'b' 'B') (.alt rawString quotedString)

/-- A number with a point or an exponent; digits before the point may be missing. -/
def doubleLiteral : Pattern :=
  .first (.seq digits (.seq (.char '.') (.seq digits (.optional exponent))))
    [.seq digits exponent, .seq (.char '.') (.seq digits (.optional exponent))]

def uintLiteral : Pattern := .seq (.alt hexDigits digits) (letter 'u' 'U')

def intLiteral : Pattern := .alt hexDigits digits

def booleanLiteral : Pattern :=
  .seq (.alt (.exactly "true".toList) (.exactly "false".toList)) (.unless identChar)

/-- The words that are no names. -/
def reserved : Pattern :=
  .first (.exactly "true".toList)
    [.exactly "false".toList, .exactly "null".toList, .exactly "in".toList]

/-- A name: letters, digits and underscores, no digit first, no reserved word. -/
def identifier : Pattern :=
  .seq (.unless (.seq reserved (.unless identChar)))
    (.seq (.one fun c => c.isAlpha || c == '_') (.many identChar))

/-! ## Operators -/

namespace Phrase

def orOperator : Phrase := operator .opOr "||"

def andOperator : Phrase := operator .opAnd "&&"

def relationOperator : Phrase :=
  first (operator .opEq "==")
    [operator .opNe "!=", operator .opLe "<=", operator .opGe ">=", operator .opLt "<",
     operator .opGt ">", .token .opIn (word "in")]

def sumOperator : Phrase := first (operator .opAdd "+") [operator .opSub "-"]

def productOperator : Phrase :=
  first (operator .opMul "*") [operator .opDiv "/", operator .opMod "%"]

def frontOperator : Phrase := first (operator .opNot "!") [operator .opNeg "-"]

/-! ## Phrases -/

def ident : Phrase := .token .ident identifier

def literal : Phrase :=
  first (.token .litNull (word "null"))
    [.token .litBoolean booleanLiteral, .token .litBytes bytesLiteral,
     .token .litString stringLiteral, .token .litDouble doubleLiteral,
     .token .litUint uintLiteral, .token .litInt intLiteral]

/-- A fixed mark without a node. -/
def mark (c : Char) : Phrase := .symbol [c]

/-- Expressions with commas between them. -/
def arguments : Phrase := .seq .expression (.many (.seq (mark ',') .expression))

def memberCall : Phrase :=
  .rule .memberCall
    (parts (mark '.') [ident, mark '(', .optional arguments, mark ')'])

def fieldSelect : Phrase := .rule .fieldSelect (.seq (mark '.') ident)

def globalCall : Phrase :=
  .rule .globalCall (parts ident [mark '(', .optional arguments, mark ')'])

/-- A list, which alone of the bracketed phrases allows a comma at its end. -/
def listLiteral : Phrase :=
  .rule .listLiteral
    (parts (mark '[')
      [.optional
        (parts .expression [.many (.seq (mark ',') .expression), .optional (mark ',')]),
       mark ']'])

def primary : Phrase :=
  -- a name in front of a bracket is a call, so a name by itself is tried last
  first globalCall
    [listLiteral, parts (mark '(') [.expression, mark ')'], literal, ident]

def member : Phrase := .rule .member (.seq primary (.many (.alt memberCall fieldSelect)))

def unary : Phrase := .rule .unary (.seq (.many frontOperator) member)

def multiplication : Phrase := chain .multiplication unary productOperator

def addition : Phrase := chain .addition multiplication sumOperator

def relation : Phrase := chain .relation addition relationOperator

def logicalAnd : Phrase := chain .logicalAnd relation andOperator

def logicalOr : Phrase := chain .logicalOr logicalAnd orOperator

/-- What an expression is, in terms of the expressions inside its brackets. -/
def expressionBody : Phrase := .rule .expression logicalOr

/-- A program is an expression with nothing but layout around it. -/
def program : Phrase :=
  .rule .program (parts (.symbol []) [.expression, .endOfText])

end Phrase

/-! ## Reading a program -/

/-- Expressions nested at most `depth` deep; one that is nested deeper is `bottom`. -/
def readExpression (bottom : Reader) : (depth : Nat) → Reader
  | 0, c, f => bottom c f
  | depth + 1, c, f => Phrase.expressionBody.read (readExpression bottom depth) c f

/-- The reader that matches nowhere and tells the frontier nothing. -/
def nothing : Reader := fun _ f => ⟨none, f⟩

/-- Where a parse failed for good, and what was expected there. -/
structure Failure where
  position : Position
  attempts : List Rule

/-- The parse tree of a program. Every level of nesting has a bracket of its own, so
one level more than there are characters is never reached. -/
def readProgram (source : List Char) : Except Failure Tree :=
  let reading := Phrase.program.read (readExpression nothing (source.length + 1))
    (.ofText source) .start
  match reading.found with
  | some (tree :: _, _) => .ok tree
  -- what is reported is the furthest place that has been reached, wherever the attempt ended
  | _ => .error ⟨reading.frontier.position, reading.frontier.attempts⟩

end RowFilter.Grammar
