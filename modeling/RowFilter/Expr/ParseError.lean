/-
Why a source text is no expression. The causes are kept apart; one function gives
each its text.
-/
import RowFilter.Expr.Escape
import RowFilter.Expr.Operator
import RowFilter.Grammar.Rule
import RowFilter.Source.Span

set_option autoImplicit false

namespace RowFilter

/-- A parse tree that does not have the shape its rule promises. The grammar builds
no such tree. -/
inductive Malformation where
  | emptyInput
  | emptyExpression
  | missingOperand
  | missingOperands (operator : BinaryOperator)
  | missingLeftOperand
  | missingOperandAfter (operator : BinaryOperator)
  | missingFieldName
  | missingFunctionName
  /-- The text of what stands in place of an operator. -/
  | unknownOperator (text : String)
  | unexpectedRule (rule : Grammar.Rule)
  /-- What stands behind an operand and is neither a selection nor a call. -/
  | unexpectedSuffix (rule : Grammar.Rule)
  | invalidDouble (text : String)
  deriving DecidableEq, Repr

def Malformation.message : Malformation → String
  | .emptyInput => "Empty input"
  | .emptyExpression => "Empty expression"
  | .missingOperand => "Missing operand"
  | .missingOperands op => "Missing operands for '" ++ op.symbol ++ "'"
  | .missingLeftOperand => "Missing left operand"
  | .missingOperandAfter op => "Missing operand after '" ++ op.symbol ++ "'"
  | .missingFieldName => "Missing field name"
  | .missingFunctionName => "Missing function name"
  | .unknownOperator text => "Unknown operator: " ++ text
  | .unexpectedRule rule => "Unexpected rule in expression: " ++ rule.name
  | .unexpectedSuffix rule => "Unexpected rule in member access: " ++ rule.name
  | .invalidDouble text => "Invalid double literal: " ++ text

namespace ParseError

inductive Cause where
  /-- More levels of brackets, or of the tree, than are accepted. -/
  | tooDeep (levels : Nat)
  /-- The grammar does not match; these rules were tried last. -/
  | grammar (attempts : List Grammar.Rule)
  | intRange (text : String)
  | uintRange (text : String)
  | escape (fault : Escape.Fault)
  | malformed (what : Malformation)
  deriving DecidableEq, Repr

def Cause.message : Cause → String
  | .tooDeep levels => "Expression nesting exceeds " ++ Nat.repr levels ++ " levels"
  | .grammar attempts => Grammar.Rule.expectation attempts
  | .intRange text => "Integer literal out of range: " ++ text
  | .uintRange text => "Unsigned literal out of range: " ++ text
  | .escape fault => fault.message
  | .malformed what => what.message

end ParseError

/-- A cause and its place. -/
structure ParseError where
  cause : ParseError.Cause
  line : Nat
  column : Nat
  deriving DecidableEq, Repr

namespace ParseError

/-- An error at the beginning of a span. -/
def atSpan (span : Span) (cause : Cause) : ParseError := ⟨cause, span.line, span.column⟩

def message (e : ParseError) : String := e.cause.message

end ParseError

/-- A message with its place, as a parse error is shown by itself. -/
def parseErrorText (line column : Nat) (message : String) : String :=
  "Parse error at line " ++ Nat.repr line ++ ", column " ++ Nat.repr column ++ ": " ++ message

def ParseError.toText (e : ParseError) : String := parseErrorText e.line e.column e.message

end RowFilter
