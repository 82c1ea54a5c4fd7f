/-
Expressions from parse trees.

Every node of a parse tree means something by itself: an operand, an operator, or
what follows an operand behind a dot. What a node means is put together from what
its children mean; a child that fails makes its parent fail only where the parent
asks for its meaning. Chains of operators become trees here: sums and products
lean to the left, chains of `&&` and `||` are balanced, and the operators in front
of an operand cancel in pairs.
-/
import RowFilter.Expr
import RowFilter.Expr.Numeral
import RowFilter.Expr.ParseError
import RowFilter.Grammar.Tree

set_option autoImplicit false

namespace RowFilter.Expr

open RowFilter.Grammar (Rule Tree)

/-- The deepest tree that is accepted. Operators and selections nest without
brackets, so the tree has a bound of its own. -/
def maxTreeDepth : Nat := 128

/-- What a node of a parse tree means. -/
inductive Piece where
  | operand (e : Expr)
  | between (operator : BinaryOperator)
  | before (operator : UnaryOperator)
  | selection (field : String)
  | invocation (function : String) (arguments : List Expr)
  | theEnd

/-- A node and what it means, if it means anything. -/
structure Part where
  tree : Tree
  meaning : Except ParseError Piece

/-- A failure at a span. -/
def fail {α : Type} (span : Span) (cause : ParseError.Cause) : Except ParseError α :=
  .error (.atSpan span cause)

/-- A tree that is not of the shape its rule promises. -/
def malformed {α : Type} (span : Span) (what : Malformation) : Except ParseError α :=
  fail span (.malformed what)

/-- A node over `span`, unless it is too deep. -/
def bounded (span : Span) (e : Expr) : Except ParseError Expr :=
  if maxTreeDepth < e.depth then fail span (.tooDeep maxTreeDepth) else .ok e

/-- The operand a part means. -/
def Part.expr (p : Part) : Except ParseError Expr :=
  match p.meaning with
  | .error e => .error e
  | .ok (.operand e) => .ok e
  | .ok _ => malformed p.tree.span (.unexpectedRule p.tree.rule)

/-- The operands of a list of parts; the first that fails decides. -/
def exprs : List Part → Except ParseError (List Expr)
  | [] => .ok []
  | p :: rest =>
    match p.expr with
    | .error e => .error e
    | .ok e => (exprs rest).map (e :: ·)

/-! ## Chains -/

/-- Terms joined by one operator into a tree that halves them at every level, so
that its depth is logarithmic in their number. The left half has the odd term. -/
def balance (operator : BinaryOperator) (first : Expr) (rest : List Expr) : Expr :=
  match h : rest.drop (rest.length / 2) with
  | [] => first
  | second :: more =>
    -- the first half is `first` and what is taken, the second is `second` and what is left
    let left := balance operator first (rest.take (rest.length / 2))
    let right := balance operator second more
    binaryAt (left.span.merge right.span) operator left right
termination_by rest.length
decreasing_by
  all_goals
    have := congrArg List.length h
    simp only [List.length_drop, List.length_cons, List.length_take] at this ⊢
    omega

/-- The terms of a chain, without the operators between them. -/
def terms (operatorRule : Rule) (parts : List Part) : List Part :=
  parts.filter fun p => p.tree.rule ≠ operatorRule

/-- A chain of `&&` or `||`. -/
def logicalChain (span : Span) (operator : BinaryOperator) (operatorRule : Rule)
    (parts : List Part) : Except ParseError Expr :=
  match exprs (terms operatorRule parts) with
  | .error e => .error e
  | .ok [] => malformed span (.missingOperands operator)
  | .ok (first :: rest) => bounded span (balance operator first rest)

/-- The rest of a chain behind `left`, operators and operands in turn. -/
def leftChain (left : Expr) : List Part → Except ParseError Expr
  | [] => .ok left
  | operatorPart :: rest =>
    match operatorPart.meaning with
    | .ok (.between operator) =>
      match rest with
      | [] => malformed operatorPart.tree.span (.missingOperandAfter operator)
      | rightPart :: rest =>
        match rightPart.expr with
        | .error e => .error e
        | .ok right =>
          -- every step makes the tree one deeper, so the bound ends a long chain
          let span := left.span.merge right.span
          match bounded span (binaryAt span operator left right) with
          | .error e => .error e
          | .ok e => leftChain e rest
    | _ => malformed operatorPart.tree.span
        (.unknownOperator (String.ofList operatorPart.tree.text))

/-- A chain of relations, sums or products. -/
def arithmeticChain (span : Span) : List Part → Except ParseError Expr
  | [] => malformed span .missingLeftOperand
  | first :: rest =>
    match first.expr with
    | .error e => .error e
    | .ok left => leftChain left rest

/-! ## Operators in front of an operand -/

/-- The operators among the parts in front of an operand, as they are written. -/
def frontOperators (parts : List Part) : List UnaryOperator :=
  parts.filterMap fun p =>
    match p.tree.rule with
    | .opNot => some .not
    | .opNeg => some .negate
    | _ => none

/-- Runs of equal operators with their lengths. -/
def runs : List UnaryOperator → List (UnaryOperator × Nat)
  | [] => []
  | operator :: rest =>
    match runs rest with
    | (next, count) :: more =>
      if next = operator then (next, count + 1) :: more
      else (operator, 1) :: (next, count) :: more
    | [] => [(operator, 1)]

/-- The operators of the runs that do not cancel, one for each run of odd length. -/
def uncancelled (rs : List (UnaryOperator × Nat)) : List UnaryOperator :=
  rs.filterMap fun (operator, count) => if count % 2 = 1 then some operator else none

/-- Operators applied one after the other, the first one innermost. -/
def applyAll (span : Span) : List UnaryOperator → Expr → Except ParseError Expr
  | [], e => .ok e
  | operator :: rest, e =>
    match bounded span (unaryAt span operator e) with
    | .error err => .error err
    | .ok e => applyAll span rest e

/-- The literal that a minus sign makes of an operand, if the operand is nothing but
a signed number. The sign belongs to the number, so the smallest integer can be
written. -/
def negatedLiteral (span : Span) (operand : Tree) : Except ParseError (Option Expr) :=
  match operand.children with
  | [.token .litInt _ text] =>
    -- read with its sign: the positive of the smallest integer is out of range
    match Numeral.int? true text with
    | some value => .ok (some (literalAt span (.int value)))
    | none => fail span (.intRange ("-" ++ String.ofList text))
  | [.token .litDouble inner text] =>
    match Numeral.double? text with
    | some value => .ok (some (literalAt span (.float value.negate)))
    | none => malformed inner (.invalidDouble (String.ofList text))
  | _ => .ok none

/-- Whether a part is the operand and not an operator before it. -/
def Part.isOperand (p : Part) : Bool :=
  p.tree.rule ≠ .opNot && p.tree.rule ≠ .opNeg

/-- An operand with the operators in front of it. Runs of equal operators cancel in
pairs, and a minus sign left over next to a number joins it. -/
def fronted (span : Span) (parts : List Part) : Except ParseError Expr :=
  match (parts.filter Part.isOperand).getLast? with
  | none => malformed span .missingOperand
  | some operand =>
    -- from the operand outwards, which is the order of application
    let rs := runs (frontOperators parts).reverse
    let folded :=
      match rs with
      | (.negate, count) :: _ =>
        -- an even run cancels, and leaves the number as it is written
        if count % 2 = 1 then negatedLiteral span operand.tree else .ok none
      | _ => .ok none
    match folded with
    | .error e => .error e
    | .ok (some number) => applyAll span (uncancelled (rs.drop 1)) number
    | .ok none =>
      match operand.expr with
      | .error e => .error e
      | .ok e => applyAll span (uncancelled rs) e

/-! ## Members and calls -/

/-- An operand with one selection or call behind it. -/
def suffixed (e : Expr) (p : Part) : Except ParseError Expr :=
  let span := e.span.merge p.tree.span
  match p.meaning with
  | .error err => .error err
  | .ok (.selection field) => bounded span (selectAt span e field)
  | .ok (.invocation function arguments) => bounded span (methodAt span e function arguments)
  | .ok _ => malformed p.tree.span (.unexpectedSuffix p.tree.rule)

/-- The selections and calls behind an operand, from left to right. -/
def suffixes (e : Expr) : List Part → Except ParseError Expr
  | [] => .ok e
  | p :: rest =>
    match suffixed e p with
    | .error err => .error err
    | .ok e => suffixes e rest

/-- An operand with what follows it behind dots. -/
def memberOf (span : Span) : List Part → Except ParseError Expr
  | [] => malformed span .missingOperand
  | first :: rest =>
    match first.expr with
    | .error e => .error e
    | .ok e => suffixes e rest

/-- A name and the arguments behind it. -/
def nameAndArguments (span : Span) : List Part → Except ParseError (String × List Expr)
  | [] => malformed span .missingFunctionName
  | name :: arguments =>
    (exprs arguments).map fun es => (String.ofList name.tree.text, es)

/-! ## Nodes -/

/-- A literal at its span. -/
def literalPiece {α : Type} (span : Span) (toValue : α → Value) (cause : ParseError.Cause) :
    Option α → Except ParseError Piece
  | some value => .ok (.operand (literalAt span (toValue value)))
  | none => fail span cause

/-- A quoted literal at its span. -/
def quotedPiece {α : Type} (span : Span) (toValue : α → Value) :
    Except Escape.Fault α → Except ParseError Piece
  | .ok value => .ok (.operand (literalAt span (toValue value)))
  | .error fault => fail span (.escape fault)

/-- What a token means. -/
def ofToken (rule : Rule) (span : Span) (text : List Char) : Except ParseError Piece :=
  match rule with
  | .endOfInput => .ok .theEnd
  | .opOr => .ok (.between .or)
  | .opAnd => .ok (.between .and)
  | .opEq => .ok (.between .equal)
  | .opNe => .ok (.between .notEqual)
  | .opLe => .ok (.between .lessOrEqual)
  | .opGe => .ok (.between .greaterOrEqual)
  | .opLt => .ok (.between .lessThan)
  | .opGt => .ok (.between .greaterThan)
  | .opIn => .ok (.between .isIn)
  | .opAdd => .ok (.between .add)
  | .opSub => .ok (.between .subtract)
  | .opMul => .ok (.between .multiply)
  | .opDiv => .ok (.between .divide)
  | .opMod => .ok (.between .modulo)
  | .opNot => .ok (.before .not)
  | .opNeg => .ok (.before .negate)
  | .ident => .ok (.operand (identAt span (String.ofList text)))
  | .litNull => .ok (.operand (literalAt span .null))
  | .litBoolean => .ok (.operand (literalAt span (.boolean (text = "true".toList))))
  | .litInt =>
    literalPiece span .int (.intRange (String.ofList text)) (Numeral.int? false text)
  | .litUint =>
    literalPiece span .uint (.uintRange (String.ofList text)) (Numeral.uint? text)
  | .litDouble =>
    literalPiece span .float (.malformed (.invalidDouble (String.ofList text)))
      (Numeral.double? text)
  | .litString => quotedPiece span .string (Escape.string text)
  | .litBytes => quotedPiece span .bytes (Escape.bytes text)
  | _ => malformed span (.unexpectedRule rule)

/-- What a node means, given its children with their meanings. -/
def ofNode (rule : Rule) (span : Span) (parts : List Part) : Except ParseError Piece :=
  match rule with
  | .program =>
    match parts.find? fun p => p.tree.rule = .expression with
    | some p => p.meaning
    | none => malformed span .emptyInput
  | .expression =>
    match parts with
    | p :: _ => p.meaning
    | [] => malformed span .emptyExpression
  | .logicalOr => (logicalChain span .or .opOr parts).map .operand
  | .logicalAnd => (logicalChain span .and .opAnd parts).map .operand
  | .relation | .addition | .multiplication => (arithmeticChain span parts).map .operand
  | .unary => (fronted span parts).map .operand
  | .member => (memberOf span parts).map .operand
  | .fieldSelect =>
    match parts with
    | p :: _ => .ok (.selection (String.ofList p.tree.text))
    | [] => malformed span .missingFieldName
  -- only the suffix yet: the depth is checked once the receiver is known
  | .memberCall =>
    (nameAndArguments span parts).map fun (name, arguments) => .invocation name arguments
  | .globalCall =>
    match nameAndArguments span parts with
    | .error e => .error e
    | .ok (name, arguments) => (bounded span (callAt span name arguments)).map .operand
  | .listLiteral =>
    match exprs parts with
    | .error e => .error e
    | .ok elements => (bounded span (listAt span elements)).map .operand
  | _ => malformed span (.unexpectedRule rule)

mutual

/-- What a parse tree means. -/
def meaning : Tree → Except ParseError Piece
  | .token rule span text => ofToken rule span text
  | .node rule span children => ofNode rule span (meanings children)

/-- Parse trees with their meanings. -/
def meanings : List Tree → List Part
  | [] => []
  | t :: rest => ⟨t, meaning t⟩ :: meanings rest

end

/-- The expression of a whole program. -/
def ofTree (t : Tree) : Except ParseError Expr := Part.expr ⟨t, meaning t⟩

end RowFilter.Expr
