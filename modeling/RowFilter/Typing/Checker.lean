/-
The type checker.

Checking a node first checks its parts, all of them, so that every problem of an
expression is reported at once; a node some part of which has no type says nothing
of its own. What types fit together is stated apart from the traversal. Compiling is
parsing and then checking: a text that does not parse has one diagnostic, one that does
not check has all of its problems.
-/
import RowFilter.Expr.Parse
import RowFilter.Typing.Diagnostic
import RowFilter.Typing.Environment
import RowFilter.TypedExpr

set_option autoImplicit false

namespace RowFilter.Typing

/-! ## Which types fit -/

/-- A value may be sought in a list of its type, with `null` fitting on either side,
and among the keys of a map. -/
def canContain (needle : ValueType) : ValueType → Bool
  | .list elem => elem = .null || needle = .null || elem = needle
  | .map key _ => key = needle
  | _ => false

/-- The type of an operator applied to operands of two types. -/
def binaryType? (operator : BinaryOperator) (left right : ValueType) : Option ValueType :=
  match operator with
  | .and | .or => if left = .bool ∧ right = .bool then some .bool else none
  | .equal | .notEqual =>
    -- `null` may be compared with everything, but not put in order
    if left = right ∨ left = .null ∨ right = .null then some .bool else none
  | .isIn => if canContain left right then some .bool else none
  | .greaterThan | .lessThan | .greaterOrEqual | .lessOrEqual =>
    if left = right ∧ left.isOrdered then some .bool else none
  | .add | .subtract | .multiply | .divide | .modulo =>
    if left = right ∧ left.isNumeric then some left else none

/-- The type of an operator in front of an operand of a type. -/
def unaryType? (operator : UnaryOperator) (operand : ValueType) : Option ValueType :=
  match operator with
  | .not => if operand = .bool then some .bool else none
  | .negate => if operand = .int ∨ operand = .double then some operand else none

/-- The type of the fields that can be selected. -/
def fieldType? : ValueType → Option ValueType
  | .map .string value => some value
  | _ => none

/-- The functions that are called on a string with a string. -/
def isStringTest (function : String) : Bool :=
  function = "contains" || function = "startsWith" || function = "endsWith"
    || function = "matches"

/-- What can be said of a call from the types of its receiver and arguments. -/
def callType (function : String) (receiver : Option ValueType) (arguments : List ValueType) :
    Except TypeIssue ValueType :=
  -- the texts of errors show the receiver as the first argument
  let types := receiver.toList ++ arguments
  if isStringTest function then
    match receiver, arguments with
    | none, _ => .error (.needsReceiver function)
    | some .string, [.string] => .ok .bool
    | some _, _ => .error (.noOverload function types)
  else if function = "size" then
    -- the only function that may be called with its operand in front or behind
    match types with
    | [type] => if type.isSized then .ok .int else .error (.noOverload function types)
    | _ => .error (.noOverload function types)
  else .error (.undeclared function)

/-- The element type of a list, going on from the type found so far: the one type
that its elements have, those that are `null` left aside. -/
def elementType (sofar : ValueType) : List ValueType → Except TypeIssue ValueType
  | [] => .ok sofar
  | type :: rest =>
    if type = .null then elementType sofar rest
    else if sofar = .null then elementType type rest
    else if sofar = type then elementType sofar rest
    else .error (.mixedList sofar type)

/-! ## Verdicts -/

/-- A result, if there is one, and everything found on the way to it. -/
structure Verdict (α : Type) where
  result : Option α
  findings : List Finding

namespace Verdict

variable {α β : Type}

def fine (a : α) : Verdict α := ⟨some a, []⟩

def fault (span : Span) (issue : TypeIssue) : Verdict α := ⟨none, [⟨span, issue⟩]⟩

/-- Both verdicts, the findings of the first before those of the second. -/
def both (a : Verdict α) (b : Verdict β) : Verdict (α × β) :=
  ⟨match a.result, b.result with
    | some x, some y => some (x, y)
    | _, _ => none,
   a.findings ++ b.findings⟩

/-- Going on with a result, if there is one. -/
def andThen (a : Verdict α) (next : α → Verdict β) : Verdict β :=
  match a.result with
  -- what comes next would only repeat that a part is wrong
  | none => ⟨none, a.findings⟩
  | some x => ⟨(next x).result, a.findings ++ (next x).findings⟩

end Verdict

/-! ## Nodes over checked parts -/

/-- A name by itself. -/
def identNode (env : Environment) (span : Span) (name : String) : Verdict TypedExpr :=
  match env.lookup? name with
  | some type => .fine (.ident type name)
  | none => .fault span (.undeclared name)

/-- A selection on a checked operand. -/
def selectNode (span : Span) (field : String) (operand : TypedExpr) : Verdict TypedExpr :=
  match fieldType? operand.type with
  | some type => .fine (.select type operand field)
  | none => .fault span (.noFields operand.type)

def unaryNode (span : Span) (operator : UnaryOperator) (operand : TypedExpr) :
    Verdict TypedExpr :=
  match unaryType? operator operand.type with
  | some type => .fine (.call type operator.function [operand])
  | none => .fault span (.noOverload operator.function [operand.type])

def binaryNode (span : Span) (operator : BinaryOperator) (left right : TypedExpr) :
    Verdict TypedExpr :=
  match binaryType? operator left.type right.type with
  | some type => .fine (.call type operator.function [left, right])
  | none => .fault span (.noOverload operator.function [left.type, right.type])

def callNode (span : Span) (function : String) (arguments : List TypedExpr) :
    Verdict TypedExpr :=
  match callType function none (arguments.map TypedExpr.type) with
  | .ok type => .fine (.call type function arguments)
  | .error issue => .fault span issue

def methodNode (span : Span) (receiver : TypedExpr) (function : String)
    (arguments : List TypedExpr) : Verdict TypedExpr :=
  match callType function (some receiver.type) (arguments.map TypedExpr.type) with
  | .ok type => .fine (.method type receiver function arguments)
  | .error issue => .fault span issue

def listNode (span : Span) (elements : List TypedExpr) : Verdict TypedExpr :=
  match elementType .null (elements.map TypedExpr.type) with
  | .ok type => .fine (.list (.list type) elements)
  | .error issue => .fault span issue

/-! ## The traversal -/

mutual

/-- The verdict on an expression. A selection whose whole dotted name is declared is
that name; its parts are not looked at. -/
def visit (env : Environment) : Expr → Verdict TypedExpr
  | .literal _ value => .fine (.ofValue value)
  | .ident info name => identNode env info.span name
  | .select info operand field =>
    let whole := (Expr.select info operand field).qualifiedName?
    -- a declared whole name wins even where the operand is a map with such a key
    match whole, whole.bind env.lookup? with
    | some name, some type => .fine (.ident type name)
    | _, _ => (visit env operand).andThen (selectNode info.span field)
  | .unary info operator operand => (visit env operand).andThen (unaryNode info.span operator)
  | .binary info operator left right =>
    ((visit env left).both (visit env right)).andThen fun (l, r) =>
      binaryNode info.span operator l r
  | .call info function arguments =>
    (visitAll env arguments).andThen (callNode info.span function)
  | .method info receiver function arguments =>
    ((visit env receiver).both (visitAll env arguments)).andThen fun (r, as) =>
      methodNode info.span r function as
  | .list info elements => (visitAll env elements).andThen (listNode info.span)

/-- The verdict on several expressions, from left to right. -/
def visitAll (env : Environment) : List Expr → Verdict (List TypedExpr)
  | [] => .fine []
  | e :: rest =>
    let all := (visit env e).both (visitAll env rest)
    ⟨all.result.map fun (e, es) => e :: es, all.findings⟩

end

/-- The typed tree of an expression, or every problem it has. -/
def check (env : Environment) (e : Expr) : Except (List Finding) TypedExpr :=
  let verdict := visit env e
  match verdict.result, verdict.findings with
  | some tree, [] => .ok tree
  -- not reached: without a type there is a finding that says why
  | none, [] => .error [⟨e.span, .untyped⟩]
  | _, findings => .error findings

end RowFilter.Typing

namespace RowFilter

/-- The typed tree of a source text in an environment. -/
def Environment.compile (env : Environment) (source : String) :
    Except (List Diagnostic) TypedExpr :=
  match Expr.parse source with
  | .error e => .error [.ofParseError e]
  | .ok expr =>
    match Typing.check env expr with
    | .error findings => .error (findings.map .ofFinding)
    | .ok tree => .ok tree

end RowFilter
