/-
The names of the rules of the filter grammar. They label the nodes of the parse
tree, and error texts tell with them what was expected.
-/

set_option autoImplicit false

namespace RowFilter.Grammar

/-- A rule that leaves a node in the tree, in the order in which error texts list
them: the end of the text first, then from the whole program down to its tokens. -/
inductive Rule where
  | endOfInput
  | program
  | expression
  | logicalOr
  | logicalAnd
  | relation
  | addition
  | multiplication
  | unary
  | member
  | memberCall
  | fieldSelect
  | globalCall
  | listLiteral
  | opOr
  | opAnd
  | opEq
  | opNe
  | opLe
  | opGe
  | opLt
  | opGt
  | opIn
  | opAdd
  | opSub
  | opMul
  | opDiv
  | opMod
  | opNot
  | opNeg
  | litNull
  | litBoolean
  | litString
  | litBytes
  | litDouble
  | litUint
  | litInt
  | ident
  deriving DecidableEq, Repr, Inhabited

namespace Rule

/-- Every rule, in the order of declaration. -/
def all : List Rule :=
  [.endOfInput, .program, .expression, .logicalOr, .logicalAnd, .relation, .addition,
   .multiplication, .unary, .member, .memberCall, .fieldSelect, .globalCall, .listLiteral,
   .opOr, .opAnd, .opEq, .opNe, .opLe, .opGe, .opLt, .opGt, .opIn, .opAdd, .opSub, .opMul,
   .opDiv, .opMod, .opNot, .opNeg, .litNull, .litBoolean, .litString, .litBytes, .litDouble,
   .litUint, .litInt, .ident]

/-- The name in error texts. -/
def name : Rule → String
  | .endOfInput => "EOI"
  | .program => "program"
  | .expression => "expression"
  | .logicalOr => "logical_or"
  | .logicalAnd => "logical_and"
  | .relation => "relation"
  | .addition => "addition"
  | .multiplication => "multiplication"
  | .unary => "unary"
  | .member => "member"
  | .memberCall => "member_call"
  | .fieldSelect => "field_select"
  | .globalCall => "global_call"
  | .listLiteral => "list_literal"
  | .opOr => "op_or"
  | .opAnd => "op_and"
  | .opEq => "op_eq"
  | .opNe => "op_ne"
  | .opLe => "op_le"
  | .opGe => "op_ge"
  | .opLt => "op_lt"
  | .opGt => "op_gt"
  | .opIn => "op_in"
  | .opAdd => "op_add"
  | .opSub => "op_sub"
  | .opMul => "op_mul"
  | .opDiv => "op_div"
  | .opMod => "op_mod"
  | .opNot => "op_not"
  | .opNeg => "op_neg"
  | .litNull => "lit_null"
  | .litBoolean => "lit_boolean"
  | .litString => "lit_string"
  | .litBytes => "lit_bytes"
  | .litDouble => "lit_double"
  | .litUint => "lit_uint"
  | .litInt => "lit_int"
  | .ident => "ident"

/-- What an error text says was expected, the rules in order and without
repetition: `a`, `a or b`, or `a, b, or c`. -/
def expectation (attempts : List Rule) : String :=
  match (all.filter attempts.contains).map name with
  | [] => "unknown parsing error"
  | [a] => "expected " ++ a
  | [a, b] => "expected " ++ a ++ " or " ++ b
  | names =>
    "expected " ++ ", ".intercalate names.dropLast ++ ", or " ++ names.getLastD ""

end Rule

end RowFilter.Grammar
