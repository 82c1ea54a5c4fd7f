/-
The operators of filter expressions: how they are written, and the name of the
function that a checked tree applies for them.
-/

set_option autoImplicit false

namespace RowFilter

/-- The operators between two operands. -/
inductive BinaryOperator where
  | add
  | subtract
  | multiply
  | divide
  | modulo
  | equal
  | notEqual
  | greaterThan
  | lessThan
  | greaterOrEqual
  | lessOrEqual
  | isIn
  | and
  | or
  deriving DecidableEq, Repr, Inhabited

namespace BinaryOperator

/-- Every operator, in the order of declaration. -/
def all : List BinaryOperator :=
  [.add, .subtract, .multiply, .divide, .modulo, .equal, .notEqual, .greaterThan, .lessThan,
   .greaterOrEqual, .lessOrEqual, .isIn, .and, .or]

/-- The spelling in source text. -/
def symbol : BinaryOperator → String
  | .add => "+"
  | .subtract => "-"
  | .multiply => "*"
  | .divide => "/"
  | .modulo => "%"
  | .equal => "=="
  | .notEqual => "!="
  | .greaterThan => ">"
  | .lessThan => "<"
  | .greaterOrEqual => ">="
  | .lessOrEqual => "<="
  | .isIn => "in"
  | .and => "&&"
  | .or => "||"

/-- The function a checked tree applies. -/
def function : BinaryOperator → String
  | .add => "_+_"
  | .subtract => "_-_"
  | .multiply => "_*_"
  | .divide => "_/_"
  | .modulo => "_%_"
  | .equal => "_==_"
  | .notEqual => "_!=_"
  | .greaterThan => "_>_"
  | .lessThan => "_<_"
  | .greaterOrEqual => "_>=_"
  | .lessOrEqual => "_<=_"
  | .isIn => "@in"
  | .and => "_&&_"
  | .or => "_||_"

def isOrdering : BinaryOperator → Bool
  | .greaterThan | .lessThan | .greaterOrEqual | .lessOrEqual => true
  | _ => false

def isArithmetic : BinaryOperator → Bool
  | .add | .subtract | .multiply | .divide | .modulo => true
  | _ => false

end BinaryOperator

/-- The operators in front of an operand. -/
inductive UnaryOperator where
  | not
  | negate
  deriving DecidableEq, Repr, Inhabited

namespace UnaryOperator

/-- The spelling in source text. -/
def symbol : UnaryOperator → String
  | .not => "!"
  | .negate => "-"

/-- The function a checked tree applies. -/
def function : UnaryOperator → String
  | .not => "!_"
  | .negate => "-_"

end UnaryOperator

end RowFilter
