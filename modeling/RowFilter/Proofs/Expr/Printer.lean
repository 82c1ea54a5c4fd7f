/-
Expressions written with all their brackets.

`Expr.print` puts every composite part of an expression in brackets of its own, so that nothing in
the text depends on precedence, and writes literals so that nothing depends on the characters in
them. `Expr.Printable` says of which expressions this is meant: names are names of the grammar, no
literal is a double, and nodes have the depth of what is below them, as every node has that
is made by one of the functions for it.
-/
import RowFilter.Expr
import RowFilter.Proofs.Expr.Literals
import RowFilter.Proofs.Grammar.Tokens

set_option autoImplicit false

namespace RowFilter

open Grammar (IsName)

/-! ## Texts -/

/-- A literal as text, quoted ones with an escape for every character. -/
def Value.escaped : Value → List Char
  | .null => "null".toList
  | .boolean v => if v then "true".toList else "false".toList
  | .int v => (Text.decimal v.toInt).toList
  | .uint v => (Nat.repr v.toNat).toList ++ ['u']
  | .float v => v.spelled.toList
  | .string v => '\x22' :: (v.toList.flatMap Escape.codePoint ++ ['\x22'])
  | .bytes v => 'b' :: '\x22' :: (v.flatMap (fun b => (byteEscape b).toList) ++ ['\x22'])

namespace Expr

/-- A text in round brackets. -/
def enclosed (text : List Char) : List Char := '(' :: (text ++ [')'])

mutual

/-- An expression as text. -/
def print : Expr → List Char
  | .literal _ value => value.escaped
  | .ident _ name => name.toList
  | .select _ operand field => enclosed operand.print ++ '.' :: field.toList
  | .binary _ operator left right =>
    enclosed (left.print ++ ' ' :: (operator.symbol.toList ++ ' ' :: right.print))
  | .unary _ operator operand => enclosed (operator.symbol.toList ++ enclosed operand.print)
  | .call _ function arguments => function.toList ++ enclosed (printAll arguments)
  | .method _ receiver function arguments =>
    enclosed receiver.print ++ '.' :: (function.toList ++ enclosed (printAll arguments))
  | .list _ elements => '[' :: (printAll elements ++ [']'])

/-- Expressions with commas between them. -/
def printAll : List Expr → List Char
  | [] => []
  | e :: more => enclosed e.print ++ printMore more

/-- Expressions with a comma in front of each. -/
def printMore : List Expr → List Char
  | [] => []
  | e :: more => ',' :: ' ' :: (enclosed e.print ++ printMore more)

end

example : print (binaryAt default .lessThan (selectAt default (identAt default "user") "age")
    (unaryAt default .negate (literalAt default (.int (-3)))))
      = "((user).age < (-(-3)))".toList := by decide

/-- The expressions that are printed. -/
inductive Printable : Expr → Prop
  | literal (span : Span) {value : Value} (hvalue : value.kind ≠ .double) :
      Printable (literalAt span value)
  | ident (span : Span) {name : String} (hname : IsName name.toList) :
      Printable (identAt span name)
  | select (span : Span) {operand : Expr} {field : String} (h : Printable operand)
      (hfield : IsName field.toList) : Printable (selectAt span operand field)
  | binary (span : Span) (operator : BinaryOperator) {left right : Expr} (hleft : Printable left)
      (hright : Printable right) : Printable (binaryAt span operator left right)
  | unary (span : Span) (operator : UnaryOperator) {operand : Expr} (h : Printable operand) :
      Printable (unaryAt span operator operand)
  | call (span : Span) {function : String} {arguments : List Expr}
      (hfunction : IsName function.toList) (h : ∀ a ∈ arguments, Printable a) :
      Printable (callAt span function arguments)
  | method (span : Span) {receiver : Expr} {function : String} {arguments : List Expr}
      (hreceiver : Printable receiver) (hfunction : IsName function.toList)
      (h : ∀ a ∈ arguments, Printable a) : Printable (methodAt span receiver function arguments)
  | list (span : Span) {elements : List Expr} (h : ∀ a ∈ elements, Printable a) :
      Printable (listAt span elements)

/-! ## Up to positions -/

end Expr

/-- What a node carries besides its place. -/
def NodeInfo.unplaced (i : NodeInfo) : NodeInfo := { i with span := default }

namespace Expr

mutual

/-- An expression without its places in a source text. -/
def unplaced : Expr → Expr
  | .literal i value => .literal i.unplaced value
  | .ident i name => .ident i.unplaced name
  | .select i operand field => .select i.unplaced operand.unplaced field
  | .binary i operator left right => .binary i.unplaced operator left.unplaced right.unplaced
  | .unary i operator operand => .unary i.unplaced operator operand.unplaced
  | .call i function arguments => .call i.unplaced function (unplacedAll arguments)
  | .method i receiver function arguments =>
    .method i.unplaced receiver.unplaced function (unplacedAll arguments)
  | .list i elements => .list i.unplaced (unplacedAll elements)

def unplacedAll : List Expr → List Expr
  | [] => []
  | e :: more => e.unplaced :: unplacedAll more

end

/-- The same expression, perhaps at another place. -/
def Alike (e e' : Expr) : Prop := e.unplaced = e'.unplaced

/-- The same expressions, perhaps at other places. -/
def AllAlike (es es' : List Expr) : Prop := unplacedAll es = unplacedAll es'

variable {e e' operand operand' left left' right right' : Expr} {es es' : List Expr}
  {span span' : Span}

theorem unplacedAll_cons : unplacedAll (e :: es) = e.unplaced :: unplacedAll es := rfl

/-- A node keeps the depth it carries. -/
theorem depth_unplaced (e : Expr) : e.unplaced.depth = e.depth := by
  cases e <;> rfl

theorem Alike.depth_eq (h : Alike e e') : e.depth = e'.depth := by
  rw [← depth_unplaced e, ← depth_unplaced e', h]

/-- And lists of them carry the same depths. -/
theorem AllAlike.depths_eq (h : AllAlike es es') : es.map depth = es'.map depth := by
  -- both lists are compared with the one without places
  have hdepths : ∀ es : List Expr, es.map depth = (unplacedAll es).map depth := by
    intro es
    induction es with
    | nil => rfl
    | cons e more ih => rw [List.map_cons, unplacedAll_cons, List.map_cons, depth_unplaced, ih]
  rw [hdepths es, hdepths es', h]

/-- A node over one list is as deep as a node over the other. -/
theorem AllAlike.depthOver_eq (h : AllAlike es es') : depthOver es = depthOver es' := by
  rw [depthOver, depthOver, h.depths_eq]

theorem allAlike_nil : AllAlike [] [] := rfl

/-- Lists are the same if their heads and their tails are. -/
theorem Alike.cons (h : Alike e e') (hmore : AllAlike es es') : AllAlike (e :: es) (e' :: es') := by
  rw [AllAlike, unplacedAll_cons, unplacedAll_cons, h, hmore]

theorem Alike.single (h : Alike e e') : AllAlike [e] [e'] := h.cons allAlike_nil

/-! ### Nodes over expressions that are the same -/

/-- A selection without its places. Its depth is that over the operand as it was. -/
theorem unplaced_selectAt (field : String) :
    (selectAt span operand field).unplaced
      = .select ⟨default, depthOver [operand]⟩ operand.unplaced field := rfl

/-- Selections of one field from the same operand are the same. -/
theorem Alike.selectAt (h : Alike operand operand') (field : String) :
    Alike (selectAt span operand field) (selectAt span' operand' field) := by
  rw [Alike, unplaced_selectAt, unplaced_selectAt, h, h.single.depthOver_eq]

/-- A binary operation without its places. -/
theorem unplaced_binaryAt (operator : BinaryOperator) :
    (binaryAt span operator left right).unplaced
      = .binary ⟨default, depthOver [left, right]⟩ operator left.unplaced right.unplaced := rfl

/-- Operations on the same two operands are the same. -/
theorem Alike.binaryAt (hleft : Alike left left') (hright : Alike right right')
    (operator : BinaryOperator) :
    Alike (binaryAt span operator left right) (binaryAt span' operator left' right') := by
  rw [Alike, unplaced_binaryAt, unplaced_binaryAt, hleft, hright,
    (hleft.cons hright.single).depthOver_eq]

/-- A unary operation without its places. -/
theorem unplaced_unaryAt (operator : UnaryOperator) :
    (unaryAt span operator operand).unplaced
      = .unary ⟨default, depthOver [operand]⟩ operator operand.unplaced := rfl

/-- Operations on the same operand are the same. -/
theorem Alike.unaryAt (h : Alike operand operand') (operator : UnaryOperator) :
    Alike (unaryAt span operator operand) (unaryAt span' operator operand') := by
  rw [Alike, unplaced_unaryAt, unplaced_unaryAt, h, h.single.depthOver_eq]

/-- A call without its places. -/
theorem unplaced_callAt (function : String) :
    (callAt span function es).unplaced
      = .call ⟨default, depthOver es⟩ function (unplacedAll es) := rfl

/-- Calls of one function with the same arguments are the same. -/
theorem AllAlike.callAt (h : AllAlike es es') (function : String) :
    Alike (callAt span function es) (callAt span' function es') := by
  rw [Alike, unplaced_callAt, unplaced_callAt, h, h.depthOver_eq]

/-- A call on a receiver without its places. The receiver counts among what it stands over. -/
theorem unplaced_methodAt (function : String) :
    (methodAt span e function es).unplaced
      = .method ⟨default, depthOver (e :: es)⟩ e.unplaced function (unplacedAll es) := rfl

/-- Calls on the same receiver with the same arguments are the same. -/
theorem Alike.methodAt (h : Alike e e') (hall : AllAlike es es') (function : String) :
    Alike (methodAt span e function es) (methodAt span' e' function es') := by
  rw [Alike, unplaced_methodAt, unplaced_methodAt, h, hall, (h.cons hall).depthOver_eq]

/-- A list without its places. -/
theorem unplaced_listAt :
    (listAt span es).unplaced = .list ⟨default, depthOver es⟩ (unplacedAll es) := rfl

/-- Lists of the same elements are the same. -/
theorem AllAlike.listAt (h : AllAlike es es') :
    Alike (listAt span es) (listAt span' es') := by
  rw [Alike, unplaced_listAt, unplaced_listAt, h, h.depthOver_eq]

/-! ### Depths of parts -/

/-- A node stands above each of its parts. -/
theorem depth_lt_depthOver {e : Expr} {es : List Expr} (h : e ∈ es) : e.depth < depthOver es := by
  induction es with
  | nil => cases h
  | cons first more ih =>
      have hcons : depthOver (first :: more)
          = 1 + max first.depth ((more.map depth).foldr max 0) := rfl
      -- the part is the first one, or it lies below the node over the rest
      rcases List.mem_cons.mp h with rfl | h
      · omega
      · have hmore := ih h
        rw [depthOver] at hmore
        omega

end Expr

end RowFilter
