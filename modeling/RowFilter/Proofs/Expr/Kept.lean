/-
Operators in front, before they cancel.

Of the operators in front of an operand the builder looks at runs of equal ones, and makes a node for
each run of odd length and none for the others; a minus sign next to a number makes no node either.
Here is the expression with more of the operators in it: `kept` makes a node for every operator that
is chosen from the runs, be it all of them (`allOf`) or those of odd runs (`oddOf`). In everything
else it is the builder. A node of an operator that is kept carries the place and the depth of the
expression that the builder makes of the whole, so what is kept is not too deep where that is not.
-/
import RowFilter.Proofs.Expr.Making

set_option autoImplicit false

namespace RowFilter.Expr

open Grammar (Rule Tree)

variable {span : Span} {parts : List Part} {whole : Expr}

/-! ## Choices from runs -/

/-- All operators of some runs. -/
def allOf (rs : List (UnaryOperator × Nat)) : List UnaryOperator :=
  rs.flatMap fun (operator, count) => List.replicate count operator

/-- The operators of the runs of odd length, all of each run. -/
def oddOf (rs : List (UnaryOperator × Nat)) : List UnaryOperator :=
  allOf (rs.filter fun (_, count) => count % 2 = 1)

/-- What is chosen of odd runs are the operators that do not cancel, more often. -/
theorem mem_oddOf_iff {rs : List (UnaryOperator × Nat)} {operator : UnaryOperator} :
    operator ∈ oddOf rs ↔ operator ∈ uncancelled rs := by
  rw [oddOf, allOf, uncancelled, List.mem_flatMap, List.mem_filterMap]
  constructor
  · rintro ⟨⟨next, count⟩, hrun, hmem⟩
    obtain ⟨hrun, hodd⟩ := List.mem_filter.mp hrun
    obtain rfl := List.eq_of_mem_replicate hmem
    exact ⟨_, hrun, if_pos (of_decide_eq_true hodd)⟩
  · rintro ⟨⟨next, count⟩, hrun, hsome⟩
    obtain ⟨hodd, hsame⟩ := Option.ite_none_right_eq_some.mp hsome
    obtain rfl := Option.some.inj hsame
    refine ⟨_, List.mem_filter.mpr ⟨hrun, decide_eq_true hodd⟩, ?_⟩
    exact List.mem_replicate.mpr ⟨by omega, rfl⟩

/-! ## Operands by themselves -/

/-- A number without the sign that has joined it. The smallest integer has no counterpart and stands
for itself. -/
def withoutSign : Expr → Expr
  | .literal info (.int value) => .literal info (.int (-value))
  | .literal info (.float value) => .literal info (.float value.negate)
  | e => e

/-- The operand behind the operators by itself, a number without its sign. -/
def bareOperand (span : Span) (parts : List Part) : Except ParseError Expr :=
  match (parts.filter Part.isOperand).getLast? with
  | none => malformed span .missingOperand
  | some operand =>
    match signedNumber span operand.tree (runs (frontOperators parts).reverse) with
    | .error e => .error e
    | .ok (some number) => .ok (withoutSign number)
    | .ok none => operand.expr

/-! ## Trees -/

/-- Operators in front of an operand, a node for each, the first one innermost. -/
def stacked (info : NodeInfo) (operators : List UnaryOperator) (e : Expr) : Expr :=
  operators.foldl (fun e operator => .unary info operator e) e

/-- An operand with the operators in front of it that are chosen from their runs. -/
def keptFronted (keep : List (UnaryOperator × Nat) → List UnaryOperator) (span : Span)
    (parts : List Part) : Except ParseError Expr :=
  match fronted span parts with
  | .error e => .error e
  | .ok whole =>
    (bareOperand span parts).map
      (stacked whole.info (keep (runs (frontOperators parts).reverse)))

/-- What a node means if operators are kept. -/
def keptNode (keep : List (UnaryOperator × Nat) → List UnaryOperator) (rule : Rule) (span : Span)
    (parts : List Part) : Except ParseError Piece :=
  match rule with
  | .unary => (keptFronted keep span parts).map .operand
  | rule => ofNode rule span parts

mutual

/-- What a parse tree means if operators are kept. -/
def keptMeaning (keep : List (UnaryOperator × Nat) → List UnaryOperator) :
    Tree → Except ParseError Piece
  | .token rule span text => ofToken rule span text
  | .node rule span children => keptNode keep rule span (keptMeanings keep children)

/-- Parse trees with what they mean if operators are kept. -/
def keptMeanings (keep : List (UnaryOperator × Nat) → List UnaryOperator) : List Tree → List Part
  | [] => []
  | t :: rest => ⟨t, keptMeaning keep t⟩ :: keptMeanings keep rest

end

/-- The expression of a whole program with the operators that are kept. -/
def kept (keep : List (UnaryOperator × Nat) → List UnaryOperator) (t : Tree) :
    Except ParseError Expr :=
  Part.expr ⟨t, keptMeaning keep t⟩

/-! ## Nodes of operators in front -/

/-- Operators in front of an operand, a node for each, with any places. -/
inductive Stack : Expr → List UnaryOperator → Expr → Prop
  | nothing (e : Expr) : Stack e [] e
  | operator {e whole : Expr} {operators : List UnaryOperator} (info : NodeInfo)
      (operator : UnaryOperator) (h : Stack (.unary info operator e) operators whole) :
      Stack e (operator :: operators) whole

/-- The operators stand over the operand as they were listed. -/
theorem stack_stacked (info : NodeInfo) (operators : List UnaryOperator) (e : Expr) :
    Stack e operators (stacked info operators e) := by
  induction operators generalizing e with
  | nil => exact .nothing e
  | cons operator rest ih => exact .operator info operator (ih _)

/-- What the program puts on top of an operand are the operators it is given. -/
theorem stack_of_applyAll {operators : List UnaryOperator} {e : Expr}
    (h : applyAll span operators e = .ok whole) : Stack e operators whole := by
  induction operators generalizing e with
  | nil =>
      -- nothing is applied
      obtain rfl := Except.ok.inj h
      exact .nothing e
  | cons operator rest ih => exact .operator _ operator (ih (applyAll_cons_cases h).2)

/-- Without a number behind a sign the bare operand is the operand. -/
theorem bareOperand_of_operand {operand : Part}
    (hlast : (parts.filter Part.isOperand).getLast? = some operand)
    (hsigned : signedNumber span operand.tree (runs (frontOperators parts).reverse) = .ok none) :
    bareOperand span parts = operand.expr := by
  rw [bareOperand, hlast]
  dsimp only
  rw [hsigned]

/-- With one it is the number without the sign. -/
theorem bareOperand_of_number {operand : Part} {number : Expr}
    (hlast : (parts.filter Part.isOperand).getLast? = some operand)
    (hsigned : signedNumber span operand.tree (runs (frontOperators parts).reverse)
      = .ok (some number)) : bareOperand span parts = .ok (withoutSign number) := by
  rw [bareOperand, hlast]
  dsimp only
  rw [hsigned]

end RowFilter.Expr
