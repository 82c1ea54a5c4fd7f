/-
When something is made of a parse tree.

The functions that make expressions look at the shape of what they are given on their way, and at
the depth of what they make, and fail where these are not as they should be. Said here, function by
function, is what there has been where one of them succeeds: the parts that were given, what these
mean, and the node that was made of it, within the bound. A property of all that is parsed is shown
by going through these cases, and none of the functions is opened for it again.
-/
import RowFilter.Expr.Parse
import RowFilter.Proofs.Expr.Balance

set_option autoImplicit false

namespace RowFilter.Expr

open Grammar (Rule Tree)

variable {span : Span} {parts : List Part} {e e' : Expr}

/-! ## Leaves -/

/-- A literal is made of what its token stands for. -/
theorem exists_of_literalPiece {α : Type} {span : Span} {toValue : α → Value}
    {cause : ParseError.Cause} {found : Option α} {e : Expr}
    (h : literalPiece span toValue cause found = .ok (.operand e)) :
    ∃ a, found = some a ∧ e = literalAt span (toValue a) := by
  unfold literalPiece at h
  split at h
  · exact ⟨_, rfl, (Piece.operand.inj (Except.ok.inj h)).symm⟩
  · cases h

/-- A quoted operand is a literal. -/
theorem exists_of_quotedPiece {α : Type} {span : Span} {toValue : α → Value}
    {found : Except Escape.Fault α} {e : Expr}
    (h : quotedPiece span toValue found = .ok (.operand e)) :
    ∃ a, e = literalAt span (toValue a) := by
  unfold quotedPiece at h
  split at h
  · exact ⟨_, (Piece.operand.inj (Except.ok.inj h)).symm⟩
  · cases h

/-- Tokens mean literals and names. -/
theorem leaf_of_ofToken {rule : Rule} {text : List Char}
    (h : ofToken rule span text = .ok (.operand e)) :
    (∃ value, e = literalAt span value) ∨ ∃ name, e = identAt span name := by
  cases rule with
  | ident => exact Or.inr ⟨_, (Piece.operand.inj (Except.ok.inj h)).symm⟩
  | litNull | litBoolean => exact Or.inl ⟨_, (Piece.operand.inj (Except.ok.inj h)).symm⟩
  | litInt | litUint | litDouble =>
      obtain ⟨_, -, he⟩ := exists_of_literalPiece h
      exact Or.inl ⟨_, he⟩
  | litString | litBytes =>
      obtain ⟨_, he⟩ := exists_of_quotedPiece h
      exact Or.inl ⟨_, he⟩
  | _ => cases h

/-- No token is a call. -/
theorem ofToken_ne_invocation {rule : Rule} {text : List Char} (function : String)
    (arguments : List Expr) : ofToken rule span text ≠ .ok (.invocation function arguments) := by
  intro h
  unfold ofToken literalPiece quotedPiece at h
  split at h <;> first | cases h | (split at h <;> cases h)

/-- A minus sign in front of a number makes a literal, of an integer or of a double. -/
theorem number_of_negatedLiteral {tree : Tree} (h : negatedLiteral span tree = .ok (some e)) :
    (∃ value, e = literalAt span (.int value)) ∨ ∃ value, e = literalAt span (.float value) := by
  unfold negatedLiteral at h
  split at h
  · split at h
    · exact .inl ⟨_, (Option.some.inj (Except.ok.inj h)).symm⟩
    · cases h
  · split at h
    · exact .inr ⟨_, (Option.some.inj (Except.ok.inj h)).symm⟩
    · cases h
  · cases h

/-- A number that belongs to a sign is a literal. -/
theorem literal_of_negatedLiteral {tree : Tree} (h : negatedLiteral span tree = .ok (some e)) :
    ∃ value, e = literalAt span value := by
  rcases number_of_negatedLiteral h with ⟨value, rfl⟩ | ⟨value, rfl⟩
  · exact ⟨_, rfl⟩
  · exact ⟨_, rfl⟩

/-! ## Operands -/

/-- A part has an expression if it is an operand. -/
theorem Part.expr_eq_ok_iff {p : Part} : p.expr = .ok e ↔ p.meaning = .ok (.operand e) := by
  constructor
  · intro h
    unfold Part.expr at h
    split at h
    · cases h
    · next hmeaning => rw [hmeaning, Except.ok.inj h]
    · cases h
  · intro h
    rw [Part.expr, h]

/-- The expressions of parts are those of the first and of the rest. -/
theorem exprs_cons_eq_ok_iff {p : Part} {rest : List Part} {es : List Expr} :
    exprs (p :: rest) = .ok es ↔
      ∃ e more, p.expr = .ok e ∧ exprs rest = .ok more ∧ es = e :: more := by
  rw [exprs]
  rcases he : p.expr with err | e
  · simp
  · rcases hmore : exprs rest with err | more
    · simp [Except.map]
    · simp [Except.map, eq_comm]

/-- What passes the bound is unchanged and within it. -/
theorem of_bounded {e' : Expr} (h : bounded span e = .ok e') : e' = e ∧ e.depth ≤ maxTreeDepth := by
  unfold bounded at h
  split at h
  · cases h
  · next hdepth => exact ⟨(Except.ok.inj h).symm, Nat.le_of_not_lt hdepth⟩

/-! ## Chains -/

/-- A chain of connectives is a balanced one of its terms. -/
theorem logicalChain_cases {operator : BinaryOperator} {rule : Rule}
    (h : logicalChain span operator rule parts = .ok e) :
    ∃ first rest, exprs (terms rule parts) = .ok (first :: rest)
      ∧ e = balance operator first rest ∧ e.depth ≤ maxTreeDepth := by
  unfold logicalChain at h
  split at h
  · cases h
  · cases h
  · next first rest hexprs =>
      obtain ⟨rfl, hdeep⟩ := of_bounded h
      exact ⟨first, rest, hexprs, rfl, hdeep⟩

/-- A chain that leans to the left, by an operator and an operand at a time. -/
inductive Leaning : Expr → List Part → Expr → Prop
  | done (left : Expr) : Leaning left [] left
  | more {left right e : Expr} {operatorPart rightPart : Part} {rest : List Part}
      (operator : BinaryOperator) (hright : rightPart.expr = .ok right)
      (hdeep : (joined operator left right).depth ≤ maxTreeDepth)
      (h : Leaning (joined operator left right) rest e) :
      Leaning left (operatorPart :: rightPart :: rest) e

/-- A chain that groups to the left takes an operator and an operand at a time. -/
theorem leaning_of_leftChain {left : Expr} (h : leftChain left parts = .ok e) :
    Leaning left parts e := by
  -- only the fifth case goes on: an operator, an operand, and a node within the bound
  fun_induction leftChain left parts with
  | case1 left =>
      obtain rfl := Except.ok.inj h
      exact .done left
  | case2 => cases h
  | case3 => cases h
  | case4 => cases h
  | case5 left operatorPart operator hoperator rightPart rest right hright span node hnode ih =>
      obtain ⟨rfl, hdeep⟩ := of_bounded hnode
      exact .more operator hright hdeep (ih h)
  | case6 => cases h

/-- It begins with its first operand. -/
theorem arithmeticChain_cases (h : arithmeticChain span parts = .ok e) :
    ∃ first rest left, parts = first :: rest ∧ first.expr = .ok left ∧ Leaning left rest e := by
  unfold arithmeticChain at h
  split at h
  · cases h
  · next first rest =>
      split at h
      · cases h
      · next left hleft => exact ⟨first, rest, left, rfl, hleft, leaning_of_leftChain h⟩

/-! ## Operators in front -/

/-- Operators are applied one after the other, and none makes the node too deep. -/
theorem applyAll_cons_cases {operator : UnaryOperator} {rest : List UnaryOperator}
    (h : applyAll span (operator :: rest) e = .ok e') :
    (unaryAt span operator e).depth ≤ maxTreeDepth
      ∧ applyAll span rest (unaryAt span operator e) = .ok e' := by
  rw [applyAll] at h
  split at h
  · cases h
  · next applied happlied =>
      obtain ⟨rfl, hdeep⟩ := of_bounded happlied
      exact ⟨hdeep, h⟩

/-- The number that an odd run of minus signs joins, if the operand is one. -/
def signedNumber (span : Span) (operand : Tree) :
    List (UnaryOperator × Nat) → Except ParseError (Option Expr)
  | (.negate, count) :: _ => if count % 2 = 1 then negatedLiteral span operand else .ok none
  | _ => .ok none

/-- The match on the operators without what only one kind of them does: the number is tried first,
then the operand is taken. -/
theorem fronted_eq (span : Span) (parts : List Part) : fronted span parts =
    match (parts.filter Part.isOperand).getLast? with
    | none => malformed span .missingOperand
    | some operand =>
      match signedNumber span operand.tree (runs (frontOperators parts).reverse) with
      | .error e => .error e
      | .ok (some number) =>
        applyAll span (uncancelled ((runs (frontOperators parts).reverse).drop 1)) number
      | .ok none =>
        match operand.expr with
        | .error e => .error e
        | .ok e => applyAll span (uncancelled (runs (frontOperators parts).reverse)) e := by
  rw [fronted]
  -- both branches of the program are the same once the sign has been tried
  rcases runs (frontOperators parts).reverse with _ | ⟨⟨operator, count⟩, rest⟩
  · rfl
  · cases operator <;> rfl

/-- A number takes the sign of an odd run next to it. -/
theorem of_signedNumber {tree : Tree} {rs : List (UnaryOperator × Nat)} {number : Expr}
    (h : signedNumber span tree rs = .ok (some number)) :
    ∃ count rest, rs = (.negate, count) :: rest ∧ count % 2 = 1
      ∧ negatedLiteral span tree = .ok (some number) := by
  unfold signedNumber at h
  split at h
  · next count rest =>
      split at h
      · next hodd => exact ⟨count, rest, rfl, hodd, h⟩
      · cases h
  · cases h

/-- What operators in front have been applied to: the operand, or the number that it is when it has
taken the sign next to it. -/
inductive Fronted (span : Span) (parts : List Part) (e : Expr) : Prop
  | operand {operand : Part} {inner : Expr}
      (hlast : (parts.filter Part.isOperand).getLast? = some operand)
      (hsigned : signedNumber span operand.tree (runs (frontOperators parts).reverse) = .ok none)
      (hinner : operand.expr = .ok inner)
      (h : applyAll span (uncancelled (runs (frontOperators parts).reverse)) inner = .ok e)
  | number {operand : Part} {number : Expr}
      (hlast : (parts.filter Part.isOperand).getLast? = some operand)
      (hsigned : signedNumber span operand.tree (runs (frontOperators parts).reverse)
        = .ok (some number))
      (h : applyAll span (uncancelled ((runs (frontOperators parts).reverse).drop 1)) number = .ok e)

/-- What operators in front give is made in one of the two ways. -/
theorem fronted_cases (h : fronted span parts = .ok e) : Fronted span parts e := by
  rw [fronted_eq] at h
  split at h
  · cases h
  · next operand hlast =>
      split at h
      · cases h
      · next number hsigned => exact .number hlast hsigned h
      · next hsigned =>
          split at h
          · cases h
          · next inner hinner => exact .operand hlast hsigned hinner h

/-- The operand is one of the parts. -/
theorem mem_of_operand {operand : Part}
    (h : (parts.filter Part.isOperand).getLast? = some operand) : operand ∈ parts :=
  (List.mem_filter.mp (List.mem_of_getLast? h)).1

/-! ## Members and calls -/

/-- An operand with one selection or call behind it. -/
inductive Suffixed (operand : Expr) (p : Part) : Expr → Prop
  | selection {field : String} (hmeaning : p.meaning = .ok (.selection field))
      (hdeep : (selectAt (operand.span.merge p.tree.span) operand field).depth ≤ maxTreeDepth) :
      Suffixed operand p (selectAt (operand.span.merge p.tree.span) operand field)
  | invocation {function : String} {arguments : List Expr}
      (hmeaning : p.meaning = .ok (.invocation function arguments))
      (hdeep : (methodAt (operand.span.merge p.tree.span) operand function arguments).depth
        ≤ maxTreeDepth) :
      Suffixed operand p (methodAt (operand.span.merge p.tree.span) operand function arguments)

/-- A suffix is a selection or a call. -/
theorem suffixed_cases {operand : Expr} {p : Part} (h : suffixed operand p = .ok e) :
    Suffixed operand p e := by
  unfold suffixed at h
  dsimp only at h
  split at h
  · cases h
  · next hmeaning =>
      obtain ⟨rfl, hdeep⟩ := of_bounded h
      exact .selection hmeaning hdeep
  · next hmeaning =>
      obtain ⟨rfl, hdeep⟩ := of_bounded h
      exact .invocation hmeaning hdeep
  · cases h

/-- Suffixes are applied one after the other. -/
theorem suffixes_cons_cases {operand : Expr} {p : Part} {rest : List Part}
    (h : suffixes operand (p :: rest) = .ok e) :
    ∃ node, Suffixed operand p node ∧ suffixes node rest = .ok e := by
  rw [suffixes] at h
  split at h
  · cases h
  · next node hnode => exact ⟨node, suffixed_cases hnode, h⟩

/-- A member is a first operand with suffixes. -/
theorem memberOf_cases (h : memberOf span parts = .ok e) :
    ∃ first rest operand, parts = first :: rest ∧ first.expr = .ok operand
      ∧ suffixes operand rest = .ok e := by
  unfold memberOf at h
  split at h
  · cases h
  · next first rest =>
      split at h
      · cases h
      · next operand hoperand => exact ⟨first, rest, operand, rfl, hoperand, h⟩

/-- A call has a first part for its name, and the rest are arguments. -/
theorem nameAndArguments_cases {name : String} {es : List Expr}
    (h : nameAndArguments span parts = .ok (name, es)) :
    ∃ first arguments, parts = first :: arguments ∧ exprs arguments = .ok es := by
  unfold nameAndArguments at h
  split at h
  · cases h
  · next first arguments =>
      rcases hexprs : exprs arguments with err | es'
      · simp [hexprs, Except.map] at h
      · simp only [hexprs, Except.map, Except.ok.injEq, Prod.mk.injEq] at h
        obtain ⟨-, rfl⟩ := h
        exact ⟨first, arguments, rfl, hexprs⟩

/-! ## Nodes -/

/-- What a node means: what one of its children does, or what is made of all of them. -/
inductive Made (span : Span) (parts : List Part) : Piece → Prop
  | passed {p : Part} {piece : Piece} (hp : p ∈ parts) (h : p.meaning = .ok piece) :
      Made span parts piece
  | logical {operator : BinaryOperator} {rule : Rule} {e : Expr}
      (h : logicalChain span operator rule parts = .ok e) : Made span parts (.operand e)
  | arithmetic {e : Expr} (h : arithmeticChain span parts = .ok e) : Made span parts (.operand e)
  | signed {e : Expr} (h : fronted span parts = .ok e) : Made span parts (.operand e)
  | member {e : Expr} (h : memberOf span parts = .ok e) : Made span parts (.operand e)
  | selection (field : String) : Made span parts (.selection field)
  | invocation {function : String} {arguments : List Expr}
      (h : nameAndArguments span parts = .ok (function, arguments)) :
      Made span parts (.invocation function arguments)
  | call {function : String} {arguments : List Expr}
      (h : nameAndArguments span parts = .ok (function, arguments))
      (hdeep : (callAt span function arguments).depth ≤ maxTreeDepth) :
      Made span parts (.operand (callAt span function arguments))
  | list {elements : List Expr} (h : exprs parts = .ok elements)
      (hdeep : (listAt span elements).depth ≤ maxTreeDepth) :
      Made span parts (.operand (listAt span elements))

/-- What is made of a result needs the result. -/
theorem exists_of_map_eq_ok {α β : Type} {result : Except ParseError α} {f : α → β} {b : β}
    (h : result.map f = .ok b) : ∃ a, result = .ok a ∧ b = f a := by
  rcases result with err | a
  · cases h
  · exact ⟨a, rfl, (Except.ok.inj h).symm⟩

/-- Every node that means something has been made in one of the ways of `Made`. -/
theorem ofNode_cases {rule : Rule} {piece : Piece} (h : ofNode rule span parts = .ok piece) :
    Made span parts piece := by
  unfold ofNode at h
  -- by the productions in the order of the definition: passed on, chains, operators in front,
  -- members, what stands behind an operand, calls and lists
  split at h
  · split at h
    · next p hfind => exact .passed (List.mem_of_find?_eq_some hfind) h
    · cases h
  · split at h
    · next p rest => exact .passed List.mem_cons_self h
    · cases h
  · obtain ⟨e, he, rfl⟩ := exists_of_map_eq_ok h
    exact .logical he
  · obtain ⟨e, he, rfl⟩ := exists_of_map_eq_ok h
    exact .logical he
  · obtain ⟨e, he, rfl⟩ := exists_of_map_eq_ok h
    exact .arithmetic he
  · obtain ⟨e, he, rfl⟩ := exists_of_map_eq_ok h
    exact .arithmetic he
  · obtain ⟨e, he, rfl⟩ := exists_of_map_eq_ok h
    exact .arithmetic he
  · obtain ⟨e, he, rfl⟩ := exists_of_map_eq_ok h
    exact .signed he
  · obtain ⟨e, he, rfl⟩ := exists_of_map_eq_ok h
    exact .member he
  · split at h
    · obtain rfl := Except.ok.inj h
      exact .selection _
    · cases h
  · obtain ⟨⟨name, arguments⟩, hnamed, rfl⟩ := exists_of_map_eq_ok h
    exact .invocation hnamed
  · split at h
    · cases h
    · next name arguments hnamed =>
        obtain ⟨e, he, rfl⟩ := exists_of_map_eq_ok h
        obtain ⟨rfl, hdeep⟩ := of_bounded he
        exact .call hnamed hdeep
  · split at h
    · cases h
    · next elements hexprs =>
        obtain ⟨e, he, rfl⟩ := exists_of_map_eq_ok h
        obtain ⟨rfl, hdeep⟩ := of_bounded he
        exact .list hexprs hdeep
  · cases h

end RowFilter.Expr
