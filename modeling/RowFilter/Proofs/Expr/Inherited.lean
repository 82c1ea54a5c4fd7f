/-
What holds of everything that is parsed.

A parse tree becomes an expression bottom up: a token means a literal or a name, and every other
node is put together from what its children mean. Whatever the functions that do this check on
their way, none of them makes a node from anything but the operands it was given, with the depth
that these give it, and within the bound on depths. So a property that the literals have, and that
every such node takes over from its children, holds of all that is parsed (`Inherited.of_parse`).

The bound is not asked of every node as it is made: a balanced chain is held against it as a whole.
Its inner nodes are below the root, though, and less deep.
-/
import RowFilter.Proofs.Expr.Making

set_option autoImplicit false

namespace RowFilter.Expr

open Grammar (Rule Tree)

variable {P : Expr → Prop} {span : Span} {parts : List Part} {e : Expr}

/-- The value of a literal. -/
def literal? : Expr → Option Value
  | .literal _ value => some value
  | _ => none

/-- A node as it is made over other nodes: no literal, as deep as they make it, not too deep. -/
structure Composite (e : Expr) : Prop where
  literal?_eq : e.literal? = none
  depth_eq : e.depth = depthOver e.children
  depth_le : e.depth ≤ maxTreeDepth

/-- A property of the operands that tokens mean, also behind a minus sign, and of a node over other
nodes if its children have it. -/
structure Inherited (P : Expr → Prop) : Prop where
  token : ∀ {rule span text e}, ofToken rule span text = .ok (.operand e) → P e
  signed : ∀ {span tree e}, negatedLiteral span tree = .ok (some e) → P e
  node : ∀ {e : Expr}, Composite e → (∀ c ∈ e.children, P c) → P e

/-- The expressions in a piece have the property. -/
def Piece.Has (P : Expr → Prop) : Piece → Prop
  | .operand e => P e
  | .invocation _ arguments => ∀ a ∈ arguments, P a
  | _ => True

/-- If a part means anything, what it means has the property. -/
def Part.Has (P : Expr → Prop) (p : Part) : Prop := ∀ piece, p.meaning = .ok piece → piece.Has P

/-! ## Operands -/

theorem Part.Has.expr {p : Part} (h : p.Has P) (he : p.expr = .ok e) : P e :=
  h _ (Part.expr_eq_ok_iff.mp he)

/-- So have the expressions of all parts. -/
theorem has_exprs {es : List Expr} (h : ∀ p ∈ parts, p.Has P) (hes : exprs parts = .ok es) :
    ∀ e ∈ es, P e := by
  induction parts generalizing es with
  | nil =>
      obtain rfl := Except.ok.inj hes
      simp
  | cons p rest ih =>
      obtain ⟨hp, hrest⟩ := List.forall_mem_cons.mp h
      obtain ⟨e, more, he, hmore, rfl⟩ := exprs_cons_eq_ok_iff.mp hes
      exact List.forall_mem_cons.mpr ⟨hp.expr he, ih hrest hmore⟩

namespace Inherited

variable (h : Inherited P)
include h

/-! ## Chains -/

/-- A binary node inherits the property from its two operands. -/
theorem has_binaryAt (operator : BinaryOperator) {left right : Expr}
    (hdeep : (binaryAt span operator left right).depth ≤ maxTreeDepth) (hleft : P left)
    (hright : P right) : P (binaryAt span operator left right) := by
  refine h.node ⟨rfl, rfl, hdeep⟩ fun c hc => ?_
  -- it has two children and no others
  rcases List.mem_cons.mp hc with rfl | hc
  · exact hleft
  · obtain rfl := List.mem_singleton.mp hc
    exact hright

/-- Terms in brackets: a join below the root is less deep than the root, which is not too deep. -/
theorem has_fold (operator : BinaryOperator) {b : Bracketing Expr}
    (hdeep : (b.fold (joined operator)).depth ≤ maxTreeDepth) (hterms : ∀ t ∈ b.terms, P t) :
    P (b.fold (joined operator)) := by
  induction b with
  | term e => exact hterms e List.mem_cons_self
  | join left right ihl ihr =>
      have hdepth := hdeep
      rw [Bracketing.fold, depth_joined] at hdepth
      refine h.has_binaryAt operator hdeep (ihl ?_ ?_) (ihr ?_ ?_)
      · omega
      · exact fun t ht => hterms t (List.mem_append_left _ ht)
      · omega
      · exact fun t ht => hterms t (List.mem_append_right _ ht)

/-- A chain in brackets inherits it from its terms, whatever the brackets are. -/
theorem has_balance (operator : BinaryOperator) {first : Expr} {rest : List Expr}
    (hdeep : (balance operator first rest).depth ≤ maxTreeDepth) (hfirst : P first)
    (hrest : ∀ e ∈ rest, P e) : P (balance operator first rest) := by
  rw [balance_eq_fold] at hdeep ⊢
  refine h.has_fold operator hdeep ?_
  rw [Bracketing.terms_halved]
  exact List.forall_mem_cons.mpr ⟨hfirst, hrest⟩

/-- A chain of connectives has the property if its parts have. -/
theorem has_logicalChain {operator : BinaryOperator} {rule : Rule} (hparts : ∀ p ∈ parts, p.Has P)
    (he : logicalChain span operator rule parts = .ok e) : P e := by
  have hterms : ∀ p ∈ terms rule parts, p.Has P := fun p hp => hparts p (List.mem_filter.mp hp).1
  obtain ⟨first, rest, hexprs, rfl, hdeep⟩ := logicalChain_cases he
  obtain ⟨hfirst, hrest⟩ := List.forall_mem_cons.mp (has_exprs hterms hexprs)
  exact h.has_balance operator hdeep hfirst hrest

/-- A chain that groups to the left has it, step by step. -/
theorem has_leaning {left : Expr} (hleft : P left) (hparts : ∀ p ∈ parts, p.Has P)
    (he : Leaning left parts e) : P e := by
  induction he with
  | done left => exact hleft
  | more operator hright hdeep _ ih =>
      obtain ⟨-, hmore⟩ := List.forall_mem_cons.mp hparts
      obtain ⟨hrightPart, hrest⟩ := List.forall_mem_cons.mp hmore
      exact ih (h.has_binaryAt operator hdeep hleft (hrightPart.expr hright)) hrest

theorem has_arithmeticChain (hparts : ∀ p ∈ parts, p.Has P)
    (he : arithmeticChain span parts = .ok e) : P e := by
  obtain ⟨first, rest, left, rfl, hleft, hleaning⟩ := arithmeticChain_cases he
  obtain ⟨hfirst, hrest⟩ := List.forall_mem_cons.mp hparts
  exact h.has_leaning (hfirst.expr hleft) hrest hleaning

/-! ## Operators in front -/

/-- Operators in front inherit it from the operand. -/
theorem has_applyAll {operators : List UnaryOperator} {operand : Expr} (hoperand : P operand)
    (he : applyAll span operators operand = .ok e) : P e := by
  induction operators generalizing operand with
  | nil =>
      obtain rfl := Except.ok.inj he
      exact hoperand
  | cons operator rest ih =>
      obtain ⟨hdeep, hrest⟩ := applyAll_cons_cases he
      -- the first operator makes a node over the operand, to which the others are applied
      refine ih (h.node ⟨rfl, rfl, hdeep⟩ fun c hc => ?_) hrest
      obtain rfl := List.mem_singleton.mp hc
      exact hoperand

/-- An operand with its operators has it, also where a sign belongs to the number. -/
theorem has_fronted (hparts : ∀ p ∈ parts, p.Has P) (he : fronted span parts = .ok e) : P e := by
  cases fronted_cases he with
  | operand hlast _ hinner happlied =>
      have hoperand := hparts _ (mem_of_operand hlast)
      exact h.has_applyAll (hoperand.expr hinner) happlied
  | number _ hsigned happlied =>
      -- a sign that has joined a number is not applied again
      obtain ⟨_, _, -, -, hnumber⟩ := of_signedNumber hsigned
      exact h.has_applyAll (h.signed hnumber) happlied

/-! ## Members -/

/-- A selection has it from its operand, and a call from its receiver and its arguments. -/
theorem has_suffixed {operand : Expr} {p : Part} (hoperand : P operand) (hp : p.Has P)
    (he : Suffixed operand p e) : P e := by
  cases he with
  | selection _ hdeep =>
      refine h.node ⟨rfl, rfl, hdeep⟩ fun c hc => ?_
      obtain rfl := List.mem_singleton.mp hc
      exact hoperand
  | invocation hmeaning hdeep =>
      refine h.node ⟨rfl, rfl, hdeep⟩ fun c hc => ?_
      rcases List.mem_cons.mp hc with rfl | hc
      · exact hoperand
      · exact hp _ hmeaning c hc

/-- A chain of suffixes has it. -/
theorem has_suffixes {operand : Expr} (hoperand : P operand) (hparts : ∀ p ∈ parts, p.Has P)
    (he : suffixes operand parts = .ok e) : P e := by
  induction parts generalizing operand with
  | nil =>
      obtain rfl := Except.ok.inj he
      exact hoperand
  | cons p rest ih =>
      obtain ⟨hp, hrest⟩ := List.forall_mem_cons.mp hparts
      -- the node of the first suffix is the operand of the next
      obtain ⟨node, hnode, hmore⟩ := suffixes_cons_cases he
      exact ih (h.has_suffixed hoperand hp hnode) hrest hmore

/-- A primary with its suffixes has it. -/
theorem has_memberOf (hparts : ∀ p ∈ parts, p.Has P) (he : memberOf span parts = .ok e) : P e := by
  obtain ⟨first, rest, operand, rfl, hoperand, hsuffixes⟩ := memberOf_cases he
  obtain ⟨hfirst, hrest⟩ := List.forall_mem_cons.mp hparts
  exact h.has_suffixes (hfirst.expr hoperand) hrest hsuffixes

/-! ## Trees -/

omit h in
/-- The arguments of a call have it. -/
theorem arguments_have {name : String} {es : List Expr} (hparts : ∀ p ∈ parts, p.Has P)
    (hes : nameAndArguments span parts = .ok (name, es)) : ∀ e ∈ es, P e := by
  obtain ⟨first, arguments, rfl, hexprs⟩ := nameAndArguments_cases hes
  exact has_exprs (List.forall_mem_cons.mp hparts).2 hexprs

/-- A node whose children mean what has the property. -/
theorem has_ofNode {rule : Rule} (hparts : ∀ p ∈ parts, p.Has P) {piece : Piece}
    (hpiece : ofNode rule span parts = .ok piece) : piece.Has P := by
  -- each way to make a node, with what is known of its parts
  cases ofNode_cases hpiece with
  | passed hp hmeaning => exact hparts _ hp _ hmeaning
  | logical he => exact h.has_logicalChain hparts he
  | arithmetic he => exact h.has_arithmeticChain hparts he
  | signed he => exact h.has_fronted hparts he
  | member he => exact h.has_memberOf hparts he
  | selection => trivial
  | invocation hnamed => exact arguments_have hparts hnamed
  | call hnamed hdeep => exact h.node ⟨rfl, rfl, hdeep⟩ (arguments_have hparts hnamed)
  | list hexprs hdeep => exact h.node ⟨rfl, rfl, hdeep⟩ (has_exprs hparts hexprs)

/-- A token has it if each literal and each identifier has. -/
theorem has_ofToken {rule : Rule} {text : List Char} {piece : Piece}
    (hpiece : ofToken rule span text = .ok piece) : piece.Has P := by
  cases piece with
  | operand e => exact h.token hpiece
  | between | before | selection | theEnd => trivial
  | invocation function arguments => exact absurd hpiece (ofToken_ne_invocation function arguments)

omit h

mutual

/-- What a tree means has the property, by its nodes from the tokens up. -/
theorem has_meaning (h : Inherited P) (t : Tree) : (Part.mk t (meaning t)).Has P := by
  intro piece hpiece
  cases t with
  | token rule span text => exact h.has_ofToken hpiece
  | node rule span children =>
      rw [meaning] at hpiece
      exact h.has_ofNode (has_meanings h children) hpiece
termination_by structural t

/-- Every part below a tree has it. -/
theorem has_meanings (h : Inherited P) (ts : List Tree) : ∀ p ∈ meanings ts, p.Has P := by
  cases ts with
  | nil => simp [meanings]
  | cons t rest =>
      rw [meanings]
      exact List.forall_mem_cons.mpr ⟨has_meaning h t, has_meanings h rest⟩
termination_by structural ts

end

/-- **What is parsed has every inherited property.** -/
theorem of_parse (h : Inherited P) {source : String} (he : Expr.parse source = .ok e) : P e := by
  obtain ⟨-, tree, -, htree⟩ := parse_eq_ok_iff.mp he
  exact (h.has_meaning tree).expr htree

end Inherited

end RowFilter.Expr
