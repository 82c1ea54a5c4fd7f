/-
Relations that the builder respects.

A relation between expressions that is kept by every way to make a node, wherever the node stands
and whatever its span (`Congruent`), is kept by all that is made of a parse tree: chains,
operators in front, members and calls (`Congruent.agree_ofNode`). What makes nodes out of parts
looks at the rules of their trees, at the texts of tokens and at what the parts mean, and takes
their spans only to hand them on; of an expression that has been made it looks at its depth alone.
-/
import Mathlib.Data.List.Forall2
import RowFilter.Proofs.Expr.Making
import RowFilter.Proofs.Grammar.Sentences

set_option autoImplicit false

namespace RowFilter.Expr

open Grammar (Rule Tree)
open List (Forall₂)

/-! ## Results that agree -/

/-- Two results agree if both are errors, whatever these say, or both are values in a relation. -/
inductive Agree {ε α : Type} (R : α → α → Prop) : Except ε α → Except ε α → Prop
  | ok {a b : α} (h : R a b) : Agree R (.ok a) (.ok b)
  | error (e e' : ε) : Agree R (.error e) (.error e')

namespace Agree

variable {ε α β : Type} {R : α → α → Prop} {S : β → β → Prop} {x y : Except ε α}

/-- Related values are mapped to related ones, and errors stay errors. -/
theorem map {f g : α → β} (h : Agree R x y) (hfg : ∀ a b, R a b → S (f a) (g b)) :
    Agree S (x.map f) (y.map g) := by
  cases h with
  | ok h => exact .ok (hfg _ _ h)
  | error e e' => exact .error e e'

/-- What holds of two errors, and of two values in the relation, holds of results that agree. -/
@[elab_as_elim]
theorem elim {motive : Except ε α → Except ε α → Prop} (h : Agree R x y)
    (herror : ∀ e e', motive (.error e) (.error e'))
    (hok : ∀ a b, R a b → motive (.ok a) (.ok b)) : motive x y := by
  cases h with
  | ok h => exact hok _ _ h
  | error e e' => exact herror e e'

/-- Where one result is a value, the other one is a value too. -/
theorem exists_of_ok {a : α} (h : Agree R (.ok a) y) : ∃ b, y = .ok b ∧ R a b := by
  cases h with
  | ok h => exact ⟨_, rfl, h⟩

end Agree

/-! ## Related parts -/

/-- Pieces that are the same up to the expressions in them, which are related. -/
inductive Piece.Related (R : Expr → Expr → Prop) : Piece → Piece → Prop
  | operand {e e' : Expr} (h : R e e') : Related R (.operand e) (.operand e')
  | between (operator : BinaryOperator) : Related R (.between operator) (.between operator)
  | before (operator : UnaryOperator) : Related R (.before operator) (.before operator)
  | selection (field : String) : Related R (.selection field) (.selection field)
  | invocation (function : String) {es es' : List Expr} (h : Forall₂ R es es') :
      Related R (.invocation function es) (.invocation function es')
  | theEnd : Related R .theEnd .theEnd

/-- Parts of the same tree, up to places, that mean related pieces. -/
structure Part.Related (R : Expr → Expr → Prop) (p q : Part) : Prop where
  tree : p.tree.unplaced = q.tree.unplaced
  meaning : Agree (Piece.Related R) p.meaning q.meaning

/-- Related expressions are equally deep, and every node over related expressions is related, with
any spans. -/
structure Congruent (R : Expr → Expr → Prop) : Prop where
  depth_eq : ∀ {e e'}, R e e' → e.depth = e'.depth
  literalAt : ∀ (span place : Span) (value : Value), R (literalAt span value) (literalAt place value)
  identAt : ∀ (span place : Span) (name : String), R (identAt span name) (identAt place name)
  selectAt : ∀ {e e'} (span place : Span) (field : String), R e e' →
    R (selectAt span e field) (selectAt place e' field)
  binaryAt : ∀ {left left' right right'} (span place : Span) (operator : BinaryOperator),
    R left left' → R right right' →
      R (binaryAt span operator left right) (binaryAt place operator left' right')
  unaryAt : ∀ {e e'} (span place : Span) (operator : UnaryOperator), R e e' →
    R (unaryAt span operator e) (unaryAt place operator e')
  callAt : ∀ {es es'} (span place : Span) (function : String), Forall₂ R es es' →
    R (callAt span function es) (callAt place function es')
  methodAt : ∀ {e e' es es'} (span place : Span) (function : String), R e e' → Forall₂ R es es' →
    R (methodAt span e function es) (methodAt place e' function es')
  listAt : ∀ {es es'} (span place : Span), Forall₂ R es es' →
    R (listAt span es) (listAt place es')

variable {R : Expr → Expr → Prop} {span place : Span} {p q : Part} {ps qs : List Part}
  {e e' : Expr} {es es' : List Expr}

theorem rule_unplaced (t : Tree) : t.unplaced.rule = t.rule := by
  cases t <;> rfl

theorem text_unplaced (t : Tree) : t.unplaced.text = t.text := by
  cases t <;> rfl

/-- Related parts are of one rule. -/
theorem Part.Related.rule_eq (h : p.Related R q) : p.tree.rule = q.tree.rule := by
  rw [← rule_unplaced p.tree, h.tree, rule_unplaced]

theorem Part.Related.text_eq (h : p.Related R q) : p.tree.text = q.tree.text := by
  rw [← text_unplaced p.tree, h.tree, text_unplaced]

/-- Two failures agree, whatever their causes and places are. -/
theorem agree_fail {α : Type} {R : α → α → Prop} {cause cause' : ParseError.Cause} :
    Agree R (fail span cause) (fail place cause') := .error _ _

/-- Related parts are both operands, and related ones, or both fail as such. -/
theorem Part.Related.agree_expr (h : p.Related R q) : Agree R p.expr q.expr := by
  unfold Part.expr
  refine h.meaning.elim (fun _ _ => .error _ _) fun piece piece' hpiece => ?_
  cases hpiece with
  | operand h => exact .ok h
  | _ => exact agree_fail

/-- The expressions of two lists of parts agree, and the first part that is none fails in both. -/
theorem agree_exprs (h : Forall₂ (Part.Related R) ps qs) :
    Agree (Forall₂ R) (exprs ps) (exprs qs) := by
  induction h with
  | nil => exact .ok .nil
  | cons h _ ih =>
      rw [exprs, exprs]
      refine h.agree_expr.elim (fun _ _ => .error _ _) fun e e' he => ?_
      exact ih.map fun _ _ hmore => .cons he hmore

/-- The operators between operands are left out in the same places. -/
theorem related_terms (rule : Rule) (h : Forall₂ (Part.Related R) ps qs) :
    Forall₂ (Part.Related R) (terms rule ps) (terms rule qs) := by
  refine List.rel_filter (fun p q hpq => ?_) h
  dsimp only
  rw [hpq.rule_eq]

/-- Operators in front of an operand are told by rules and texts alone. -/
theorem frontOperators_congr (h : Forall₂ (Part.Related R) ps qs) :
    frontOperators ps = frontOperators qs := by
  induction h with
  | nil => rfl
  | cons h _ ih =>
      rw [frontOperators, frontOperators, List.filterMap_cons, List.filterMap_cons, h.rule_eq,
        ← frontOperators, ← frontOperators, ih]

theorem length_unplacedAll (ts : List Tree) : (Tree.unplacedAll ts).length = ts.length := by
  induction ts with
  | nil => rfl
  | cons t ts ih => rw [Tree.unplacedAll_cons, List.length_cons, List.length_cons, ih]

/-- The children of a tree without places are the children without theirs. -/
theorem children_unplaced (t : Tree) : t.unplaced.children = Tree.unplacedAll t.children := by
  cases t <;> rfl

/-- Only a tree with one child can be a literal behind a minus sign. -/
theorem negatedLiteral_of_length {t : Tree} (h : t.children.length ≠ 1) :
    negatedLiteral span t = .ok none := by
  unfold negatedLiteral
  split
  · next hchildren =>
      rw [hchildren] at h
      exact absurd rfl h
  · next hchildren =>
      rw [hchildren] at h
      exact absurd rfl h
  · rfl

/-- The last parts of two lists are related, if there are any. -/
theorem rel_getLast? (h : Forall₂ (Part.Related R) ps qs) :
    Option.Rel (Part.Related R) ps.getLast? qs.getLast? := by
  have hreverse := List.forall₂_reverse_iff.mpr h
  rw [List.getLast?_eq_head?_reverse, List.getLast?_eq_head?_reverse]
  generalize ps.reverse = rs at hreverse ⊢
  generalize qs.reverse = ts at hreverse ⊢
  cases hreverse with
  | nil => exact .none
  | cons h _ => exact .some h

/-- The same part of each list is found. -/
theorem rel_find? {f : Part → Bool} (hf : ∀ p q, Part.Related R p q → f p = f q)
    (h : Forall₂ (Part.Related R) ps qs) : Option.Rel (Part.Related R) (ps.find? f) (qs.find? f) := by
  induction h with
  | nil => exact .none
  | @cons p q _ _ h _ ih =>
      rw [List.find?_cons, List.find?_cons, hf p q h]
      -- the condition holds of both heads or of neither
      cases f q with
      | true => exact .some h
      | false => exact ih

/-- The same name, and related arguments. -/
def NamedAlike (R : Expr → Expr → Prop) (a b : String × List Expr) : Prop :=
  a.1 = b.1 ∧ Forall₂ R a.2 b.2

/-- A function's name and its arguments agree. -/
theorem agree_nameAndArguments (h : Forall₂ (Part.Related R) ps qs) :
    Agree (NamedAlike R) (nameAndArguments span ps) (nameAndArguments place qs) := by
  cases h with
  | nil => exact agree_fail
  | cons hname harguments =>
      rw [nameAndArguments, nameAndArguments, hname.text_eq]
      exact (agree_exprs harguments).map fun _ _ hes => ⟨rfl, hes⟩

namespace Congruent

variable (hR : Congruent R)
include hR

/-- Related expressions have the same depth, so the limit on it refuses both or neither. -/
theorem agree_bounded (h : R e e') : Agree R (bounded span e) (bounded place e') := by
  unfold bounded
  rw [hR.depth_eq h]
  split
  · exact agree_fail
  · exact .ok h

/-! ## Chains -/

/-- The same brackets over related terms. -/
theorem fold (operator : BinaryOperator) (b : Bracketing { p : Expr × Expr // R p.1 p.2 }) :
    R ((b.map fun p => p.1.1).fold (joined operator))
      ((b.map fun p => p.1.2).fold (joined operator)) := by
  induction b with
  | term p => exact p.2
  | join left right ihl ihr => exact hR.binaryAt _ _ operator ihl ihr

omit hR in
/-- Related lists are the two sides of a list of related pairs. -/
theorem exists_pairs (h : Forall₂ R es es') : ∃ ps : List { p : Expr × Expr // R p.1 p.2 },
    es = ps.map (fun p => p.1.1) ∧ es' = ps.map (fun p => p.1.2) := by
  induction h with
  | nil => exact ⟨[], rfl, rfl⟩
  | @cons a b _ _ hab _ ih =>
      obtain ⟨ps, rfl, rfl⟩ := ih
      exact ⟨⟨(a, b), hab⟩ :: ps, rfl, rfl⟩

/-- Chains of one operator are put in brackets in the same way. -/
theorem balance (operator : BinaryOperator) (hfirst : R e e') (hrest : Forall₂ R es es') :
    R (Expr.balance operator e es) (Expr.balance operator e' es') := by
  obtain ⟨ps, rfl, rfl⟩ := exists_pairs hrest
  have hfold := hR.fold operator (Bracketing.halved ⟨(e, e'), hfirst⟩ ps)
  rwa [← Bracketing.halved_map, ← Bracketing.halved_map, ← balance_eq_fold, ← balance_eq_fold]
    at hfold

/-- A chain of connectives agrees. -/
theorem agree_logicalChain (operator : BinaryOperator) (rule : Rule)
    (h : Forall₂ (Part.Related R) ps qs) :
    Agree R (logicalChain span operator rule ps) (logicalChain place operator rule qs) := by
  rw [logicalChain, logicalChain]
  refine (agree_exprs (related_terms rule h)).elim (fun _ _ => .error _ _) fun es es' hes => ?_
  cases hes with
  | nil => exact agree_fail
  | cons hfirst hrest => exact hR.agree_bounded (hR.balance operator hfirst hrest)

/-- A chain that groups to the left agrees, as each step does. -/
theorem agree_leftChain (hleft : R e e') (h : Forall₂ (Part.Related R) ps qs) :
    Agree R (leftChain e ps) (leftChain e' qs) := by
  -- an operator and an operand at a time
  induction hn : ps.length using Nat.strong_induction_on generalizing ps qs e e' with
  | h n ih =>
    cases h with
    | nil => exact .ok hleft
    | @cons _ _ ps qs hoperator hmore =>
        rw [leftChain, leftChain]
        refine hoperator.meaning.elim (fun _ _ => agree_fail) fun piece piece' hpiece => ?_
        cases hpiece with
        | between operator =>
            cases hmore with
            | nil => exact agree_fail
            | @cons _ _ ps qs hoperand hrest =>
                dsimp only
                refine hoperand.agree_expr.elim (fun _ _ => .error _ _) fun right right' hright => ?_
                dsimp only
                refine (hR.agree_bounded (hR.binaryAt _ _ operator hleft hright)).elim
                  (fun _ _ => .error _ _) fun node node' hnode => ?_
                refine ih _ ?_ hnode hrest rfl
                rw [← hn, List.length_cons, List.length_cons]
                omega
        | _ => exact agree_fail

/-- A chain of relations or of arithmetic agrees. -/
theorem agree_arithmeticChain (h : Forall₂ (Part.Related R) ps qs) :
    Agree R (arithmeticChain span ps) (arithmeticChain place qs) := by
  cases h with
  | nil => exact agree_fail
  | cons hfirst hrest =>
      rw [arithmeticChain, arithmeticChain]
      refine hfirst.agree_expr.elim (fun _ _ => .error _ _) fun left left' hleft => ?_
      exact hR.agree_leftChain hleft hrest

/-! ## Operators in front -/

/-- The operators in front of an operand give related nodes. -/
theorem agree_applyAll {operators : List UnaryOperator} (h : R e e') :
    Agree R (applyAll span operators e) (applyAll place operators e') := by
  induction operators generalizing e e' with
  | nil => exact .ok h
  | cons operator rest ih =>
      rw [applyAll, applyAll]
      refine (hR.agree_bounded (hR.unaryAt _ _ operator h)).elim (fun _ _ => .error _ _)
        fun node node' hnode => ?_
      exact ih hnode

/-- Whether an operand is a number that a sign may join does not depend on places. -/
theorem agree_negatedLiteral {t t' : Tree} (h : t.unplaced = t'.unplaced) :
    Agree (Option.Rel R) (negatedLiteral span t) (negatedLiteral place t') := by
  have hchildren : Tree.unplacedAll t.children = Tree.unplacedAll t'.children := by
    rw [← children_unplaced, h, children_unplaced]
  have hlength : t.children.length = t'.children.length := by
    rw [← length_unplacedAll, hchildren, length_unplacedAll]
  -- a node or several children are no literal, whatever they are
  by_cases hone : t.children.length = 1
  · obtain ⟨c, hc⟩ := List.length_eq_one_iff.mp hone
    obtain ⟨c', hc'⟩ := List.length_eq_one_iff.mp (hlength ▸ hone)
    rw [hc, hc'] at hchildren
    have hunplaced : c.unplaced = c'.unplaced := (List.cons.inj hchildren).1
    rw [negatedLiteral, negatedLiteral, hc, hc']
    cases c with
    | node =>
        cases c' with
        | node => exact .ok .none
        | token => cases hunplaced
    | token rule span text =>
        cases c' with
        | node => cases hunplaced
        | token rule' span' text' =>
            obtain ⟨rfl, -, rfl⟩ := Tree.token.inj hunplaced
            -- the text decides, and it is the same
            cases rule with
            | litInt =>
                dsimp only
                cases Numeral.int? true text with
                | some value => exact .ok (.some (hR.literalAt _ _ _))
                | none => exact agree_fail
            | litDouble =>
                dsimp only
                cases Numeral.double? text with
                | some value => exact .ok (.some (hR.literalAt _ _ _))
                | none => exact agree_fail
            | _ => exact .ok .none
  · rw [negatedLiteral_of_length hone, negatedLiteral_of_length (hlength ▸ hone)]
    exact .ok .none

/-- A number and the minus sign that belongs to it agree. -/
theorem agree_signedNumber {t t' : Tree} (h : t.unplaced = t'.unplaced)
    (rs : List (UnaryOperator × Nat)) :
    Agree (Option.Rel R) (signedNumber span t rs) (signedNumber place t' rs) := by
  unfold signedNumber
  split
  · split
    · exact hR.agree_negatedLiteral h
    · exact .ok .none
  · exact .ok .none

/-- An operand with the operators in front of it agrees. -/
theorem agree_fronted (h : Forall₂ (Part.Related R) ps qs) :
    Agree R (fronted span ps) (fronted place qs) := by
  have hoperands : Forall₂ (Part.Related R) (ps.filter Part.isOperand)
      (qs.filter Part.isOperand) := by
    refine List.rel_filter (fun p q hpq => ?_) h
    unfold Part.isOperand
    dsimp only
    rw [hpq.rule_eq]
  have hlast := rel_getLast? hoperands
  rw [fronted_eq, fronted_eq, frontOperators_congr h]
  generalize (ps.filter Part.isOperand).getLast? = operand at hlast ⊢
  generalize (qs.filter Part.isOperand).getLast? = operand' at hlast ⊢
  -- there is an operand in both lists or in neither
  cases hlast with
  | none => exact agree_fail
  | some h =>
      dsimp only
      refine (hR.agree_signedNumber h.tree _).elim (fun _ _ => .error _ _)
        fun number number' hnumber => ?_
      -- the innermost minus sign belongs to the number, or all signs are operators
      cases hnumber with
      | some hnumber => exact hR.agree_applyAll hnumber
      | none => exact h.agree_expr.elim (fun _ _ => .error _ _) fun _ _ => hR.agree_applyAll

/-! ## Members -/

/-- A selection or a call behind an expression agrees. -/
theorem agree_suffixed (he : R e e') (h : p.Related R q) :
    Agree R (suffixed e p) (suffixed e' q) := by
  rw [suffixed, suffixed]
  refine h.meaning.elim (fun _ _ => .error _ _) fun piece piece' hpiece => ?_
  cases hpiece with
  | selection field => exact hR.agree_bounded (hR.selectAt _ _ field he)
  | invocation function hes => exact hR.agree_bounded (hR.methodAt _ _ function he hes)
  | _ => exact agree_fail

/-- So does a chain of them. -/
theorem agree_suffixes (he : R e e') (h : Forall₂ (Part.Related R) ps qs) :
    Agree R (suffixes e ps) (suffixes e' qs) := by
  induction h generalizing e e' with
  | nil => exact .ok he
  | cons h _ ih =>
      rw [suffixes, suffixes]
      refine (hR.agree_suffixed he h).elim (fun _ _ => .error _ _) fun node node' hnode => ?_
      exact ih hnode

/-- A primary with its suffixes agrees. -/
theorem agree_memberOf (h : Forall₂ (Part.Related R) ps qs) :
    Agree R (memberOf span ps) (memberOf place qs) := by
  cases h with
  | nil => exact agree_fail
  | cons hfirst hrest =>
      rw [memberOf, memberOf]
      refine hfirst.agree_expr.elim (fun _ _ => .error _ _) fun e e' he => ?_
      exact hR.agree_suffixes he hrest

/-! ## Trees -/

/-- A literal is told by its value, which both texts have or have not. -/
theorem agree_literalPiece {α : Type} {toValue : α → Value} {cause cause' : ParseError.Cause}
    (found : Option α) : Agree (Piece.Related R) (literalPiece span toValue cause found)
      (literalPiece place toValue cause' found) := by
  cases found with
  | none => exact agree_fail
  | some a => exact .ok (.operand (hR.literalAt _ _ _))

/-- The same for quoted literals, whose escapes may be faulty in both. -/
theorem agree_quotedPiece {α : Type} {toValue : α → Value} (found : Except Escape.Fault α) :
    Agree (Piece.Related R) (quotedPiece span toValue found) (quotedPiece place toValue found) := by
  cases found with
  | error fault => exact agree_fail
  | ok a => exact .ok (.operand (hR.literalAt _ _ _))

/-- A token is told by its rule and its text. -/
theorem agree_ofToken (rule : Rule) (text : List Char) :
    Agree (Piece.Related R) (ofToken rule span text) (ofToken rule place text) := by
  cases rule with
  | endOfInput => exact .ok .theEnd
  | opNot | opNeg => exact .ok (.before _)
  | opOr | opAnd | opEq | opNe | opLe | opGe | opLt | opGt | opIn | opAdd | opSub | opMul | opDiv
  | opMod => exact .ok (.between _)
  | ident => exact .ok (.operand (hR.identAt _ _ _))
  | litNull | litBoolean => exact .ok (.operand (hR.literalAt _ _ _))
  | litInt | litUint | litDouble => exact hR.agree_literalPiece _
  | litString | litBytes => exact hR.agree_quotedPiece _
  | _ => exact agree_fail

/-- **A node means something related if its children do.** -/
theorem agree_ofNode (rule : Rule) (h : Forall₂ (Part.Related R) ps qs) :
    Agree (Piece.Related R) (ofNode rule span ps) (ofNode rule place qs) := by
  -- most rules give an operand
  have hoperand : ∀ {x y : Except ParseError Expr}, Agree R x y →
      Agree (Piece.Related R) (x.map .operand) (y.map .operand) := fun hxy =>
    hxy.map fun _ _ => .operand
  -- each rule hands its parts to the function for it, which has been dealt with above
  cases rule with
  | program =>
      have hfound := rel_find? (f := fun p => p.tree.rule = .expression)
        (fun p q hpq => by rw [hpq.rule_eq]) h
      rw [ofNode, ofNode]
      generalize ps.find? _ = found at hfound ⊢
      generalize qs.find? _ = found' at hfound ⊢
      cases hfound with
      | none => exact agree_fail
      | some h => exact h.meaning
  | expression =>
      cases h with
      | nil => exact agree_fail
      | cons h _ => exact h.meaning
  | logicalOr => exact hoperand (hR.agree_logicalChain .or .opOr h)
  | logicalAnd => exact hoperand (hR.agree_logicalChain .and .opAnd h)
  | relation | addition | multiplication => exact hoperand (hR.agree_arithmeticChain h)
  | unary => exact hoperand (hR.agree_fronted h)
  | member => exact hoperand (hR.agree_memberOf h)
  | fieldSelect =>
      cases h with
      | nil => exact agree_fail
      | cons h _ =>
          rw [ofNode, ofNode, h.text_eq]
          exact .ok (.selection _)
  | memberCall =>
      refine (agree_nameAndArguments h).map fun a b hab => ?_
      obtain ⟨name, es⟩ := a
      obtain ⟨rfl, hes⟩ := hab
      exact .invocation _ hes
  | globalCall =>
      rw [ofNode, ofNode]
      refine (agree_nameAndArguments h).elim (fun _ _ => .error _ _) fun a b hab => ?_
      obtain ⟨name, es⟩ := a
      obtain ⟨rfl, hes⟩ := hab
      exact hoperand (hR.agree_bounded (hR.callAt _ _ _ hes))
  | listLiteral =>
      rw [ofNode, ofNode]
      refine (agree_exprs h).elim (fun _ _ => .error _ _) fun es es' hes => ?_
      exact hoperand (hR.agree_bounded (hR.listAt _ _ hes))
  | _ => exact agree_fail

end Congruent

end RowFilter.Expr
