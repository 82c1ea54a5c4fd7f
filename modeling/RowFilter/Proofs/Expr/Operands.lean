/-
What stands around an operand.

An operand may have an operator in front of it and a selection or a call behind a dot. Whatever the
operand itself is, it is read with these as the printer writes them, as long as nothing follows
that it could go on with (`Follows`): a minus sign joins a number and makes a node of
everything else, and each suffix makes a node of what stands in front of it.
-/
import RowFilter.Proofs.Expr.Levels
import RowFilter.Proofs.Expr.Making

set_option autoImplicit false

namespace RowFilter.Expr

open Grammar
open Grammar.Phrase (Takes Fails Joined Repeats)

/-! ## What follows -/

/-- What may follow an operand, and what is left of it behind layout. -/
structure Follows (tail behind : List Char) : Prop where
  stopped : Stopped tail
  unlaid_eq : unlaid tail = behind
  settled : unlaid behind = behind
  no_suffix : ∀ c ∈ behind.head?, c ≠ '.' ∧ c ≠ '('

/-- Where an expression closes an operand has ended. -/
theorem Closed.follows {tail : List Char} (h : Closed tail) : Follows tail tail where
  stopped c hc := by
    have hall : ∀ c ∈ [')', ',', ']'], c ∈ stops := by simp [stops]
    exact hall c (h c hc)
  unlaid_eq := h.unlaid_eq
  settled := h.unlaid_eq
  no_suffix c hc := by
    have hall : ∀ c ∈ [')', ',', ']'], c ≠ '.' ∧ c ≠ '(' := by simp
    exact hall c (h c hc)

theorem follows_spaced (operator : BinaryOperator) (rest : List Char) :
    Follows (' ' :: operator.spaced rest) (operator.spaced rest) where
  stopped := stopped_cons (by decide) _
  unlaid_eq := unlaid_blank (operator.spaced_settled rest)
  settled := operator.unlaid_spaced rest
  no_suffix c hc := by
    cases operator <;> (cases hc; decide)

variable {text tail behind middle : List Char} {e operand : Expr}

/-- Behind an operand nothing is read that begins with neither a dot nor a bracket. -/
theorem Follows.fails (h : Follows tail behind) {p : Phrase} (htakes : p.takes = true)
    (hp : ∀ c : Char, c ≠ '.' → c ≠ '(' → p.rejects c = true) : Fails p behind := by
  cases hbehind : behind with
  | nil => exact Phrase.fails_nil htakes
  | cons c rest =>
      have hc := h.no_suffix c (by rw [hbehind]; rfl)
      exact Phrase.fails_of_rejects (hp c hc.1 hc.2) rest

/-- What follows an operand behind a dot. -/
def suffix : Phrase := .alt Phrase.memberCall Phrase.fieldSelect

theorem Follows.fails_suffix (h : Follows tail behind) : Fails suffix behind := by
  refine h.fails rfl fun c hdot _ => ?_
  simp [suffix, Phrase.memberCall, Phrase.fieldSelect, Phrase.parts, Phrase.mark, Phrase.rejects,
    hdot.symm]

theorem Follows.fails_bracket (h : Follows tail behind) : Fails (Phrase.mark '(') behind := by
  refine h.fails rfl fun c _ hround => ?_
  simp [Phrase.mark, Phrase.rejects, hround.symm]

/-! ## Members -/

/-- A part as the operand that its tree means. -/
theorem part_expr {t : Tree} (h : meaning t = .ok (.operand e)) :
    Part.expr ⟨t, meaning t⟩ = .ok e :=
  expr_of_meaning h

/-- A member of one operand gives what the operand gives. -/
theorem Gives.member {P : Except ParseError Expr → Prop} {trees : List Tree} (h : Gives P trees)
    (span : Span) : Gives P [.node .member span trees] := by
  obtain ⟨t, result, rfl, ht, hmeaning, hresult⟩ := h
  refine ⟨_, result, rfl, (by decide : Rule.member ∉ operatorRules), ?_, hresult⟩
  rw [meaning, meanings, meanings, ofNode, memberOf, expr_of_meaning hmeaning]
  rcases result with err | e <;> rfl

/-- A primary without suffixes means what the primary means. -/
theorem Means.member {trees : List Tree} (h : Means e trees) (span : Span) :
    Means e [.node .member span trees] :=
  means_iff_gives.mpr ((means_iff_gives.mp h).member span)

/-- An operand with nothing behind it is a member by itself. -/
theorem takes_alone {P : List Tree → Prop} (h : Takes Phrase.primary text behind P)
    (hf : Follows tail behind) : Takes Phrase.member text behind
      fun ts => ∃ span inner, ts = [.node .member span inner] ∧ P inner := by
  have hmore : Takes (.many suffix) behind behind (· = []) := hf.fails_suffix.many hf.settled
  refine (h.seq hmore).rule fun span ts hts => ?_
  obtain ⟨inner, _, rfl, hinner, rfl⟩ := hts
  exact ⟨span, inner, by rw [List.append_nil], hinner⟩

/-- A primary is read as a member. -/
theorem takes_member_gives {P : Except ParseError Expr → Prop}
    (h : Takes Phrase.primary text behind (Gives P)) (hf : Follows tail behind) :
    Takes Phrase.member text behind (Gives P) := by
  refine (takes_alone h hf).mono fun ts hts => ?_
  obtain ⟨span, inner, rfl, hinner⟩ := hts
  exact hinner.member span

theorem takes_member (h : Takes Phrase.primary text behind (Means e)) (hf : Follows tail behind) :
    Takes Phrase.member text behind (Means e) :=
  (takes_member_gives (h.mono fun _ => means_iff_gives.mp) hf).mono fun _ => means_iff_gives.mpr

/-- A suffix that makes a node of an operand. -/
def MeansSuffix (operand e : Expr) (trees : List Tree) : Prop :=
  ∃ t, trees = [t] ∧ ∀ operand', Alike operand' operand →
    ∃ e', suffixed operand' ⟨t, meaning t⟩ = .ok e' ∧ Alike e' e

/-- An operand with one suffix. -/
theorem takes_member_suffix (h : Takes Phrase.primary text middle (Means operand))
    (hsuffix : Takes suffix middle behind (MeansSuffix operand e))
    (hmiddle : unlaid middle = middle) (hf : Follows tail behind) :
    Takes Phrase.member text behind (Means e) := by
  -- the one suffix and no other
  have hmore : Takes (.many suffix) middle behind (Joined (MeansSuffix operand e) (· = [])) :=
    (Repeats.more hsuffix (.done hf.fails_suffix)).takes_many rfl hmiddle
  refine (h.seq hmore).rule fun span ts hts => ?_
  obtain ⟨_, _, rfl, ⟨t, operand', rfl, ht, hmeaning, halike⟩,
    _, _, rfl, ⟨s, rfl, hs⟩, rfl⟩ := hts
  obtain ⟨e', hsuffixed, halike'⟩ := hs operand' halike
  refine ⟨_, e', rfl, (by decide : Rule.member ∉ operatorRules), ?_, halike'⟩
  rw [List.append_nil, List.singleton_append, meaning, meanings, meanings, meanings, ofNode,
    memberOf, part_expr hmeaning]
  dsimp only
  rw [suffixes, hsuffixed]
  rfl

/-! ## Operators in front -/

/-- All parts are operands but those of operators. -/
theorem isOperand_of_rule {t : Tree} {m : Except ParseError Piece} (ht : t.rule ∉ operatorRules) :
    (Part.mk t m).isOperand = true := by
  have hnot : t.rule ≠ .opNot := fun h => ht (by rw [h]; decide)
  have hneg : t.rule ≠ .opNeg := fun h => ht (by rw [h]; decide)
  simp [Part.isOperand, hnot, hneg]

/-- An operand with nothing in front of it gives what it gives by itself. -/
theorem Gives.unary {P : Except ParseError Expr → Prop} {trees : List Tree} (h : Gives P trees)
    (span : Span) : Gives P [.node .unary span trees] := by
  obtain ⟨t, result, rfl, ht, hmeaning, hresult⟩ := h
  refine ⟨_, result, rfl, (by decide : Rule.unary ∉ operatorRules), ?_, hresult⟩
  have hnot : t.rule ≠ .opNot := fun h => ht (by rw [h]; decide)
  have hneg : t.rule ≠ .opNeg := fun h => ht (by rw [h]; decide)
  -- there is nothing in front of it to apply
  have hoperators : frontOperators [⟨t, meaning t⟩] = [] := by
    unfold frontOperators
    rw [List.filterMap_cons_none]
    · rfl
    · dsimp only
      split
      · next h => exact absurd h hnot
      · next h => exact absurd h hneg
      · rfl
  rw [meaning, meanings, meanings, ofNode, fronted, List.filter_cons_of_pos (isOperand_of_rule ht),
    List.filter_nil, List.getLast?_singleton, hoperators]
  dsimp only
  rw [List.reverse_nil, runs]
  dsimp only
  rw [expr_of_meaning hmeaning]
  rcases result with err | e <;> rfl

/-- A member without operators in front is read on their level. -/
theorem takes_unary_gives {P : Except ParseError Expr → Prop}
    (hfront : Fails Phrase.frontOperator text) (hsettled : unlaid text = text)
    (h : Takes Phrase.member text behind (Gives P)) :
    Takes Phrase.unary text behind (Gives P) := by
  refine ((hfront.many hsettled).seq h).rule fun span ts hts => ?_
  obtain ⟨_, operand, rfl, rfl, hoperand⟩ := hts
  exact hoperand.unary span

theorem takes_unary (hfront : Fails Phrase.frontOperator text) (hsettled : unlaid text = text)
    (h : Takes Phrase.member text behind (Means e)) :
    Takes Phrase.unary text behind (Means e) :=
  (takes_unary_gives hfront hsettled (h.mono fun _ => means_iff_gives.mp)).mono
    fun _ => means_iff_gives.mpr

/-- The rule of an operator in front. -/
def frontRule : UnaryOperator → Rule
  | .not => .opNot
  | .negate => .opNeg

/-- An operator in front of an operand is read as itself. -/
theorem takes_front (operator : UnaryOperator) (text : List Char) :
    Takes Phrase.frontOperator (operator.symbol.toList ++ text) (unlaid text)
      fun ts => ∃ span, ts = [.token (frontRule operator) span operator.symbol.toList] := by
  rintro ⟨position, text⟩ rfl
  cases operator <;> exact ⟨_, _, rfl, rfl, _, rfl⟩

/-- One operator and what it stands in front of. -/
theorem takes_front_member (operator : UnaryOperator) {P : List Tree → Prop}
    (hsettled : unlaid text = text) (hfails : Fails Phrase.frontOperator text)
    (h : Takes Phrase.member text behind P) :
    Takes (.seq (.many Phrase.frontOperator) Phrase.member) (operator.symbol.toList ++ text) behind
      fun ts => ∃ span inner,
        ts = .token (frontRule operator) span operator.symbol.toList :: inner ∧ P inner := by
  have hfront := takes_front operator text
  rw [hsettled] at hfront
  have hstart : unlaid (operator.symbol.toList ++ text) = operator.symbol.toList ++ text := by
    cases operator <;> exact unlaid_of_rejects rfl text
  -- one operator, and then the member
  have hmany := (Repeats.more hfront (.done hfails)).takes_many rfl hstart
  refine (hmany.seq h).mono fun ts hts => ?_
  obtain ⟨_, inner, rfl, ⟨_, _, rfl, ⟨span, rfl⟩, rfl⟩, hinner⟩ := hts
  exact ⟨span, inner, rfl, hinner⟩

section Fronted

variable {operator : UnaryOperator} {span place placeo : Span} {spelled : List Char}
  {inner : List Tree} {m m' : Except ParseError Piece}

/-- One operator in front of a member: it is joined to a number, or applied to what is none. -/
theorem fronted_pair (operator : UnaryOperator) :
    fronted span [⟨.token (frontRule operator) placeo spelled, m⟩, ⟨.node .member place inner, m'⟩]
      = match signedNumber span (.node .member place inner) [(operator, 1)] with
        | .error e => .error e
        | .ok (some number) => .ok number
        | .ok none =>
          match Part.expr ⟨.node .member place inner, m'⟩ with
          | .error e => .error e
          | .ok e => applyAll span [operator] e := by
  have hoperand : [Part.mk (.token (frontRule operator) placeo spelled) m,
      ⟨.node .member place inner, m'⟩].filter Part.isOperand
        = [⟨.node .member place inner, m'⟩] := by cases operator <;> rfl
  -- the one operator is a run of its own
  have hruns : runs (frontOperators [⟨.token (frontRule operator) placeo spelled, m⟩,
      ⟨.node .member place inner, m'⟩]).reverse = [(operator, 1)] := by cases operator <;> rfl
  rw [fronted_eq, hoperand, List.getLast?_singleton, hruns]
  rfl

/-- The minus sign of a number joins it. -/
theorem fronted_number {number : Expr}
    (h : negatedLiteral span (.node .member place inner) = .ok (some number)) :
    fronted span [⟨.token .opNeg placeo spelled, m⟩, ⟨.node .member place inner, m'⟩]
      = .ok number := by
  refine (fronted_pair .negate).trans ?_
  rw [signedNumber, if_pos rfl, h]

/-- An operator in front of what is no number makes a node. -/
theorem fronted_operand (h : negatedLiteral span (.node .member place inner) = .ok none)
    (hexpr : Part.expr ⟨.node .member place inner, m'⟩ = .ok operand)
    (hnode : bounded span (unaryAt span operator operand) = .ok (unaryAt span operator operand)) :
    fronted span [⟨.token (frontRule operator) placeo spelled, m⟩, ⟨.node .member place inner, m'⟩]
      = .ok (unaryAt span operator operand) := by
  have hsigned : signedNumber span (.node .member place inner) [(operator, 1)] = .ok none := by
    cases operator with
    | not => rfl
    | negate => exact h
  rw [fronted_pair, hsigned, hexpr]
  dsimp only
  rw [applyAll, hnode]
  rfl

end Fronted

/-- An expression in brackets is no number, so that a minus sign in front of it stays. -/
theorem MeansInside.not_number {ts : List Tree} (h : MeansInside operand ts) (span place : Span) :
    negatedLiteral span (.node .member place ts) = .ok none := by
  obtain ⟨t, -, rfl, ht, -, -⟩ := h
  cases t with
  | node => rfl
  | token rule =>
      obtain rfl : rule = .expression := ht
      rfl

/-- One operator in front of an operand that is no number. -/
theorem takes_unary_front (operator : UnaryOperator) (place : Span) (hsettled : unlaid text = text)
    (hfails : Fails Phrase.frontOperator text)
    (h : Takes Phrase.primary text behind fun ts => Means operand ts
      ∧ ∀ span place, negatedLiteral span (.node .member place ts) = .ok none)
    (hf : Follows tail behind) (hdepth : (unaryAt place operator operand).depth ≤ maxTreeDepth) :
    Takes Phrase.unary (operator.symbol.toList ++ text) behind
      (Means (unaryAt place operator operand)) := by
  refine (takes_front_member operator hsettled hfails (takes_alone h hf)).rule fun span ts hts => ?_
  obtain ⟨placeo, _, rfl, placem, inner, rfl, hmeans, hnumber⟩ := hts
  -- the operand is no number, so the operator is not taken for its sign
  obtain ⟨_, operand', hmember, -, hmeaning, halike⟩ := hmeans.member placem
  obtain rfl := (List.cons.inj hmember).1
  refine ⟨_, unaryAt span operator operand', rfl, (by decide : Rule.unary ∉ operatorRules), ?_,
    halike.unaryAt operator⟩
  rw [meaning, meanings, meanings, meanings, ofNode,
    fronted_operand (hnumber span placem) (part_expr hmeaning)
      ((halike.unaryAt operator).bounded_eq hdepth)]
  rfl

end RowFilter.Expr
