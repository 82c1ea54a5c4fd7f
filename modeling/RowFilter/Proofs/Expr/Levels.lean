/-
From an operand to an expression and back.

An expression is a chain of chains: the operands of each level are the chains of the next tighter
one. A text that is read as an operand, and is followed by no operator, is read as an expression
through all levels, each of which passes it on as it is, be it an expression or an error
(`takes_chains_gives`); and where one operator stands between two operands, the level of the
operator makes a node of them while the levels below and above pass on what they get (`takes_pair`).
-/
import RowFilter.Expr.OfTree
import RowFilter.Proofs.Expr.Printer
import RowFilter.Proofs.Grammar.Forward

set_option autoImplicit false

namespace RowFilter.Expr

open Grammar
open Grammar.Phrase (Takes Fails Joined)

/-! ## Meanings -/

/-- The rules of the operators that chains and operands with signs look for. -/
def operatorRules : List Rule := [.opNot, .opNeg, .opAnd, .opOr]

/-- One tree, an operand, that means the expression up to places. -/
def Means (e : Expr) (trees : List Tree) : Prop :=
  ∃ t e', trees = [t] ∧ t.rule ∉ operatorRules ∧ meaning t = .ok (.operand e') ∧ Alike e' e

/-- One tree, an operand, whose meaning is a result with a property. Errors are results, too. -/
def Gives (P : Except ParseError Expr → Prop) (trees : List Tree) : Prop :=
  ∃ t result, trees = [t] ∧ t.rule ∉ operatorRules ∧ meaning t = result.map Piece.operand
    ∧ P result

/-- The result is the expression up to places. -/
def IsLike (e : Expr) (result : Except ParseError Expr) : Prop :=
  ∃ e', result = .ok e' ∧ Alike e' e

/-- Expressions with the property are not too deep. -/
def Bounded (P : Except ParseError Expr → Prop) : Prop := ∀ e, P (.ok e) → e.depth ≤ maxTreeDepth

/-- An expression that a tree means is a result that is an expression. -/
theorem exists_alike_iff {e : Expr} {trees : List Tree} {Q : Tree → Prop} :
    (∃ t e', trees = [t] ∧ Q t ∧ meaning t = .ok (.operand e') ∧ Alike e' e) ↔
      ∃ t result, trees = [t] ∧ Q t ∧ meaning t = result.map Piece.operand ∧ IsLike e result := by
  constructor
  · rintro ⟨t, e', rfl, ht, hmeaning, halike⟩
    exact ⟨t, .ok e', rfl, ht, hmeaning, e', rfl, halike⟩
  · rintro ⟨t, _, rfl, ht, hmeaning, e', rfl, halike⟩
    exact ⟨t, e', rfl, ht, hmeaning, halike⟩

/-- To mean an expression is to give a result that is like it. -/
theorem means_iff_gives {e : Expr} {trees : List Tree} : Means e trees ↔ Gives (IsLike e) trees :=
  exists_alike_iff

/-- What is like an expression is as deep. -/
theorem bounded_isLike {e : Expr} (h : e.depth ≤ maxTreeDepth) : Bounded (IsLike e) := by
  rintro e' ⟨_, ⟨⟩, halike⟩
  rw [halike.depth_eq]
  exact h

/-- One tree, an expression in brackets. -/
def MeansInside (e : Expr) (trees : List Tree) : Prop :=
  ∃ t e', trees = [t] ∧ t.rule = .expression ∧ meaning t = .ok (.operand e') ∧ Alike e' e

/-- An expression in brackets is an operand. -/
theorem MeansInside.means {e : Expr} {trees : List Tree} (h : MeansInside e trees) :
    Means e trees := by
  obtain ⟨t, e', rfl, ht, hmeaning, halike⟩ := h
  refine ⟨t, e', rfl, ?_, hmeaning, halike⟩
  rw [ht]
  decide

/-- One tree, an expression that is all there is between brackets or in a text, whose meaning is a
result with a property. -/
def GivesInside (P : Except ParseError Expr → Prop) (trees : List Tree) : Prop :=
  ∃ t result, trees = [t] ∧ t.rule = .expression ∧ meaning t = result.map Piece.operand
    ∧ P result

theorem meansInside_iff_givesInside {e : Expr} {trees : List Tree} :
    MeansInside e trees ↔ GivesInside (IsLike e) trees := exists_alike_iff

/-- A node that is not too deep passes the limit. -/
theorem bounded_eq {span : Span} {e : Expr} (h : e.depth ≤ maxTreeDepth) :
    bounded span e = .ok e :=
  if_neg (by omega)

/-- The bound does not depend on places either. -/
theorem Alike.bounded_eq {e e' : Expr} {span : Span} (h : Alike e' e) (he : e.depth ≤ maxTreeDepth) :
    bounded span e' = .ok e' :=
  Expr.bounded_eq (Nat.le_trans (Nat.le_of_eq h.depth_eq) he)

/-! ## Levels -/

/-- The levels of chains with their operators, tightest first. -/
def levels : List (Rule × Phrase) :=
  [(.multiplication, Phrase.productOperator), (.addition, Phrase.sumOperator),
   (.relation, Phrase.relationOperator), (.logicalAnd, Phrase.andOperator),
   (.logicalOr, Phrase.orOperator)]

/-- Chains of several levels over an operand. -/
def chains (operand : Phrase) (ls : List (Rule × Phrase)) : Phrase :=
  ls.foldl (fun p l => Phrase.chain l.1 p l.2) operand

/-- Together the levels are an expression without its outermost rule. -/
theorem chains_levels : chains Phrase.unary levels = Phrase.logicalOr := rfl

theorem chains_append (operand : Phrase) (first second : List (Rule × Phrase)) :
    chains operand (first ++ second) = chains (chains operand first) second :=
  List.foldl_append

/-- One operand alone needs no brackets. -/
theorem balance_single (operator : BinaryOperator) (e : Expr) : balance operator e [] = e := by
  rw [balance]
  rfl

/-- Two operands are joined once. -/
theorem balance_pair (operator : BinaryOperator) (left right : Expr) :
    balance operator left [right] = binaryAt (left.span.merge right.span) operator left right := by
  rw [balance]
  split
  · next h => simp at h
  · next second more h =>
      have hsecond : right = second ∧ more = [] := by simpa using h
      obtain ⟨rfl, rfl⟩ := hsecond
      have hnone : [right].take ([right].length / 2) = [] := by simp
      rw [hnone, balance_single, balance_single]

/-- A part whose meaning is a result is an operand with this result. -/
theorem expr_of_meaning {t : Tree} {m : Except ParseError Piece} {result : Except ParseError Expr}
    (h : m = result.map Piece.operand) : Part.expr ⟨t, m⟩ = result := by
  rw [h]
  rcases result with err | e <;> rfl

/-- The parts of a node are its children with their meanings. -/
theorem meanings_eq_map (ts : List Tree) : meanings ts = ts.map fun t => ⟨t, meaning t⟩ := by
  induction ts with
  | nil => rfl
  | cons t ts ih => rw [meanings, ih, List.map_cons]

/-- A chain of one operand has the result of the operand. -/
theorem meaning_chain {name : Rule} (hname : name ∈ levels.map Prod.fst) (span : Span) {t : Tree}
    {result : Except ParseError Expr} (ht : t.rule ∉ operatorRules)
    (hmeaning : meaning t = result.map Piece.operand)
    (hdepth : ∀ e, result = .ok e → e.depth ≤ maxTreeDepth) :
    meaning (.node name span [t]) = result.map Piece.operand := by
  have hexpr : Part.expr ⟨t, result.map Piece.operand⟩ = result := expr_of_meaning rfl
  -- a chain of one operand is the operand, on the levels that group to the left
  have harithmetic : arithmeticChain span [⟨t, result.map Piece.operand⟩] = result := by
    rw [arithmeticChain, hexpr]
    rcases result with err | e <;> rfl
  -- and on those of the connectives, where no operator is taken out
  have hlogical : ∀ (r : Rule) (operator : BinaryOperator), r ∈ operatorRules →
      logicalChain span operator r [⟨t, result.map Piece.operand⟩] = result := by
    intro r operator hr
    have hne : t.rule ≠ r := by
      rintro rfl
      exact ht hr
    have hterms : terms r [⟨t, result.map Piece.operand⟩] = [⟨t, result.map Piece.operand⟩] := by
      simp [terms, hne]
    rw [logicalChain, hterms, exprs, hexpr]
    rcases result with err | e
    · rfl
    · show bounded span (balance operator e []) = _
      rw [balance_single, bounded_eq (hdepth e rfl)]
  rw [meaning, meanings, meanings, hmeaning]
  simp only [levels, List.map_cons, List.map_nil, List.mem_cons, List.not_mem_nil, or_false]
    at hname
  rcases hname with rfl | rfl | rfl | rfl | rfl
  · rw [ofNode, harithmetic]
  · rw [ofNode, harithmetic]
  · rw [ofNode, harithmetic]
  · rw [ofNode, hlogical .opAnd .and (by decide)]
  · rw [ofNode, hlogical .opOr .or (by decide)]

/-- A chain of one operand gives what the operand gives. -/
theorem Gives.chain {P : Except ParseError Expr → Prop} {name : Rule} {trees : List Tree}
    (h : Gives P trees) (hP : Bounded P) (hname : name ∈ levels.map Prod.fst) (span : Span) :
    Gives P [.node name span trees] := by
  obtain ⟨t, result, rfl, ht, hmeaning, hresult⟩ := h
  have hall : ∀ r ∈ levels.map Prod.fst, r ∉ operatorRules := by decide
  refine ⟨_, result, rfl, hall _ hname, meaning_chain hname span ht hmeaning ?_, hresult⟩
  rintro e rfl
  exact hP e hresult

/-- Where no operator of some levels follows, these levels pass on what an operand gives. -/
theorem takes_chains_gives {P : Except ParseError Expr → Prop} {ls : List (Rule × Phrase)}
    {p : Phrase} {text tail : List Char} (hls : ∀ l ∈ ls, l.1 ∈ levels.map Prod.fst)
    (hfails : ∀ l ∈ ls, Fails l.2 tail) (hsettled : unlaid tail = tail) (hP : Bounded P)
    (h : Takes p text tail (Gives P)) : Takes (chains p ls) text tail (Gives P) := by
  -- a level at a time, from the tightest
  induction ls generalizing p with
  | nil => exact h
  | cons l ls ih =>
      refine ih (fun l hl => hls l (List.mem_cons_of_mem _ hl))
        (fun l hl => hfails l (List.mem_cons_of_mem _ hl)) ?_
      -- no operator of the level follows
      have hmore : Takes (.many (.seq l.2 p)) tail tail (· = []) :=
        (hfails l List.mem_cons_self).seq.many hsettled
      refine (h.seq hmore).rule fun span ts hts => ?_
      obtain ⟨operand, _, rfl, hoperand, rfl⟩ := hts
      rw [List.append_nil]
      exact hoperand.chain hP (hls l List.mem_cons_self) span

theorem takes_chains {ls : List (Rule × Phrase)} {p : Phrase} {text tail : List Char} {e : Expr}
    (hls : ∀ l ∈ ls, l.1 ∈ levels.map Prod.fst) (hfails : ∀ l ∈ ls, Fails l.2 tail)
    (hsettled : unlaid tail = tail) (hdepth : e.depth ≤ maxTreeDepth)
    (h : Takes p text tail (Means e)) : Takes (chains p ls) text tail (Means e) :=
  (takes_chains_gives hls hfails hsettled (bounded_isLike hdepth)
    (h.mono fun _ => means_iff_gives.mp)).mono fun _ => means_iff_gives.mpr

end RowFilter.Expr

/-! ## Operators and their levels -/

namespace RowFilter.BinaryOperator

open Grammar
open Grammar.Phrase (Takes Fails)
open RowFilter.Expr (levels)

/-- How many levels are tighter than that of the operator. -/
def tighter : BinaryOperator → Nat
  | .multiply | .divide | .modulo => 0
  | .add | .subtract => 1
  | .equal | .notEqual | .greaterThan | .lessThan | .greaterOrEqual | .lessOrEqual | .isIn => 2
  | .and => 3
  | .or => 4

/-- The level of the operator. -/
def level : BinaryOperator → Rule × Phrase
  | .multiply | .divide | .modulo => (.multiplication, Phrase.productOperator)
  | .add | .subtract => (.addition, Phrase.sumOperator)
  | .equal | .notEqual | .greaterThan | .lessThan | .greaterOrEqual | .lessOrEqual | .isIn =>
    (.relation, Phrase.relationOperator)
  | .and => (.logicalAnd, Phrase.andOperator)
  | .or => (.logicalOr, Phrase.orOperator)

/-- The rule of the operator itself. -/
def rule : BinaryOperator → Rule
  | .add => .opAdd
  | .subtract => .opSub
  | .multiply => .opMul
  | .divide => .opDiv
  | .modulo => .opMod
  | .equal => .opEq
  | .notEqual => .opNe
  | .greaterThan => .opGt
  | .lessThan => .opLt
  | .greaterOrEqual => .opGe
  | .lessOrEqual => .opLe
  | .isIn => .opIn
  | .and => .opAnd
  | .or => .opOr

variable (operator : BinaryOperator) (rest : List Char)

/-- The level of an operator stands between the tighter ones and the looser ones. -/
theorem levels_eq :
    levels = levels.take operator.tighter
      ++ operator.level :: levels.drop (operator.tighter + 1) := by
  cases operator <;> rfl

/-- The operator in front of a blank. -/
def spaced : List Char := operator.symbol.toList ++ ' ' :: rest

/-- No layout begins with an operator, not even a comment with a slash that divides. -/
theorem spaced_settled :
    (Pattern.alt blank comment).split? (operator.spaced rest) = none := by
  cases operator <;> rfl

/-- An operator with its blank begins with no layout. -/
theorem unlaid_spaced : unlaid (operator.spaced rest) = operator.spaced rest :=
  unlaid_of_settled (operator.spaced_settled rest)

/-- The operator is read on its level. -/
theorem takes_spaced : Takes operator.level.2 (operator.spaced rest) (unlaid (' ' :: rest))
    fun ts => ∃ span, ts = [.token operator.rule span operator.symbol.toList] := by
  rintro ⟨position, text⟩ rfl
  cases operator <;> exact ⟨_, _, rfl, rfl, _, rfl⟩

/-- The token of an operator means the operator. -/
theorem meaning_token (span : Span) (text : List Char) :
    Expr.meaning (.token operator.rule span text) = .ok (.between operator) := by
  cases operator <;> rfl

/-- The tighter levels do not know the operator. -/
theorem fails_spaced :
    ∀ l ∈ levels.take operator.tighter, Fails l.2 (operator.spaced rest) := by
  have hreject : ∀ x : Char, ∀ more, operator.spaced rest = x :: more →
      (∀ l ∈ levels.take operator.tighter, l.2.rejects x = true) →
      ∀ l ∈ levels.take operator.tighter, Fails l.2 (operator.spaced rest) := by
    intro x more htext hall l hl
    rw [htext]
    exact Phrase.fails_of_rejects (hall l hl) more
  cases operator <;> exact hreject _ _ rfl (by decide)

end RowFilter.BinaryOperator

/-! ## One operator between two operands -/

namespace RowFilter.Expr

open Grammar
open Grammar.Phrase (Takes Fails Joined Repeats)

/-- The end of a text, or what closes or parts the expressions in brackets. -/
def Closed (tail : List Char) : Prop := ∀ c ∈ tail.head?, c ∈ [')', ',', ']']

/-- Where an expression closes no operator of any level stands. -/
theorem Closed.fails {tail : List Char} (h : Closed tail) : ∀ l ∈ levels, Fails l.2 tail := by
  intro l hl
  cases tail with
  | nil =>
      have htakes : ∀ l ∈ levels, l.2.takes = true := by decide
      exact Phrase.fails_nil (htakes l hl)
  | cons c rest =>
      have hreject : ∀ l ∈ levels, [')', ',', ']'].all l.2.rejects = true := by decide
      exact Phrase.fails_of_rejects (List.all_eq_true.mp (hreject l hl) c (h c rfl)) rest

/-- There is no layout there. -/
theorem Closed.unlaid_eq {tail : List Char} (h : Closed tail) : unlaid tail = tail := by
  cases tail with
  | nil => rfl
  | cons c rest =>
      have hreject : [')', ',', ']'].all (Pattern.alt blank comment).rejects = true := by decide
      exact unlaid_of_rejects (List.all_eq_true.mp hreject c (h c rfl)) rest

theorem closed_cons {c : Char} (hc : c ∈ [')', ',', ']']) (rest : List Char) :
    Closed (c :: rest) := by
  rintro _ ⟨⟩
  exact hc

section Pair

variable {operator : BinaryOperator} {span : Span} {l o r : Tree} {left right : Expr}

/-- Two operands with an operator between them, in a chain that leans to the left. -/
theorem arithmeticChain_pair (hdepth : depthOver [left, right] ≤ maxTreeDepth) :
    arithmeticChain span [⟨l, .ok (.operand left)⟩, ⟨o, .ok (.between operator)⟩,
        ⟨r, .ok (.operand right)⟩]
      = .ok (binaryAt (left.span.merge right.span) operator left right) := by
  have hexpr : ∀ {t : Tree} {e : Expr}, Part.expr ⟨t, .ok (.operand e)⟩ = .ok e := rfl
  have hbounded : bounded (left.span.merge right.span)
      (binaryAt (left.span.merge right.span) operator left right)
        = .ok (binaryAt (left.span.merge right.span) operator left right) := bounded_eq hdepth
  -- one step of the chain and its end
  rw [arithmeticChain, hexpr]
  dsimp only
  rw [leftChain]
  dsimp only
  rw [hexpr]
  dsimp only
  rw [hbounded]
  rfl

/-- Two operands with an operator between them, in a chain that is balanced. -/
theorem logicalChain_pair {name : Rule} (hl : l.rule ≠ name) (ho : o.rule = name)
    (hr : r.rule ≠ name) (hdepth : depthOver [left, right] ≤ maxTreeDepth) :
    logicalChain span operator name [⟨l, .ok (.operand left)⟩, ⟨o, .ok (.between operator)⟩,
        ⟨r, .ok (.operand right)⟩]
      = .ok (binaryAt (left.span.merge right.span) operator left right) := by
  -- the operator is taken out, and the operands are left
  have hterms : terms name [⟨l, .ok (.operand left)⟩, ⟨o, .ok (.between operator)⟩,
      ⟨r, .ok (.operand right)⟩] = [⟨l, .ok (.operand left)⟩, ⟨r, .ok (.operand right)⟩] := by
    rw [terms, List.filter_cons_of_pos (by simpa using hl), List.filter_cons_of_neg (by simp [ho]),
      List.filter_cons_of_pos (by simpa using hr), List.filter_nil]
  have hexprs : exprs [⟨l, .ok (.operand left)⟩, ⟨r, .ok (.operand right)⟩]
      = .ok [left, right] := rfl
  rw [logicalChain, hterms, hexprs]
  dsimp only
  rw [balance_pair]
  exact bounded_eq hdepth

/-- A chain of two operands means what the operator makes of them. -/
theorem meaning_pair (operator : BinaryOperator) (span place : Span)
    (hl : l.rule ∉ operatorRules) (hr : r.rule ∉ operatorRules)
    (hleft : meaning l = .ok (.operand left)) (hright : meaning r = .ok (.operand right))
    (hdepth : depthOver [left, right] ≤ maxTreeDepth) :
    meaning (.node operator.level.1 span [l, .token operator.rule place operator.symbol.toList, r])
      = .ok (.operand (binaryAt (left.span.merge right.span) operator left right)) := by
  have hne : operator.rule ∈ operatorRules →
      l.rule ≠ operator.rule ∧ r.rule ≠ operator.rule := fun hrule =>
    ⟨fun h => hl (h ▸ hrule), fun h => hr (h ▸ hrule)⟩
  rw [meaning, meanings, meanings, meanings, meanings, hleft, hright, operator.meaning_token]
  -- the two connectives have a level each, the other operators share the function of theirs
  cases operator with
  | and =>
      obtain ⟨hl, hr⟩ := hne (by decide)
      exact congrArg (Except.map Piece.operand) (logicalChain_pair hl rfl hr hdepth)
  | or =>
      obtain ⟨hl, hr⟩ := hne (by decide)
      exact congrArg (Except.map Piece.operand) (logicalChain_pair hl rfl hr hdepth)
  | add | subtract | multiply | divide | modulo | equal | notEqual | greaterThan | lessThan
  | greaterOrEqual | lessOrEqual | isIn =>
      exact congrArg (Except.map Piece.operand) (arithmeticChain_pair hdepth)

end Pair

theorem levels_name {l : Rule × Phrase} (hl : l ∈ levels) : l.1 ∈ levels.map Prod.fst :=
  List.mem_map_of_mem hl

/-- Every operator has a level. -/
theorem level_mem_levels (operator : BinaryOperator) : operator.level ∈ levels := by
  rw [operator.levels_eq]
  simp

/-- On its own level an operator makes a node of the operands next to it. -/
theorem takes_own_level (operator : BinaryOperator) (span : Span) {p : Phrase}
    {text rest tail : List Char} {left right : Expr}
    (hleft : Takes p text (operator.spaced rest) (Means left)) (hrest : unlaid (' ' :: rest) = rest)
    (hright : Takes p rest tail (Means right)) (htail : Closed tail)
    (hdepth : (binaryAt span operator left right).depth ≤ maxTreeDepth) :
    Takes (Phrase.chain operator.level.1 p operator.level.2) text tail
      (Means (binaryAt span operator left right)) := by
  have hoperator := operator.takes_spaced rest
  rw [hrest] at hoperator
  have htakes : operator.level.2.takes = true := by cases operator <;> rfl
  -- one operator with its right operand, and then no other of the level
  have hmore := (Repeats.more (hoperator.seq hright)
    (.done (htail.fails _ (level_mem_levels operator)).seq)).takes_many
      (by rw [Phrase.takes, htakes]; rfl) (operator.unlaid_spaced rest)
  refine (hleft.seq hmore).rule fun place ts hts => ?_
  obtain ⟨_, _, rfl, ⟨l, left', rfl, hl, hmeaningl, hleft'⟩,
    _, _, rfl, ⟨_, _, rfl, ⟨placeo, rfl⟩, r, right', rfl, hr, hmeaningr, hright'⟩, rfl⟩ := hts
  have hdepths : depthOver [left', right'] ≤ maxTreeDepth := by
    rw [(hleft'.cons hright'.single).depthOver_eq]
    exact hdepth
  refine ⟨_, _, rfl, ?_, meaning_pair operator place placeo hl hr hmeaningl hmeaningr hdepths,
    hleft'.binaryAt hright' operator⟩
  have hall : ∀ r ∈ levels.map Prod.fst, r ∉ operatorRules := by decide
  exact hall _ (levels_name (level_mem_levels operator))

/-- **One operator.** Two operands with an operator between them are read as the node of the
operator, whatever the level of the operator is. -/
theorem takes_pair (operator : BinaryOperator) (span : Span) {text rest tail : List Char}
    {left right : Expr} (hleft : Takes Phrase.unary text (operator.spaced rest) (Means left))
    (hrest : unlaid (' ' :: rest) = rest) (hright : Takes Phrase.unary rest tail (Means right))
    (htail : Closed tail) (hdepth : (binaryAt span operator left right).depth ≤ maxTreeDepth) :
    Takes Phrase.logicalOr text tail (Means (binaryAt span operator left right)) := by
  have hparts : left.depth ≤ maxTreeDepth ∧ right.depth ≤ maxTreeDepth := by
    have hleft : left.depth < depthOver [left, right] := depth_lt_depthOver (by simp)
    have hright : right.depth < depthOver [left, right] := depth_lt_depthOver (by simp)
    have hnode : (binaryAt span operator left right).depth = depthOver [left, right] := rfl
    omega
  have hbelow : ∀ l ∈ levels.take operator.tighter, l ∈ levels := fun l => List.mem_of_mem_take
  have habove : ∀ l ∈ levels.drop (operator.tighter + 1), l ∈ levels :=
    fun l => List.mem_of_mem_drop
  -- the operands, on the levels below
  have hfirst := takes_chains (fun l hl => levels_name (hbelow l hl)) (operator.fails_spaced rest)
    (operator.unlaid_spaced rest) hparts.1 hleft
  have hsecond := takes_chains (fun l hl => levels_name (hbelow l hl))
    (fun l hl => htail.fails l (hbelow l hl)) htail.unlaid_eq hparts.2 hright
  have hchain := takes_own_level operator span hfirst hrest hsecond htail hdepth
  -- and the levels above
  have hlast := takes_chains (fun l hl => levels_name (habove l hl))
    (fun l hl => htail.fails l (habove l hl)) htail.unlaid_eq hdepth hchain
  have hall : chains Phrase.unary levels = chains (Phrase.chain operator.level.1
      (chains Phrase.unary (levels.take operator.tighter)) operator.level.2)
        (levels.drop (operator.tighter + 1)) := by
    conv => lhs; rw [operator.levels_eq, chains_append]
    rfl
  rw [← chains_levels, hall]
  exact hlast

end RowFilter.Expr
