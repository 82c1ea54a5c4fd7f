/-
Refusals with a reason.

What is put together from parse trees may be refused for what the text says: a number is out of
range, an escape is none, the tree is too deep (`Cause.Genuine`). The builder has errors besides,
for trees of a shape that no rule of the grammar promises. None of these is met as long as the trees
below a node are as its rule has them: each function of the builder answers parts of the right kinds
with a value or with a genuine refusal (`Justified`). Which parts are of the right kind is said of
their trees, as the grammar finds them: operands (`Gives Justified`), operators between them
(`IsOperatorOf`), what stands behind an operand (`IsSuffix`), and operands that may have something
behind them and a sign in front (`IsPrimary`).
-/
import RowFilter.Proofs.Expr.Congruence
import RowFilter.Proofs.Expr.Operands
import RowFilter.Proofs.Expr.Readable
import RowFilter.Proofs.Grammar.Finding

set_option autoImplicit false

namespace RowFilter

/-- A cause that the text gives: more levels than are accepted, a number that is too large for its
kind, or an escape that is none. -/
inductive ParseError.Cause.Genuine : ParseError.Cause → Prop
  | tooDeep : Genuine (.tooDeep Expr.maxTreeDepth)
  | intRange {ds : List Char} {v : Nat} (h : Numeral.Denotes ds v) (hv : 2 ^ 63 - 1 < v) :
      Genuine (.intRange (String.ofList ds))
  | negativeRange {ds : List Char} {v : Nat} (h : Numeral.Denotes ds v) (hv : 2 ^ 63 < v) :
      Genuine (.intRange ("-" ++ String.ofList ds))
  | uintRange {ds : List Char} {v : Nat} {suffix : Char} (hsuffix : suffix ∈ ['u', 'U'])
      (h : Numeral.Denotes ds v) (hv : 2 ^ 64 - 1 < v) :
      Genuine (.uintRange (String.ofList (ds ++ [suffix])))
  | escape {fault : Escape.Fault} (h : fault.Invalid) : Genuine (.escape fault)

namespace Expr

open Grammar
open Grammar.Phrase (Joined)
open ParseError (Cause)

/-- The result is a value, or an error with a genuine cause. -/
def Justified {α : Type} (result : Except ParseError α) : Prop :=
  ∀ err, result = .error err → err.cause.Genuine

variable {α β : Type} {span : Span} {cause : Cause} {e : Expr} {parts : List Part} {t : Tree}
  {trees : List Tree} {w : List Char} {name : Rule}

theorem justified_ok (a : α) : Justified (.ok a) := by rintro _ ⟨⟩

theorem justified_fail (h : cause.Genuine) : Justified (fail span cause : Except ParseError α) := by
  rintro _ ⟨⟩
  exact h

theorem Justified.error {err : ParseError} (h : Justified (.error err : Except ParseError α)) :
    Justified (.error err : Except ParseError β) := by
  rintro _ ⟨⟩
  exact h err rfl

theorem Justified.map {result : Except ParseError α} {f : α → β} (h : Justified result) :
    Justified (result.map f) := by
  rcases result with err | a
  · exact h.error
  · exact justified_ok _

/-- What holds of the error of a justified result, and of its value, holds of the result. -/
@[elab_as_elim]
theorem Justified.elim {motive : Except ParseError α → Prop} {result : Except ParseError α}
    (h : Justified result)
    (herror : ∀ err, Justified (.error err : Except ParseError α) → motive (.error err))
    (hok : ∀ a, result = .ok a → motive (.ok a)) : motive result := by
  rcases result with err | a
  · exact herror err h
  · exact hok a rfl

/-- A node that is too deep is refused for that. -/
theorem justified_bounded : Justified (bounded span e) := by
  unfold bounded
  split
  · exact justified_fail .tooDeep
  · exact justified_ok _

/-! ## Operands -/

/-- Operands, one behind the other, each of which means an expression or is refused with reason. -/
def AreOperands (trees : List Tree) : Prop :=
  ∀ t ∈ trees, Justified (Part.expr ⟨t, meaning t⟩)

/-- One operand as a list of operands. -/
theorem Gives.areOperands (h : Gives Justified trees) : AreOperands trees := by
  obtain ⟨t, result, rfl, -, hmeaning, hresult⟩ := h
  refine List.forall_mem_singleton.mpr ?_
  rwa [expr_of_meaning hmeaning]

theorem areOperands_nil : AreOperands [] := by rintro t ⟨⟩

theorem AreOperands.append {left right : List Tree} (h : AreOperands left)
    (h' : AreOperands right) : AreOperands (left ++ right) :=
  fun t ht => (List.mem_append.mp ht).elim (h t) (h' t)

/-- A list of operands fails as the first one that does. -/
theorem justified_exprs (h : ∀ p ∈ parts, Justified p.expr) : Justified (exprs parts) := by
  induction parts with
  | nil => exact justified_ok _
  | cons p rest ih =>
      obtain ⟨hp, hrest⟩ := List.forall_mem_cons.mp h
      rw [exprs]
      exact hp.elim (fun _ herr => herr.error) fun _ _ => (ih hrest).map

/-- There are as many operands as parts. -/
theorem length_of_exprs {es : List Expr} (h : exprs parts = .ok es) : es.length = parts.length := by
  induction parts generalizing es with
  | nil =>
      obtain rfl := Except.ok.inj h
      rfl
  | cons p rest ih =>
      obtain ⟨e, more, -, hmore, rfl⟩ := exprs_cons_eq_ok_iff.mp h
      rw [List.length_cons, List.length_cons, ih hmore]

theorem AreOperands.justified_exprs (h : AreOperands trees) :
    Justified (exprs (meanings trees)) := by
  refine Expr.justified_exprs fun p hp => ?_
  rw [meanings_eq_map] at hp
  obtain ⟨t, ht, rfl⟩ := List.mem_map.mp hp
  exact h t ht

/-- A node that means an expression, or is refused with reason, is an operand. -/
theorem gives_node (hname : name ∉ operatorRules)
    (h : ∃ result, meaning (.node name span trees) = result.map Piece.operand
      ∧ Justified result) : Gives Justified [.node name span trees] := by
  obtain ⟨result, hmeaning, hresult⟩ := h
  exact ⟨_, result, rfl, hname, hmeaning, hresult⟩

/-! ## Chains -/

/-- One operator of a level. -/
def IsOperatorOf (name : Rule) (trees : List Tree) : Prop :=
  ∃ (operator : BinaryOperator) (span : Span) (w : List Char),
    operator.level.1 = name ∧ trees = [.token operator.rule span w]

/-- Operators and operands in turn. -/
abbrev Linked (name : Rule) : List Tree → Prop :=
  Repeated (Joined (IsOperatorOf name) (Gives Justified))

/-- An operator is always followed by an operand, so only operands and depth are refused. -/
theorem justified_leftChain (h : Linked name trees) :
    Justified (leftChain e (meanings trees)) := by
  -- an operator and an operand at a time, behind whatever they have made so far
  induction h generalizing e with
  | nil => exact justified_ok _
  | more h _ ih =>
      obtain ⟨_, _, rfl, ⟨operator, place, w, -, rfl⟩, t, result, rfl, -, hmeaning, hresult⟩ := h
      rw [List.append_assoc, List.singleton_append, List.singleton_append, meanings, meanings,
        leftChain, operator.meaning_token]
      dsimp only
      rw [expr_of_meaning hmeaning]
      refine hresult.elim (fun _ herr => herr.error) fun right _ => ?_
      dsimp only
      exact justified_bounded.elim (fun _ herr => herr.error) fun _ _ => ih

/-- The operands of a chain whose level has this operator alone are the parts with other rules. -/
theorem Linked.areOperands {operator : BinaryOperator}
    (hone : ∀ o : BinaryOperator, o.level.1 = name → o = operator) (h : Linked name trees) :
    ∀ t ∈ trees, t.rule ≠ operator.rule → Justified (Part.expr ⟨t, meaning t⟩) := by
  induction h with
  | nil => rintro t ⟨⟩
  | more h _ ih =>
      obtain ⟨_, _, rfl, ⟨o, place, w, ho, rfl⟩, hoperand⟩ := h
      intro t ht hrule
      rw [List.append_assoc, List.singleton_append] at ht
      rcases List.mem_cons.mp ht with rfl | ht
      · -- an operator of the level is the one that is left out
        obtain rfl := hone o ho
        exact absurd rfl hrule
      · exact (List.mem_append.mp ht).elim (hoperand.areOperands t) fun ht => ih t ht hrule

/-- The same for connectives, whose operands are taken out of the chain at once. -/
theorem justified_logicalChain {operator : BinaryOperator} {operand : List Tree}
    (hrule : operator.rule ∈ operatorRules)
    (hone : ∀ o : BinaryOperator, o.level.1 = name → o = operator)
    (hfirst : Gives Justified operand) (h : Linked name trees) :
    Justified (logicalChain span operator operator.rule (meanings (operand ++ trees))) := by
  have hterms : ∀ p ∈ terms operator.rule (meanings (operand ++ trees)), Justified p.expr := by
    intro p hp
    obtain ⟨hmem, hne⟩ := List.mem_filter.mp hp
    rw [meanings_eq_map] at hmem
    obtain ⟨t, ht, rfl⟩ := List.mem_map.mp hmem
    rcases List.mem_append.mp ht with ht | ht
    · exact hfirst.areOperands t ht
    · exact h.areOperands hone t ht (of_decide_eq_true hne)
  -- the first operand is a term, so there is one
  have hnonempty : terms operator.rule (meanings (operand ++ trees)) ≠ [] := by
    obtain ⟨t, _, rfl, ht, -, -⟩ := hfirst
    have hne : t.rule ≠ operator.rule := fun heq => ht (heq ▸ hrule)
    rw [List.singleton_append, meanings, terms, List.filter_cons_of_pos (by simpa using hne)]
    exact List.cons_ne_nil _ _
  rw [logicalChain]
  refine (justified_exprs hterms).elim (fun _ herr => herr.error) fun es hes => ?_
  cases es with
  | nil => exact absurd (List.length_eq_zero_iff.mp (length_of_exprs hes).symm) hnonempty
  | cons first rest => exact justified_bounded

/-- A chain of operands with operators of its level between them is an operand again. -/
theorem gives_chain {operand : List Tree} (hname : name ∈ levels.map Prod.fst) (span : Span)
    (hfirst : Gives Justified operand) (h : Linked name trees) :
    Gives Justified [.node name span (operand ++ trees)] := by
  have hall : ∀ r ∈ levels.map Prod.fst, r ∉ operatorRules := by decide
  -- the levels of relations and arithmetic share their function
  have harithmetic : Justified (arithmeticChain span (meanings (operand ++ trees))) := by
    obtain ⟨t, result, rfl, -, hmeaning, hresult⟩ := hfirst
    rw [List.singleton_append, meanings, arithmeticChain, expr_of_meaning hmeaning]
    exact hresult.elim (fun _ herr => herr.error) fun _ _ => justified_leftChain h
  refine gives_node (hall name hname) ?_
  rw [meaning]
  simp only [levels, List.map_cons, List.map_nil, List.mem_cons, List.not_mem_nil, or_false]
    at hname
  -- and the connectives have one operator each
  rcases hname with rfl | rfl | rfl | rfl | rfl
  · exact ⟨_, rfl, harithmetic⟩
  · exact ⟨_, rfl, harithmetic⟩
  · exact ⟨_, rfl, harithmetic⟩
  · have hand : ∀ o : BinaryOperator, o.level.1 = .logicalAnd → o = .and := by
      intro o ho
      cases o <;> first | rfl | cases ho
    exact ⟨_, rfl, justified_logicalChain (by decide) hand hfirst h⟩
  · have hor : ∀ o : BinaryOperator, o.level.1 = .logicalOr → o = .or := by
      intro o ho
      cases o <;> first | rfl | cases ho
    exact ⟨_, rfl, justified_logicalChain (by decide) hor hfirst h⟩

/-! ## Operators in front -/

/-- What a minus sign makes of the tree is justified. -/
def Signable (t : Tree) : Prop := ∀ span, Justified (negatedLiteral span t)

/-- Operators in front of an operand can only make it too deep. -/
theorem justified_applyAll {operators : List UnaryOperator} :
    Justified (applyAll span operators e) := by
  induction operators generalizing e with
  | nil => exact justified_ok _
  | cons operator rest ih =>
      rw [applyAll]
      exact justified_bounded.elim (fun _ herr => herr) fun _ _ => ih

/-- A sign that belongs to a number fails only if the number is out of range. -/
theorem Signable.justified_signedNumber (h : Signable t) (rs : List (UnaryOperator × Nat)) :
    Justified (signedNumber span t rs) := by
  unfold signedNumber
  split
  · split
    · exact h span
    · exact justified_ok _
  · exact justified_ok _

/-- Behind operators the operand is the last part. -/
theorem getLast?_operand {m : Except ParseError Piece} (ht : t.rule ∉ operatorRules) :
    ((parts ++ [Part.mk t m]).filter Part.isOperand).getLast? = some ⟨t, m⟩ := by
  rw [List.filter_append, List.filter_cons_of_pos (isOperand_of_rule ht), List.filter_nil,
    List.getLast?_concat]

/-- An operand with any operators in front of it is an operand again. -/
theorem gives_unary {fronts operand : List Tree} (span : Span) (hoperand : Gives Justified operand)
    (hsign : ∀ t ∈ operand, Signable t) :
    Gives Justified [.node .unary span (fronts ++ operand)] := by
  obtain ⟨t, result, rfl, ht, hmeaning, hresult⟩ := hoperand
  have hlast : ((meanings (fronts ++ [t])).filter Part.isOperand).getLast?
      = some ⟨t, meaning t⟩ := by
    rw [meanings_eq_map, List.map_append]
    exact getLast?_operand ht
  refine gives_node (by decide)
    ⟨fronted span (meanings (fronts ++ [t])), by rw [meaning, ofNode], ?_⟩
  rw [fronted_eq, hlast]
  dsimp only
  -- the sign is tried first, and the operand itself is read where there is none
  refine ((hsign t List.mem_cons_self).justified_signedNumber _).elim (fun _ herr => herr.error)
    fun number _ => ?_
  rcases number with _ | number
  · dsimp only
    rw [expr_of_meaning hmeaning]
    exact hresult.elim (fun _ herr => herr) fun _ _ => justified_applyAll
  · exact justified_applyAll

/-! ## Members and calls -/

/-- What follows an operand behind a dot: behind any operand it is justified. -/
def IsSuffix (trees : List Tree) : Prop :=
  ∃ t, trees = [t] ∧ ∀ e, Justified (suffixed e ⟨t, meaning t⟩)

/-- A suffix is one, so only arguments and depth are refused. -/
theorem justified_suffixes (h : Repeated IsSuffix trees) :
    Justified (suffixes e (meanings trees)) := by
  induction h generalizing e with
  | nil => exact justified_ok _
  | more h _ ih =>
      obtain ⟨t, rfl, ht⟩ := h
      rw [List.singleton_append, meanings, suffixes]
      exact (ht e).elim (fun _ herr => herr) fun _ _ => ih

/-- An operand with what follows it behind dots is an operand again. -/
theorem gives_member {operand : List Tree} (span : Span) (hoperand : Gives Justified operand)
    (h : Repeated IsSuffix trees) : Gives Justified [.node .member span (operand ++ trees)] := by
  obtain ⟨t, result, rfl, -, hmeaning, hresult⟩ := hoperand
  refine gives_node (by decide)
    ⟨memberOf span (meanings ([t] ++ trees)), by rw [meaning, ofNode], ?_⟩
  rw [List.singleton_append, meanings, memberOf, expr_of_meaning hmeaning]
  exact hresult.elim (fun _ herr => herr) fun _ _ => justified_suffixes h

/-- An operand that may have something behind it and a sign in front. -/
structure IsPrimary (trees : List Tree) : Prop where
  gives : Gives Justified trees
  signable : ∀ place, Signable (.node .member place trees)

/-- A number with anything behind it is no number any more. -/
theorem IsPrimary.signable_member {operand : List Tree} (span : Span) (hoperand : IsPrimary operand)
    (h : Repeated IsSuffix trees) : Signable (.node .member span (operand ++ trees)) := by
  cases h with
  | nil =>
      rw [List.append_nil]
      exact hoperand.signable span
  | more h _ =>
      obtain ⟨_, _, rfl, -⟩ := hoperand.gives
      obtain ⟨_, rfl, -⟩ := h
      intro place
      rw [negatedLiteral_of_length (by simp [Tree.children])]
      exact justified_ok none

/-- A function's name comes first, and operands follow. -/
theorem justified_nameAndArguments (name : Tree) (h : AreOperands trees) :
    Justified (nameAndArguments span (meanings (name :: trees))) := by
  rw [meanings, nameAndArguments]
  exact h.justified_exprs.map

/-- A call on a receiver is a suffix. -/
theorem isSuffix_memberCall (name : Tree) (span : Span) (h : AreOperands trees) :
    IsSuffix [.node .memberCall span (name :: trees)] := by
  refine ⟨_, rfl, fun e => ?_⟩
  rw [suffixed, meaning, ofNode]
  refine (justified_nameAndArguments name h).elim (fun _ herr => herr.error) fun _ _ => ?_
  exact justified_bounded

theorem isSuffix_fieldSelect (name : Tree) (span : Span) :
    IsSuffix [.node .fieldSelect span [name]] :=
  ⟨_, rfl, fun _ => justified_bounded⟩

/-- A call is an operand. -/
theorem gives_globalCall (name : Tree) (span : Span) (h : AreOperands trees) :
    Gives Justified [.node .globalCall span (name :: trees)] := by
  refine gives_node (by decide) ?_
  rw [meaning, ofNode]
  exact (justified_nameAndArguments name h).elim
    (fun err herr => ⟨.error err, rfl, herr.error⟩) fun _ _ => ⟨_, rfl, justified_bounded⟩

theorem gives_listLiteral (span : Span) (h : AreOperands trees) :
    Gives Justified [.node .listLiteral span trees] := by
  refine gives_node (by decide) ?_
  rw [meaning, ofNode]
  exact h.justified_exprs.elim
    (fun err herr => ⟨.error err, rfl, herr.error⟩) fun _ _ => ⟨_, rfl, justified_bounded⟩

/-- A node is no number. -/
theorem Gives.isPrimary_node {name : Rule} {span : Span} {inner : List Tree}
    (h : Gives Justified [.node name span inner]) : IsPrimary [.node name span inner] :=
  ⟨h, fun _ _ => justified_ok none⟩

/-! ## Tokens -/

/-- A literal that has a value, unless the cause is genuine. -/
theorem gives_literalPiece {toValue : α → Value} {found : Option α} (ht : t.rule ∉ operatorRules)
    (hmeaning : meaning t = literalPiece span toValue cause found)
    (h : found = none → cause.Genuine) : Gives Justified [t] := by
  rcases found with _ | value
  · exact ⟨t, fail span cause, rfl, ht, hmeaning, justified_fail (h rfl)⟩
  · exact ⟨t, .ok (literalAt span (toValue value)), rfl, ht, hmeaning, justified_ok _⟩

/-- So is a quoted literal, which is refused for a faulty escape only. -/
theorem gives_quotedPiece {toValue : α → Value} {found : Except Escape.Fault α}
    (ht : t.rule ∉ operatorRules) (hmeaning : meaning t = quotedPiece span toValue found)
    (h : ∀ fault, found = .error fault → fault.Invalid) : Gives Justified [t] := by
  rcases found with fault | value
  · exact ⟨t, fail span (.escape fault), rfl, ht, hmeaning, justified_fail (.escape (h fault rfl))⟩
  · exact ⟨t, .ok (literalAt span (toValue value)), rfl, ht, hmeaning, justified_ok _⟩

variable {v : Nat}

/-- An integer is a literal, or too large. -/
theorem isPrimary_litInt (span : Span) (h : Numeral.Denotes w v) :
    IsPrimary [.token .litInt span w] where
  gives := by
    have hrule : Rule.litInt ∉ operatorRules := by decide
    refine gives_literalPiece hrule rfl fun hnone => .intRange h ?_
    rw [h.int?_eq] at hnone
    split at hnone
    · cases hnone
    · next hlarge =>
        have hpow : Nat.pow 2 63 = 2 ^ 63 := rfl
        omega
  -- behind a sign the number may be greater by one
  signable place span := by
    have hread := h.int?_neg
    rw [negatedLiteral, Tree.children]
    dsimp only
    rw [hread]
    split
    · exact justified_ok _
    · next hnone =>
        split at hnone
        · cases hnone
        · next hlarge => exact justified_fail (.negativeRange h (Nat.lt_of_not_le hlarge))

/-- A double is a literal, with a sign or without. -/
theorem isPrimary_litDouble (span : Span) {d : Double} (h : Numeral.double? w = some d) :
    IsPrimary [.token .litDouble span w] where
  gives := by
    have hrule : Rule.litDouble ∉ operatorRules := by decide
    refine gives_literalPiece hrule rfl fun hnone => ?_
    rw [h] at hnone
    cases hnone
  signable place span := by
    rw [negatedLiteral, Tree.children]
    dsimp only
    rw [h]
    exact justified_ok _

/-- An unsigned integer is refused if it is out of range. -/
theorem isPrimary_litUint (span : Span) {suffix : Char} (hsuffix : suffix ∈ ['u', 'U'])
    (h : Numeral.Denotes w v) : IsPrimary [.token .litUint span (w ++ [suffix])] where
  gives := by
    have hrule : Rule.litUint ∉ operatorRules := by decide
    refine gives_literalPiece hrule rfl fun hnone => .uintRange hsuffix h ?_
    rw [h.uint?_eq hsuffix] at hnone
    split at hnone
    · cases hnone
    · next hlarge =>
        have hsize : UInt64.size = 2 ^ 64 := rfl
        omega
  signable _ _ := justified_ok none

theorem isPrimary_litString (span : Span) (h : Escape.Quoted w) :
    IsPrimary [.token .litString span w] where
  gives := by
    have hrule : Rule.litString ∉ operatorRules := by decide
    exact gives_quotedPiece hrule rfl fun _ => h.invalid_of_string
  signable _ _ := justified_ok none

/-- Bytes are refused for theirs, behind the letter in front of the quote. -/
theorem isPrimary_litBytes (span : Span) (h : Escape.Quoted (w.drop 1)) :
    IsPrimary [.token .litBytes span w] where
  gives := by
    have hrule : Rule.litBytes ∉ operatorRules := by decide
    exact gives_quotedPiece hrule rfl fun _ => h.invalid_of_literal
  signable _ _ := justified_ok none

/-- The word for null is never refused. -/
theorem isPrimary_litNull (span : Span) (w : List Char) : IsPrimary [.token .litNull span w] where
  gives := ⟨_, .ok (literalAt span .null), rfl, (by decide : Rule.litNull ∉ operatorRules), rfl,
    justified_ok _⟩
  signable _ _ := justified_ok none

theorem isPrimary_litBoolean (span : Span) (w : List Char) :
    IsPrimary [.token .litBoolean span w] where
  gives := ⟨_, .ok (literalAt span (.boolean (w = "true".toList))), rfl,
    (by decide : Rule.litBoolean ∉ operatorRules), rfl, justified_ok _⟩
  signable _ _ := justified_ok none

theorem isPrimary_ident (span : Span) (w : List Char) : IsPrimary [.token .ident span w] where
  gives := ⟨_, .ok (identAt span (String.ofList w)), rfl, (by decide : Rule.ident ∉ operatorRules),
    rfl, justified_ok _⟩
  signable _ _ := justified_ok none

end Expr

end RowFilter
