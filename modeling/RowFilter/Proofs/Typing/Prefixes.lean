/-
Types of operators in front, before they cancel.

The checker sees one operator for each run of odd length. Each of the two operators has operands and
results of one type, so it can be put in front of an expression as often as one likes if it can once,
and nothing around it can tell: the types in every environment stay what they are, and so do the
dotted names that expressions spell (`SameTypes`). The builder respects this (`congruent_sameTypes`),
so an expression in which all operators of odd runs are kept has the types of the one that is built
(`sameTypes_kept`). Of a run of even length the checker sees nothing, whatever it stands in front of.
-/
import RowFilter.Proofs.Expr.Congruence
import RowFilter.Proofs.Expr.Kept
import RowFilter.Proofs.Typing.Depth

set_option autoImplicit false

namespace RowFilter.Typing

open Grammar (Rule Tree)
open List (Forall₂)
open RowFilter.Expr (SubExpr Part Piece Stack Agree Congruent stacked stack_stacked runs
  frontOperators uncancelled oddOf allOf mem_oddOf_iff bareOperand keptFronted keptNode keptMeaning
  keptMeanings kept withoutSign bareOperand_of_operand bareOperand_of_number stack_of_applyAll
  fronted_cases of_signedNumber number_of_negatedLiteral)

variable {env : Environment} {e e' operand operand' : Expr} {es es' : List Expr} {type : ValueType}
  {types : List ValueType} {span place : Span}

/-! ## Types of expressions -/

/-- The rules derive this type. -/
def HasType (env : Environment) (e : Expr) (type : ValueType) : Prop := ∃ t, Elaborates env e type t

/-- The rules derive these types. -/
def HaveTypes (env : Environment) (es : List Expr) (types : List ValueType) : Prop :=
  ∃ ts, ElaboratesAll env es types ts

/-- Expressions that nothing around them can tell apart: they are equally deep, spell the same name if
they spell one, and have the same types in every environment. -/
structure SameTypes (e e' : Expr) : Prop where
  depth_eq : e.depth = e'.depth
  name_eq : e.qualifiedName? = e'.qualifiedName?
  types : ∀ env type, HasType env e type ↔ HasType env e' type

namespace SameTypes

theorem refl (e : Expr) : SameTypes e e := ⟨rfl, rfl, fun _ _ => Iff.rfl⟩

theorem symm (h : SameTypes e e') : SameTypes e' e :=
  ⟨h.depth_eq.symm, h.name_eq.symm, fun env type => (h.types env type).symm⟩

/-- What has the same types as a third one has the same as each other. -/
theorem trans {e'' : Expr} (h : SameTypes e e') (h' : SameTypes e' e'') : SameTypes e e'' :=
  ⟨h.depth_eq.trans h'.depth_eq, h.name_eq.trans h'.name_eq,
    fun env type => (h.types env type).trans (h'.types env type)⟩

/-- Lists that have the same types have each list of types alike. -/
theorem haveTypes (h : Forall₂ SameTypes es es') (htypes : HaveTypes env es types) :
    HaveTypes env es' types := by
  obtain ⟨ts, hts⟩ := htypes
  induction h generalizing types ts with
  | nil => exact ⟨ts, hts⟩
  | cons hhead _ ih =>
      cases hts with
      | cons ht hts =>
          obtain ⟨u, hu⟩ := (hhead.types env _).mp ⟨_, ht⟩
          obtain ⟨us, hus⟩ := ih _ hts
          exact ⟨u :: us, .cons hu hus⟩

/-- Nodes over them are as deep. -/
theorem depths_eq (h : Forall₂ SameTypes es es') : Expr.depthOver es = Expr.depthOver es' := by
  have hdepths : es.map Expr.depth = es'.map Expr.depth := by
    induction h with
    | nil => rfl
    | cons hhead _ ih => rw [List.map_cons, List.map_cons, hhead.depth_eq, ih]
  rw [Expr.depthOver, Expr.depthOver, hdepths]

theorem flip (h : Forall₂ SameTypes es es') : Forall₂ SameTypes es' es :=
  (h.imp fun _ _ => symm).flip

end SameTypes

/-! ### Nodes over expressions of the same types -/

/-- Nodes of one kind with one operator, field or function, over any expressions. -/
inductive SameHead : Expr → Expr → Prop
  | select (info info' : NodeInfo) (operand operand' : Expr) (field : String) :
      SameHead (.select info operand field) (.select info' operand' field)
  | unary (info info' : NodeInfo) (operator : UnaryOperator) (operand operand' : Expr) :
      SameHead (.unary info operator operand) (.unary info' operator operand')
  | binary (info info' : NodeInfo) (operator : BinaryOperator) (left left' right right' : Expr) :
      SameHead (.binary info operator left right) (.binary info' operator left' right')
  | call (info info' : NodeInfo) (function : String) (arguments arguments' : List Expr) :
      SameHead (.call info function arguments) (.call info' function arguments')
  | method (info info' : NodeInfo) (receiver receiver' : Expr) (function : String)
      (arguments arguments' : List Expr) :
      SameHead (.method info receiver function arguments) (.method info' receiver' function arguments')
  | list (info info' : NodeInfo) (elements elements' : List Expr) :
      SameHead (.list info elements) (.list info' elements')

namespace SameHead

theorem symm (h : SameHead e e') : SameHead e' e := by
  cases h <;> constructor

/-- Nodes of the same shape over the same names have the same name. -/
theorem name_eq (h : SameHead e e') (hchildren : Forall₂ SameTypes e.children e'.children) :
    e.qualifiedName? = e'.qualifiedName? := by
  cases h with
  | select info info' operand operand' field =>
      cases hchildren with
      | cons hoperand => rw [Expr.qualifiedName?, Expr.qualifiedName?, hoperand.name_eq]
  | _ => rfl

/-- A type that is derived over expressions is derived over others of the same types. -/
theorem hasType (h : SameHead e e') (hchildren : Forall₂ SameTypes e.children e'.children)
    (htype : HasType env e type) : HasType env e' type := by
  have hname := h.name_eq hchildren
  obtain ⟨t, ht⟩ := htype
  cases h with
  | select info info' operand operand' field =>
      cases hchildren with
      | cons hoperand =>
          cases ht with
          -- which of the two rules applies is decided by the name of the whole, and both have it
          | name hspelled hdeclared => exact ⟨_, .name (hname ▸ hspelled) hdeclared⟩
          | select hwhole ho =>
              obtain ⟨u, hu⟩ := (hoperand.types env _).mp ⟨_, ho⟩
              exact ⟨_, .select (fun name hspelled => hwhole name (hname.trans hspelled)) hu⟩
  | unary info info' operator operand operand' =>
      cases hchildren with
      | cons hoperand =>
          cases ht with
          | name hspelled => cases hspelled
          | unary ho hrule =>
              obtain ⟨u, hu⟩ := (hoperand.types env _).mp ⟨_, ho⟩
              exact ⟨_, .unary hu hrule⟩
  | binary info info' operator left left' right right' =>
      cases hchildren with
      | cons hleft hmore =>
          cases hmore with
          | cons hright =>
              cases ht with
              | name hspelled => cases hspelled
              | binary hl hr hrule =>
                  obtain ⟨u, hu⟩ := (hleft.types env _).mp ⟨_, hl⟩
                  obtain ⟨v, hv⟩ := (hright.types env _).mp ⟨_, hr⟩
                  exact ⟨_, .binary hu hv hrule⟩
  | call info info' function arguments arguments' =>
      cases ht with
      | name hspelled => cases hspelled
      | call has hrule =>
          obtain ⟨us, hus⟩ := SameTypes.haveTypes hchildren ⟨_, has⟩
          exact ⟨_, .call hus hrule⟩
  | method info info' receiver receiver' function arguments arguments' =>
      cases hchildren with
      | cons hreceiver harguments =>
          cases ht with
          | name hspelled => cases hspelled
          | method hr has hrule =>
              obtain ⟨u, hu⟩ := (hreceiver.types env _).mp ⟨_, hr⟩
              obtain ⟨us, hus⟩ := SameTypes.haveTypes harguments ⟨_, has⟩
              exact ⟨_, .method hu hus hrule⟩
  | list info info' elements elements' =>
      cases ht with
      | name hspelled => cases hspelled
      | list hes hrule =>
          obtain ⟨us, hus⟩ := SameTypes.haveTypes hchildren ⟨_, hes⟩
          exact ⟨_, .list hus hrule⟩

/-- Nodes as deep as they are made, over expressions of the same types. -/
theorem sameTypes (h : SameHead e e') (hchildren : Forall₂ SameTypes e.children e'.children)
    (hdepth : e.depth = Expr.depthOver e.children) (hdepth' : e'.depth = Expr.depthOver e'.children) :
    SameTypes e e' where
  depth_eq := by rw [hdepth, hdepth', SameTypes.depths_eq hchildren]
  name_eq := h.name_eq hchildren
  types _ _ := ⟨h.hasType hchildren, h.symm.hasType (SameTypes.flip hchildren)⟩

end SameHead

/-- A literal has the type of its value. -/
theorem hasType_literal {info : NodeInfo} {value : Value} :
    HasType env (.literal info value) type ↔ type = value.kind := by
  constructor
  · rintro ⟨t, ht⟩
    cases ht with
    | literal => rfl
    | name hspelled => cases hspelled
  · rintro rfl
    exact ⟨_, .literal info value⟩

/-- An identifier has the type that is declared for it. -/
theorem hasType_ident {info : NodeInfo} {name : String} :
    HasType env (.ident info name) type ↔ env.lookup? name = some type := by
  constructor
  · rintro ⟨t, ht⟩
    cases ht with
    | name hspelled hdeclared =>
        obtain rfl := Option.some.inj hspelled
        exact hdeclared
  · exact fun hdeclared => ⟨_, .name rfl hdeclared⟩

/-- **Types are all that counts.** Nodes over expressions of the same types have the same types. -/
theorem congruent_sameTypes : Congruent SameTypes where
  depth_eq h := h.depth_eq
  literalAt _ _ _ := ⟨rfl, rfl, fun _ _ => hasType_literal.trans hasType_literal.symm⟩
  identAt _ _ _ := ⟨rfl, rfl, fun _ _ => hasType_ident.trans hasType_ident.symm⟩
  selectAt _ _ _ h := (SameHead.select ..).sameTypes (.cons h .nil) rfl rfl
  binaryAt _ _ _ hleft hright :=
    (SameHead.binary ..).sameTypes (.cons hleft (.cons hright .nil)) rfl rfl
  unaryAt _ _ _ h := (SameHead.unary ..).sameTypes (.cons h .nil) rfl rfl
  callAt _ _ _ h := (SameHead.call ..).sameTypes h rfl rfl
  methodAt _ _ _ h hall := (SameHead.method ..).sameTypes (.cons h hall) rfl rfl
  listAt _ _ h := (SameHead.list ..).sameTypes h rfl rfl

/-! ## Operators in front -/

/-- An operator in front keeps the type of its operand, if it has one that fits. -/
theorem hasType_unary {info : NodeInfo} {operator : UnaryOperator} :
    HasType env (.unary info operator operand) type
      ↔ HasType env operand type ∧ UnaryRule operator type type := by
  constructor
  · rintro ⟨t, ht⟩
    cases ht with
    | name hspelled => cases hspelled
    | unary hoperand hrule => cases hrule <;> exact ⟨⟨_, hoperand⟩, by constructor⟩
  · rintro ⟨⟨t, ht⟩, hrule⟩
    exact ⟨_, .unary ht hrule⟩

/-- Operators in front of an operand keep its type, if it fits each of them. -/
theorem hasType_stack {operators : List UnaryOperator} {whole : Expr}
    (h : Stack operand operators whole) : HasType env whole type
      ↔ HasType env operand type ∧ ∀ operator ∈ operators, UnaryRule operator type type := by
  induction h with
  | nothing e => simp
  | operator info operator _ ih => rw [ih, hasType_unary, List.forall_mem_cons, and_assoc]

/-- With operators in front an expression spells no name. -/
theorem name_stack {operators : List UnaryOperator} {whole : Expr}
    (h : Stack operand operators whole) (hname : operators ≠ [] ∨ operand.qualifiedName? = none) :
    whole.qualifiedName? = none := by
  induction h with
  | nothing e => exact hname.resolve_left fun hne => hne rfl
  | operator info operator _ ih => exact ih (.inr rfl)

/-- The outermost of the operators that are kept stands on the level of the whole. -/
theorem depth_stacked (info : NodeInfo) {operators : List UnaryOperator} (hne : operators ≠ [])
    (e : Expr) : (stacked info operators e).depth = info.depth := by
  rcases List.eq_nil_or_concat operators with rfl | ⟨inner, outermost, rfl⟩
  · exact absurd rfl hne
  · rw [stacked, List.concat_eq_append, List.foldl_append]
    rfl

/-- What is kept has the types of the whole, if operand and operators together say the same. -/
theorem sameTypes_stacked {operators chosen : List UnaryOperator} {whole : Expr}
    (h : Stack e operators whole) (hne : chosen ≠ []) (hname : whole.qualifiedName? = none)
    (htypes : ∀ env type,
      (HasType env e type ∧ ∀ operator ∈ operators, UnaryRule operator type type)
        ↔ HasType env e' type ∧ ∀ operator ∈ chosen, UnaryRule operator type type) :
    SameTypes whole (stacked whole.info chosen e') where
  depth_eq := (depth_stacked whole.info hne e').symm
  name_eq := hname.trans (name_stack (stack_stacked whole.info chosen e') (.inl hne)).symm
  types env type := by
    rw [hasType_stack h, hasType_stack (stack_stacked whole.info chosen e')]
    exact htypes env type

/-- A number and the same number without its sign have one type, and it fits a minus sign. -/
theorem hasType_withoutSign {tree : Tree} {number : Expr}
    (h : Expr.negatedLiteral span tree = .ok (some number)) :
    number.qualifiedName? = none
      ∧ (∀ env type, HasType env number type ↔ HasType env (withoutSign number) type)
      ∧ ∀ env type, HasType env number type → UnaryRule .negate type type := by
  -- the type of a literal is the kind of its value, whatever the value is
  have hkind : ∀ {value value' : Value} {env : Environment} {type : ValueType},
      value.kind = value'.kind →
        (HasType env (.literalAt span value) type ↔ HasType env (.literalAt span value') type) := by
    intro value value' env type hkind
    rw [Expr.literalAt, Expr.literalAt, hasType_literal, hasType_literal, hkind]
  rcases number_of_negatedLiteral h with ⟨value, rfl⟩ | ⟨value, rfl⟩
  · refine ⟨rfl, fun env type => hkind rfl, fun env type htype => ?_⟩
    obtain rfl := hasType_literal.mp htype
    exact .negateInt
  · refine ⟨rfl, fun env type => hkind rfl, fun env type htype => ?_⟩
    obtain rfl := hasType_literal.mp htype
    exact .negateDouble

/-- **Operators of odd runs can be kept.** What the builder makes of an operand with operators in
front has the types of what has all operators of odd runs in it. -/
theorem sameTypes_fronted {parts : List Part} {whole : Expr}
    (h : Expr.fronted span parts = .ok whole) : ∃ e, bareOperand span parts = .ok e
      ∧ SameTypes whole (stacked whole.info (oddOf (runs (frontOperators parts).reverse)) e) := by
  cases fronted_cases h with
  | @operand _ e hlast hsigned hinner happlied =>
      have hstack := stack_of_applyAll happlied
      refine ⟨e, (bareOperand_of_operand hlast hsigned).trans hinner, ?_⟩
      generalize runs (frontOperators parts).reverse = rs at hstack
      by_cases hne : oddOf rs = []
      · -- every operator has cancelled, so the operand is the whole
        have hnone : uncancelled rs = [] := by
          refine List.eq_nil_iff_forall_not_mem.mpr fun operator hmem => ?_
          rw [← mem_oddOf_iff, hne] at hmem
          cases hmem
        rw [hnone] at hstack
        cases hstack
        rw [hne]
        exact .refl _
      · have huncancelled : uncancelled rs ≠ [] := by
          obtain ⟨operator, hmem⟩ := List.exists_mem_of_ne_nil _ hne
          exact List.ne_nil_of_mem (mem_oddOf_iff.mp hmem)
        refine sameTypes_stacked hstack hne (name_stack hstack (.inl huncancelled)) fun env type => ?_
        simp only [mem_oddOf_iff]
  | @number _ number hlast hsigned happlied =>
      obtain ⟨count, rest, hruns, hodd, hnumber⟩ := of_signedNumber hsigned
      have hstack := stack_of_applyAll happlied
      rw [hruns, List.drop_one, List.tail_cons] at hstack
      refine ⟨withoutSign number, bareOperand_of_number hlast hsigned, ?_⟩
      -- the sign next to the number went into it, so one minus more is kept than has been applied
      obtain ⟨hname, hsame, hnegate⟩ := hasType_withoutSign hnumber
      have huncancelled : uncancelled ((.negate, count) :: rest) = .negate :: uncancelled rest :=
        List.filterMap_cons_some (if_pos hodd)
      have hmem : ∀ operator, operator ∈ oddOf ((.negate, count) :: rest)
          ↔ operator ∈ UnaryOperator.negate :: uncancelled rest := by
        intro operator
        rw [mem_oddOf_iff, huncancelled]
      have hne : oddOf ((.negate, count) :: rest) ≠ [] :=
        List.ne_nil_of_mem ((hmem .negate).mpr List.mem_cons_self)
      rw [hruns]
      refine sameTypes_stacked hstack hne (name_stack hstack (.inr hname)) fun env type => ?_
      simp only [hmem, List.forall_mem_cons, ← hsame env type]
      exact ⟨fun ⟨htype, hall⟩ => ⟨htype, hnegate env type htype, hall⟩,
        fun ⟨htype, _, hall⟩ => ⟨htype, hall⟩⟩

/-! ## Trees -/

/-- Operators that are kept give what the ones that are applied give, up to types. -/
theorem agree_keptFronted {ps qs : List Part} (h : Forall₂ (Part.Related SameTypes) ps qs) :
    Agree SameTypes (Expr.fronted span ps) (keptFronted oddOf span qs) := by
  have hagree : Agree SameTypes (Expr.fronted span ps) (Expr.fronted span qs) :=
    congruent_sameTypes.agree_fronted h
  rw [keptFronted]
  generalize Expr.fronted span ps = result at hagree ⊢
  -- the parts are related, so both sides come to something or neither does
  rcases hwhole : Expr.fronted span qs with err | whole
  · rw [hwhole] at hagree
    cases hagree with
    | error err' => exact .error err' err
  · obtain ⟨e, hbare, hkept⟩ := sameTypes_fronted hwhole
    rw [hwhole] at hagree
    rw [hbare]
    cases hagree with
    | ok hsame => exact .ok (hsame.trans hkept)

mutual

/-- What a tree means has the types of what it means if the operators of odd runs are kept. -/
theorem agree_keptMeaning (t : Tree) :
    Agree (Piece.Related SameTypes) (Expr.meaning t) (keptMeaning oddOf t) := by
  cases t with
  | token rule span text => exact congruent_sameTypes.agree_ofToken rule text
  | node rule span children =>
      rw [Expr.meaning, keptMeaning]
      have hparts := related_keptMeanings children
      unfold keptNode
      split
      · exact (agree_keptFronted hparts).map fun _ _ => .operand
      · exact congruent_sameTypes.agree_ofNode rule hparts
termination_by structural t

/-- The parts of a tree have the same types with the operators kept. -/
theorem related_keptMeanings (ts : List Tree) :
    Forall₂ (Part.Related SameTypes) (Expr.meanings ts) (keptMeanings oddOf ts) := by
  cases ts with
  | nil => exact .nil
  | cons t ts =>
      rw [Expr.meanings, keptMeanings]
      exact .cons ⟨rfl, agree_keptMeaning t⟩ (related_keptMeanings ts)
termination_by structural ts

end

/-! ## Programs -/

/-- All parts of a name with selections are such names. -/
theorem name_of_subExpr {n : Expr} (hn : SubExpr n e) (hname : e.qualifiedName? ≠ none) :
    n.qualifiedName? ≠ none := by
  induction hn with
  | root => exact hname
  | @inside c e hc _ ih =>
      cases e with
      | select info operand field =>
          obtain rfl := List.mem_singleton.mp hc
          refine ih fun hnone => hname ?_
          rw [Expr.qualifiedName?, hnone, Option.map_none]
      | ident => cases hc
      | _ => exact absurd rfl hname

/-- Every part of an expression with a type has a type, unless it belongs to a name. -/
theorem hasType_of_subExpr {n : Expr} (h : HasType env e type) (hn : SubExpr n e)
    (hname : n.qualifiedName? = none) : ∃ type, HasType env n type := by
  induction hn generalizing type with
  | root => exact ⟨type, h⟩
  | @inside c e hc hn ih =>
      obtain ⟨t, ht⟩ := h
      -- below a dotted name nothing has been typed, but all that stands there are names
      rcases ht.child_cases hc with ⟨_, hdotted, -⟩ | ⟨c', -, helaborates⟩
      · cases hdotted with
        | select hspelled =>
            refine absurd hname (name_of_subExpr (.inside hc hn) ?_)
            rw [hspelled]
            exact Option.some_ne_none _
      · exact ih ⟨c', helaborates⟩

/-- The expression with the operators of odd runs has the types of the one that is parsed. -/
theorem sameTypes_kept {tree : Tree} (h : Expr.ofTree tree = .ok e) :
    ∃ e', kept oddOf tree = .ok e' ∧ SameTypes e e' := by
  have hrelated : Part.Related SameTypes ⟨tree, Expr.meaning tree⟩ ⟨tree, keptMeaning oddOf tree⟩ :=
    ⟨rfl, agree_keptMeaning tree⟩
  have hagree : Agree SameTypes (Expr.ofTree tree) (kept oddOf tree) := hrelated.agree_expr
  rw [h] at hagree
  exact hagree.exists_of_ok

/-- **Cancelling hides no type error of an odd run.** A source that is compiled checks with the same
type if all operators of odd runs are kept, each as a node of its own, and every one of them stands
before an operand of a type that it is for. -/
theorem compile_keeps_types (env : Environment) {source : String} {t : TypedExpr}
    (h : env.compile source = .ok t) :
    ∃ tree e, Grammar.readProgram source.toList = .ok tree ∧ kept oddOf tree = .ok e
      ∧ (∃ t', check env e = .ok t' ∧ t'.type = t.type)
      ∧ ∀ info operator operand, SubExpr (.unary info operator operand) e →
          ∃ type, HasType env operand type ∧ UnaryRule operator type type := by
  obtain ⟨parsed, hparsed, hcheck⟩ := Environment.compile_eq_ok_iff.mp h
  obtain ⟨-, tree, htree, hmeaning⟩ := Expr.parse_eq_ok_iff.mp hparsed
  obtain ⟨e, hkept, hsame⟩ := sameTypes_kept hmeaning
  obtain ⟨t', ht'⟩ := (hsame.types env t.type).mp ⟨t, elaborates_of_check hcheck⟩
  -- the tree with the operators kept is checked in the same way, and each operator kept has its
  -- rule
  refine ⟨tree, e, htree, hkept, ⟨t', ?_, ht'.type_eq⟩, fun info operator operand hn => ?_⟩
  · exact check_eq_ok_iff_result.mpr ht'.visit_result
  · obtain ⟨type, htype⟩ := hasType_of_subExpr ⟨t', ht'⟩ hn rfl
    exact ⟨type, hasType_unary.mp htype⟩

/-! ### Pairs and runs -/

/-- A flag and a number. -/
def countEnv : Environment := ⟨[("active", .bool), ("count", .int)]⟩

/-- Operators of which one of three is left, and a sign that joins its number. -/
theorem compile_keeps_types_active : ∃ t, countEnv.compile "!!!active || ---count < -3" = .ok t
    ∧ ∃ tree e t', Grammar.readProgram "!!!active || ---count < -3".toList = .ok tree
      ∧ kept oddOf tree = .ok e ∧ check countEnv e = .ok t' ∧ t'.type = t.type := by
  have hcompiled : (countEnv.compile "!!!active || ---count < -3").isOk = true := by decide +kernel
  rcases h : countEnv.compile "!!!active || ---count < -3" with diagnostics | t
  · rw [h] at hcompiled
    cases hcompiled
  · obtain ⟨tree, e, htree, hkept, ⟨t', hcheck, htype⟩, -⟩ := compile_keeps_types countEnv h
    exact ⟨t, rfl, tree, e, t', htree, hkept, hcheck, htype⟩

/-- A pair in front of a number is accepted, though neither of its operators is for numbers. -/
theorem pair_before_number : (∃ t, countEnv.compile "!!count" = .ok t)
    ∧ ∃ tree e findings, Grammar.readProgram "!!count".toList = .ok tree
      ∧ kept allOf tree = .ok e ∧ check countEnv e = .error findings := by
  have hcompiled : (countEnv.compile "!!count").isOk = true := by decide +kernel
  -- the same text with all operators kept, where the check comes to nothing
  have hrefused : ((Grammar.readProgram "!!count".toList).toOption.bind fun tree =>
      (kept allOf tree).toOption.map fun e => (check countEnv e).isOk) = some false := by
    decide +kernel
  constructor
  · rcases h : countEnv.compile "!!count" with diagnostics | t
    · rw [h] at hcompiled
      cases hcompiled
    · exact ⟨t, rfl⟩
  · rcases htree : Grammar.readProgram "!!count".toList with failure | tree
    · rw [htree] at hrefused
      cases hrefused
    · rw [htree] at hrefused
      have hcheck : (kept allOf tree).toOption.map (fun e => (check countEnv e).isOk)
          = some false := hrefused
      rcases hkept : kept allOf tree with err | e
      · rw [hkept] at hcheck
        cases hcheck
      · rw [hkept] at hcheck
        have hfalse : (check countEnv e).isOk = false := Option.some.inj hcheck
        rcases hfindings : check countEnv e with findings | t
        · exact ⟨tree, e, findings, rfl, hkept, hfindings⟩
        · rw [hfindings] at hfalse
          cases hfalse

end RowFilter.Typing
