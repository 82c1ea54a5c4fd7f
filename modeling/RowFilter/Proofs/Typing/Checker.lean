/-
The checker decides the typing rules.

The checker hands on two things from the parts of a node, a result and a list of problems,
and accepts an expression if there is a result and no problem. The rules speak of results
only. So there are two things to show: that the results of the traversal are what the
rules derive, for which each node function is read as its rule, and that the problems add
nothing to this. The second is `visit_clean`: where there is a result, nothing has been
found.
-/
import RowFilter.Proofs.Typing.Elaboration
import RowFilter.Typing.Checker

set_option autoImplicit false

namespace RowFilter.Typing

open TypedExpr (Part)

variable {env : Environment}

/-! ## Results of verdicts -/

namespace Verdict

variable {α β : Type}

/-- Two verdicts have a result if both have. -/
theorem both_result {a : Verdict α} {b : Verdict β} {x : α} {y : β} :
    (a.both b).result = some (x, y) ↔ a.result = some x ∧ b.result = some y := by
  rcases a with ⟨_ | u, fs⟩ <;> rcases b with ⟨_ | v, gs⟩ <;> simp [both]

/-- A step has one if what it is made from has, and it does itself. -/
theorem andThen_result {a : Verdict α} {next : α → Verdict β} {y : β} :
    (a.andThen next).result = some y ↔
      ∃ x, a.result = some x ∧ (next x).result = some y := by
  rcases a with ⟨_ | u, fs⟩ <;> simp [andThen]

/-- Where there is a result, nothing has been found. -/
def Clean (v : Verdict α) : Prop := ∀ x, v.result = some x → v.findings = []

/-- A result without findings is clean. -/
theorem clean_fine (x : α) : (fine x).Clean := fun _ _ => rfl

/-- A fault has no result. -/
theorem clean_fault (span : Span) (issue : TypeIssue) : (fault span issue : Verdict α).Clean :=
  fun _ h => by cases h

/-- Two clean verdicts are clean together. -/
theorem Clean.both {a : Verdict α} {b : Verdict β} (ha : a.Clean) (hb : b.Clean) :
    (a.both b).Clean := by
  rintro ⟨x, y⟩ h
  obtain ⟨hx, hy⟩ := both_result.mp h
  rw [Verdict.both, ha x hx, hb y hy, List.append_nil]

theorem Clean.andThen {a : Verdict α} {next : α → Verdict β} (ha : a.Clean)
    (hnext : ∀ x, (next x).Clean) : (a.andThen next).Clean := by
  intro y h
  obtain ⟨x, hx, hy⟩ := andThen_result.mp h
  rw [Verdict.andThen, hx]
  dsimp only
  rw [ha x hx, hnext x y hy, List.append_nil]

end Verdict

/-! ## The node functions -/

section Nodes

variable {span : Span} {t : TypedExpr}

/-- Keys are selected from maps with texts for keys. -/
theorem fieldType?_eq_some_iff {type value : ValueType} :
    fieldType? type = some value ↔ type = .map .string value := by
  constructor
  · intro h
    unfold fieldType? at h
    split at h
    · rw [Option.some.inj h]
    · cases h
  · rintro rfl
    rfl

/-- An identifier has the type that is declared. -/
theorem identNode_result {name : String} :
    (identNode env span name).result = some t ↔
      ∃ type, env.lookup? name = some type ∧ t = .ident type name := by
  unfold identNode
  cases env.lookup? name <;> simp [Verdict.fine, Verdict.fault, eq_comm]

/-- A selection has the type of the values of a map. -/
theorem selectNode_result {field : String} {operand : TypedExpr} :
    (selectNode span field operand).result = some t ↔
      ∃ type, operand.type = .map .string type ∧ t = .select type operand field := by
  simp only [← fieldType?_eq_some_iff]
  unfold selectNode
  cases fieldType? operand.type <;> simp [Verdict.fine, Verdict.fault, eq_comm]

/-- A unary operation has the type of its rule. -/
theorem unaryNode_result {operator : UnaryOperator} {operand : TypedExpr} :
    (unaryNode span operator operand).result = some t ↔
      ∃ type, UnaryRule operator operand.type type ∧
        t = .call type operator.function [operand] := by
  simp only [← unaryType?_eq_some_iff]
  unfold unaryNode
  cases unaryType? operator operand.type <;> simp [Verdict.fine, Verdict.fault, eq_comm]

/-- So has a binary one. -/
theorem binaryNode_result {operator : BinaryOperator} {left right : TypedExpr} :
    (binaryNode span operator left right).result = some t ↔
      ∃ type, BinaryRule operator left.type right.type type
        ∧ t = .call type operator.function [left, right] := by
  simp only [← binaryType?_eq_some_iff]
  unfold binaryNode
  cases binaryType? operator left.type right.type <;>
    simp [Verdict.fine, Verdict.fault, eq_comm]

/-- So has a call. -/
theorem callNode_result {function : String} {arguments : List TypedExpr} :
    (callNode span function arguments).result = some t ↔
      ∃ type, CallRule function none (arguments.map TypedExpr.type) type
        ∧ t = .call type function arguments := by
  simp only [← callType_eq_ok_iff]
  unfold callNode
  cases callType function none (arguments.map TypedExpr.type) <;>
    simp [Verdict.fine, Verdict.fault, eq_comm]

/-- So has a call on a receiver. -/
theorem methodNode_result {receiver : TypedExpr} {function : String}
    {arguments : List TypedExpr} :
    (methodNode span receiver function arguments).result = some t ↔
      ∃ type, CallRule function (some receiver.type) (arguments.map TypedExpr.type) type
        ∧ t = .method type receiver function arguments := by
  simp only [← callType_eq_ok_iff]
  unfold methodNode
  cases callType function (some receiver.type) (arguments.map TypedExpr.type) <;>
    simp [Verdict.fine, Verdict.fault, eq_comm]

/-- A list has the type that its elements have in common. -/
theorem listNode_result {elements : List TypedExpr} :
    (listNode span elements).result = some t ↔
      ∃ elem, ElementRule (elements.map TypedExpr.type) elem
        ∧ t = .list (.list elem) elements := by
  simp only [← elementType_null_eq_ok_iff]
  unfold listNode
  cases elementType .null (elements.map TypedExpr.type) <;>
    simp [Verdict.fine, Verdict.fault, eq_comm]

end Nodes

/-! ## The traversal -/

/-- An expression spells a declared name, or no name that it spells is declared. -/
theorem declared_cases (env : Environment) (e : Expr) :
    (∃ name type, e.qualifiedName? = some name ∧ env.lookup? name = some type)
      ∨ ∀ name, e.qualifiedName? = some name → env.lookup? name = none := by
  by_cases hspells : ∃ name type, e.qualifiedName? = some name ∧ env.lookup? name = some type
  · exact .inl hspells
  · refine .inr fun name hname => ?_
    rcases hdeclared : env.lookup? name with _ | type
    · rfl
    · exact absurd ⟨name, type, hname, hdeclared⟩ hspells

/-- What spells a declared name is this name. -/
theorem visit_of_declared {e : Expr} {name : String} {type : ValueType}
    (hname : e.qualifiedName? = some name) (hdeclared : env.lookup? name = some type) :
    visit env e = .fine (.ident type name) := by
  cases e with
  | ident info n =>
      obtain rfl := Option.some.inj hname
      rw [visit, identNode, hdeclared]
  | select info operand field =>
      rw [visit]
      simp only [hname, Option.bind_some, hdeclared]
  | _ => cases hname

/-- A selection that spells no declared name is made over its operand. -/
theorem visit_select_of_undeclared {info : NodeInfo} {operand : Expr} {field : String}
    (hwhole : ∀ name, (Expr.select info operand field).qualifiedName? = some name →
      env.lookup? name = none) :
    visit env (.select info operand field)
      = (visit env operand).andThen (selectNode info.span field) := by
  rw [visit]
  rcases hname : (Expr.select info operand field).qualifiedName? with _ | name
  · rfl
  · simp only [Option.bind_some, hwhole name hname]

/-- The results of several expressions are put together from their results. -/
theorem visitAll_cons_result {e : Expr} {es : List Expr} {ts : List TypedExpr} :
    (visitAll env (e :: es)).result = some ts ↔
      ∃ u us, (visit env e).result = some u ∧ (visitAll env es).result = some us
        ∧ ts = u :: us := by
  rw [visitAll]
  constructor
  · intro h
    obtain ⟨⟨u, us⟩, hboth, rfl⟩ := Option.map_eq_some_iff.mp h
    obtain ⟨hu, hus⟩ := Verdict.both_result.mp hboth
    exact ⟨u, us, hu, hus, rfl⟩
  · rintro ⟨u, us, hu, hus, rfl⟩
    exact Option.map_eq_some_iff.mpr ⟨(u, us), Verdict.both_result.mpr ⟨hu, hus⟩, rfl⟩

mutual

/-- Soundness: a result of the checker is derived. -/
theorem elaborates_of_visit {e : Expr} {t : TypedExpr} (h : (visit env e).result = some t) :
    Elaborates env e t.type t := by
  cases e with
  | literal info value =>
      rw [visit] at h
      obtain rfl := Option.some.inj h
      exact Elaborates.literal info value
  | ident info name =>
      rw [visit] at h
      obtain ⟨type, hdeclared, rfl⟩ := identNode_result.mp h
      exact Elaborates.name rfl hdeclared
  | select info operand field =>
      rcases declared_cases env (.select info operand field) with
        ⟨name, type, hname, hdeclared⟩ | hwhole
      · -- the parts of a declared name are not looked at, so nothing is known of them
        rw [visit_of_declared hname hdeclared] at h
        obtain rfl := Option.some.inj h
        exact Elaborates.name hname hdeclared
      · rw [visit_select_of_undeclared hwhole] at h
        obtain ⟨o, ho, hnode⟩ := Verdict.andThen_result.mp h
        obtain ⟨type, hmap, rfl⟩ := selectNode_result.mp hnode
        have hoperand := elaborates_of_visit ho
        rw [hmap] at hoperand
        exact Elaborates.select hwhole hoperand
  | unary info operator operand =>
      rw [visit] at h
      obtain ⟨o, ho, hnode⟩ := Verdict.andThen_result.mp h
      obtain ⟨type, hrule, rfl⟩ := unaryNode_result.mp hnode
      exact Elaborates.unary (elaborates_of_visit ho) hrule
  | binary info operator left right =>
      rw [visit] at h
      obtain ⟨⟨l, r⟩, hboth, hnode⟩ := Verdict.andThen_result.mp h
      obtain ⟨hl, hr⟩ := Verdict.both_result.mp hboth
      obtain ⟨type, hrule, rfl⟩ := binaryNode_result.mp hnode
      exact Elaborates.binary (elaborates_of_visit hl) (elaborates_of_visit hr) hrule
  | call info function arguments =>
      rw [visit] at h
      obtain ⟨ts, hts, hnode⟩ := Verdict.andThen_result.mp h
      obtain ⟨type, hrule, rfl⟩ := callNode_result.mp hnode
      exact Elaborates.call (elaboratesAll_of_visitAll hts) hrule
  | method info receiver function arguments =>
      rw [visit] at h
      obtain ⟨⟨r, ts⟩, hboth, hnode⟩ := Verdict.andThen_result.mp h
      obtain ⟨hr, hts⟩ := Verdict.both_result.mp hboth
      obtain ⟨type, hrule, rfl⟩ := methodNode_result.mp hnode
      exact Elaborates.method (elaborates_of_visit hr) (elaboratesAll_of_visitAll hts) hrule
  | list info elements =>
      rw [visit] at h
      obtain ⟨ts, hts, hnode⟩ := Verdict.andThen_result.mp h
      obtain ⟨elem, hrule, rfl⟩ := listNode_result.mp hnode
      exact Elaborates.list (elaboratesAll_of_visitAll hts) hrule
termination_by structural e

/-- A list of expressions is elaborated one by one. -/
theorem elaboratesAll_of_visitAll {es : List Expr} {ts : List TypedExpr}
    (h : (visitAll env es).result = some ts) :
    ElaboratesAll env es (ts.map TypedExpr.type) ts := by
  cases es with
  | nil =>
      rw [visitAll] at h
      obtain rfl := Option.some.inj h
      exact ElaboratesAll.nil
  | cons e es =>
      obtain ⟨u, us, hu, hus, rfl⟩ := visitAll_cons_result.mp h
      exact ElaboratesAll.cons (elaborates_of_visit hu) (elaboratesAll_of_visitAll hus)
termination_by structural es

end

mutual

/-- Completeness: what is derived is the result of the checker. -/
theorem Elaborates.visit_result {e : Expr} {type : ValueType} {t : TypedExpr}
    (h : Elaborates env e type t) : (visit env e).result = some t := by
  cases h with
  | literal info value => rfl
  | name hname hdeclared => rw [visit_of_declared hname hdeclared, Verdict.fine]
  | select hwhole hoperand =>
      rw [visit_select_of_undeclared hwhole]
      exact Verdict.andThen_result.mpr
        ⟨_, hoperand.visit_result, selectNode_result.mpr ⟨_, hoperand.type_eq, rfl⟩⟩
  | unary hoperand hrule =>
      rw [visit]
      -- the rule speaks of derived types, the checker of those that trees carry
      rw [← hoperand.type_eq] at hrule
      exact Verdict.andThen_result.mpr
        ⟨_, hoperand.visit_result, unaryNode_result.mpr ⟨_, hrule, rfl⟩⟩
  | binary hleft hright hrule =>
      rw [visit]
      rw [← hleft.type_eq, ← hright.type_eq] at hrule
      exact Verdict.andThen_result.mpr
        ⟨_, Verdict.both_result.mpr ⟨hleft.visit_result, hright.visit_result⟩,
          binaryNode_result.mpr ⟨_, hrule, rfl⟩⟩
  | call harguments hrule =>
      rw [visit]
      rw [← harguments.types_eq] at hrule
      exact Verdict.andThen_result.mpr
        ⟨_, harguments.visitAll_result, callNode_result.mpr ⟨_, hrule, rfl⟩⟩
  | method hreceiver harguments hrule =>
      rw [visit]
      rw [← hreceiver.type_eq, ← harguments.types_eq] at hrule
      exact Verdict.andThen_result.mpr
        ⟨_, Verdict.both_result.mpr ⟨hreceiver.visit_result, harguments.visitAll_result⟩,
          methodNode_result.mpr ⟨_, hrule, rfl⟩⟩
  | list helements hrule =>
      rw [visit]
      rw [← helements.types_eq] at hrule
      exact Verdict.andThen_result.mpr
        ⟨_, helements.visitAll_result, listNode_result.mpr ⟨_, hrule, rfl⟩⟩
termination_by structural e

theorem ElaboratesAll.visitAll_result {es : List Expr} {types : List ValueType}
    {ts : List TypedExpr} (h : ElaboratesAll env es types ts) :
    (visitAll env es).result = some ts := by
  cases h with
  | nil => rfl
  | cons hhead htail =>
      exact visitAll_cons_result.mpr ⟨_, _, hhead.visit_result, htail.visitAll_result, rfl⟩
termination_by structural es

end

/-! ## Problems -/

/-- A node whose type is decided is made, or else there is one problem. -/
theorem clean_of_decided {decided : Except TypeIssue ValueType}
    {make : ValueType → TypedExpr} (span : Span) :
    Verdict.Clean (match decided with
      | .ok type => .fine (make type)
      | .error issue => .fault span issue) := by
  rcases decided with issue | type
  · exact Verdict.clean_fault span issue
  · exact Verdict.clean_fine (make type)

/-- The same where the problem does not depend on why there is no type. -/
theorem clean_of_found {found : Option ValueType} {make : ValueType → TypedExpr} (span : Span)
    (issue : TypeIssue) :
    Verdict.Clean (match found with
      | some type => .fine (make type)
      | none => .fault span issue) := by
  rcases found with _ | type
  · exact Verdict.clean_fault span issue
  · exact Verdict.clean_fine (make type)

mutual

/-- The checker has a result only where it has found nothing. -/
theorem visit_clean (env : Environment) (e : Expr) : (visit env e).Clean := by
  -- what a node decides is clean, and so are its parts by induction
  cases e with
  | literal info value =>
      rw [visit]
      exact Verdict.clean_fine _
  | ident info name =>
      rw [visit]
      exact clean_of_found _ _
  | select info operand field =>
      rw [visit]
      split
      · exact Verdict.clean_fine _
      · exact (visit_clean env operand).andThen fun o => clean_of_found _ _
  | unary info operator operand =>
      rw [visit]
      exact (visit_clean env operand).andThen fun o => clean_of_found _ _
  | binary info operator left right =>
      rw [visit]
      exact ((visit_clean env left).both (visit_clean env right)).andThen fun p =>
        clean_of_found _ _
  | call info function arguments =>
      rw [visit]
      exact (visitAll_clean env arguments).andThen fun ts => clean_of_decided _
  | method info receiver function arguments =>
      rw [visit]
      exact ((visit_clean env receiver).both (visitAll_clean env arguments)).andThen fun p =>
        clean_of_decided _
  | list info elements =>
      rw [visit]
      exact (visitAll_clean env elements).andThen fun ts => clean_of_decided _
termination_by structural e

/-- The same for lists of expressions. -/
theorem visitAll_clean (env : Environment) (es : List Expr) : (visitAll env es).Clean := by
  cases es with
  | nil => exact Verdict.clean_fine []
  | cons e es =>
      intro ts h
      obtain ⟨u, us, hu, hus, -⟩ := visitAll_cons_result.mp h
      rw [visitAll]
      exact (visit_clean env e).both (visitAll_clean env es) (u, us)
        (Verdict.both_result.mpr ⟨hu, hus⟩)
termination_by structural es

end

/-- An expression checks if its visit has a result and finds nothing. -/
theorem check_eq_ok_iff {e : Expr} {t : TypedExpr} :
    check env e = .ok t ↔ (visit env e).result = some t ∧ (visit env e).findings = [] := by
  unfold check
  rcases visit env e with ⟨_ | u, _ | ⟨f, fs⟩⟩ <;> simp

/-- An expression checks if its visit has a result. -/
theorem check_eq_ok_iff_result {e : Expr} {t : TypedExpr} :
    check env e = .ok t ↔ (visit env e).result = some t := by
  rw [check_eq_ok_iff]
  exact ⟨fun h => h.1, fun h => ⟨h, visit_clean env e t h⟩⟩

/-! ## The checker -/

/-- What the checker accepts is derived. -/
theorem elaborates_of_check {e : Expr} {t : TypedExpr} (h : check env e = .ok t) :
    Elaborates env e t.type t :=
  elaborates_of_visit (check_eq_ok_iff_result.mp h)

/-- **The checker decides the typing rules.** It accepts an expression with a tree exactly
if the rules derive this tree, with the type that the tree carries; and then every node of
the tree carries the type that is derived for the part of the expression that it stands
for. -/
theorem check_eq_ok_iff_elaborates (env : Environment) (e : Expr) :
    (∀ t, check env e = .ok t ↔ Elaborates env e t.type t)
      ∧ ∀ type t, Elaborates env e type t →
          t.type = type ∧ ∀ n, Part n t → ∃ e', Expr.SubExpr e' e ∧ Elaborates env e' n.type n := by
  refine ⟨fun t => ⟨elaborates_of_check, ?_⟩, ?_⟩
  · intro h
    exact check_eq_ok_iff_result.mpr h.visit_result
  · intro type t h
    exact ⟨h.type_eq, fun n hn => h.of_part hn⟩

/-! ### A dotted name and a key -/

/-- A text under a dotted name, and a map. -/
def ownerEnv : Environment := ⟨[("user.name", .string), ("labels", .map .string .string)]⟩

/-- The dotted name sought among a key of the map and `null`. -/
def ownerExpr : Expr :=
  .binaryAt default .isIn (.selectAt default (.identAt default "user") "name")
    (.listAt default
      [.selectAt default (.identAt default "labels") "owner", .literalAt default .null])

/-- The list of the expression: what is not `null` in it are texts. -/
def ownerList : TypedExpr :=
  .list (.list .string)
    [.select .string (.ident (.map .string .string) "labels") "owner", .ofValue .null]

/-- The whole expression: the dotted name is a single identifier. -/
def ownerTree : TypedExpr := .call .bool "@in" [.ident .string "user.name", ownerList]

/-- The expression is accepted with its tree, whose list has the type derived for it;
with a minus in front of it, nothing is derived. -/
theorem check_eq_ok_iff_elaborates_owner :
    check ownerEnv ownerExpr = .ok ownerTree
      ∧ Elaborates ownerEnv ownerExpr .bool ownerTree
      ∧ (∃ e, Expr.SubExpr e ownerExpr ∧ Elaborates ownerEnv e (.list .string) ownerList)
      ∧ ∀ t, ¬ Elaborates ownerEnv (.unaryAt default .negate ownerExpr) t.type t := by
  obtain ⟨hiff, hnodes⟩ := check_eq_ok_iff_elaborates ownerEnv ownerExpr
  -- negating the whole has no rule, so that side of the equivalence is seen as well
  obtain ⟨hnegated, -⟩ :=
    check_eq_ok_iff_elaborates ownerEnv (.unaryAt default .negate ownerExpr)
  have haccepts : check ownerEnv ownerExpr = .ok ownerTree := rfl
  have hderived : Elaborates ownerEnv ownerExpr .bool ownerTree := (hiff ownerTree).mp haccepts
  have hlist : Part ownerList ownerTree :=
    Part.inside (List.mem_cons_of_mem _ List.mem_cons_self) (Part.root ownerList)
  refine ⟨haccepts, hderived, (hnodes .bool ownerTree hderived).2 ownerList hlist, ?_⟩
  intro t ht
  cases (hnegated t).mpr ht

end RowFilter.Typing

namespace RowFilter

/-- A text is compiled by parsing it and checking what it says. -/
theorem Environment.compile_eq_ok_iff {env : Environment} {source : String} {t : TypedExpr} :
    env.compile source = .ok t ↔ ∃ e, Expr.parse source = .ok e ∧ Typing.check env e = .ok t := by
  unfold compile
  rcases hparse : Expr.parse source with err | e
  · simp
  · rcases hcheck : Typing.check env e with findings | t'
    · simp [hcheck]
    · simp [hcheck]

end RowFilter
