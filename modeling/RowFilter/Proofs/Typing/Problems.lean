/-
All problems of an expression, once each.

An expression has a problem where a node has no type although everything that is checked for it has
one (`IllTyped`). The checker hands on results and findings separately: a node function is asked
only if all parts have results, and the findings of the parts are kept in either case. So the
findings of a verdict are the problems among the nodes that were checked for it, in the order in
which these are visited (`Reports`), and where there is no result something has been found. One rule
carries this from the parts of a node to the node (`Reports.node`); the traversal is only its
repetition.
-/
import RowFilter.Proofs.Typing.Checker

set_option autoImplicit false

namespace RowFilter.Typing

variable {env : Environment} {e : Expr} {es : List Expr}

/-! ## The nodes that are checked -/

/-- The expression as a whole spells a declared name. -/
def spellsDeclared (env : Environment) (e : Expr) : Bool :=
  (e.qualifiedName?.bind env.lookup?).isSome

/-- The sub-expressions that are checked for an expression: its direct parts, but none of them if
the whole is a declared name. -/
def checkedParts (env : Environment) (e : Expr) : List Expr :=
  if spellsDeclared env e then [] else e.children

mutual

/-- The nodes that are checked, each of them behind the ones that are checked for it. -/
def checkedNodes (env : Environment) : Expr → List Expr
  | .literal info value => [.literal info value]
  | .ident info name => [.ident info name]
  | .select info operand field =>
    (if spellsDeclared env (.select info operand field) then [] else checkedNodes env operand)
      ++ [.select info operand field]
  | .binary info operator left right =>
    checkedNodes env left ++ checkedNodes env right ++ [.binary info operator left right]
  | .unary info operator operand => checkedNodes env operand ++ [.unary info operator operand]
  | .call info function arguments =>
    checkedNodesOfAll env arguments ++ [.call info function arguments]
  | .method info receiver function arguments =>
    checkedNodes env receiver ++ checkedNodesOfAll env arguments
      ++ [.method info receiver function arguments]
  | .list info elements => checkedNodesOfAll env elements ++ [.list info elements]

/-- The nodes that are checked of several expressions, from left to right. -/
def checkedNodesOfAll (env : Environment) : List Expr → List Expr
  | [] => []
  | e :: rest => checkedNodes env e ++ checkedNodesOfAll env rest

end

/-- The nodes of a list are those of its elements, in their order. -/
theorem checkedNodesOfAll_eq (env : Environment) (es : List Expr) :
    checkedNodesOfAll env es = es.flatMap (checkedNodes env) := by
  induction es with
  | nil => rfl
  | cons e rest ih => rw [checkedNodesOfAll, List.flatMap_cons, ih]

/-- A node comes last, behind all that is checked for it. -/
theorem checkedNodes_eq (env : Environment) (e : Expr) :
    checkedNodes env e = (checkedParts env e).flatMap (checkedNodes env) ++ [e] := by
  cases e with
  | literal | ident =>
      simp [checkedNodes, checkedParts, Expr.children]
  | select info operand field =>
      rw [checkedNodes, checkedParts]
      split <;> simp [Expr.children]
  | binary | unary | call | method | list =>
      simp [checkedNodes, checkedParts, spellsDeclared, Expr.qualifiedName?, Expr.children,
        checkedNodesOfAll_eq]

/-! ## Problems -/

/-- The rules derive a type. -/
def Typed (env : Environment) (e : Expr) : Prop := ∃ type t, Elaborates env e type t

/-- An expression is typed if the visit has a result. -/
theorem typed_iff : Typed env e ↔ (visit env e).result.isSome = true := by
  rw [Option.isSome_iff_exists]
  constructor
  · rintro ⟨type, t, h⟩
    exact ⟨t, h.visit_result⟩
  · rintro ⟨t, h⟩
    exact ⟨t.type, t, elaborates_of_visit h⟩

instance (env : Environment) (e : Expr) : Decidable (Typed env e) :=
  decidable_of_iff _ typed_iff.symm

/-- A node has no type although everything that is checked for it has one. -/
structure IllTyped (env : Environment) (e : Expr) : Prop where
  untyped : ¬ Typed env e
  parts : ∀ c ∈ checkedParts env e, Typed env c

/-- It is ill-typed itself if it is not typed though all its parts are. -/
theorem illTyped_iff : IllTyped env e ↔ ¬ Typed env e ∧ ∀ c ∈ checkedParts env e, Typed env c :=
  ⟨fun h => ⟨h.untyped, h.parts⟩, fun h => ⟨h.1, h.2⟩⟩

instance (env : Environment) (e : Expr) : Decidable (IllTyped env e) :=
  decidable_of_iff _ illTyped_iff.symm

/-- The nodes with a problem of their own, among those that are checked. -/
def problems (env : Environment) (e : Expr) : List Expr :=
  (checkedNodes env e).filter fun n => IllTyped env n

/-- The problems of an expression are those of its parts, and then its own. -/
theorem problems_eq (env : Environment) (e : Expr) :
    problems env e
      = (checkedParts env e).flatMap (problems env) ++ if IllTyped env e then [e] else [] := by
  rw [problems, checkedNodes_eq, List.filter_append, List.filter_flatMap, List.filter_cons,
    List.filter_nil]
  simp only [decide_eq_true_eq]
  rfl

/-! ## Findings of verdicts -/

/-- A verdict on some expressions. It has a result if all of them have a type, what it has found
are their problems, at the places of these, and without a result it has found something. -/
structure Reports {α : Type} (env : Environment) (v : Verdict α) (es : List Expr) : Prop where
  settled : v.result.isSome = true ↔ ∀ e ∈ es, Typed env e
  spans : v.findings.map Finding.span = (es.flatMap (problems env)).map Expr.span
  told : v.result = none → v.findings ≠ []
  named : ∀ f ∈ v.findings, f.issue ≠ .untyped

/-- A verdict of a node by itself: a result, or one problem at its place. -/
inductive Decided {α : Type} (span : Span) : Verdict α → Prop
  | fine (a : α) : Decided span (.fine a)
  | fault {issue : TypeIssue} (h : issue ≠ .untyped) : Decided span (.fault span issue)

section Verdicts

variable {α β : Type} {a : Verdict α} {b : Verdict β} {next : α → Verdict β} {es' : List Expr}

theorem reports_fine (x : α) : Reports env (.fine x) [] where
  settled := by simp [Verdict.fine]
  spans := rfl
  told h := by cases h
  named := by simp [Verdict.fine]

/-- Nothing is lost and nothing is added where two verdicts are taken together. -/
theorem Reports.both (ha : Reports env a es) (hb : Reports env b es') :
    Reports env (a.both b) (es ++ es') where
  settled := by
    rw [List.forall_mem_append, ← ha.settled, ← hb.settled]
    rcases a with ⟨_ | x, fs⟩ <;> rcases b with ⟨_ | y, gs⟩ <;> simp [Verdict.both]
  spans := by
    rw [Verdict.both, List.map_append, ha.spans, hb.spans, List.flatMap_append, List.map_append]
  -- if the two together have no result, one of them has none and has told why
  told h := by
    rcases hx : a.result with _ | x
    · exact List.append_ne_nil_of_left_ne_nil (ha.told hx) _
    · rcases hy : b.result with _ | y
      · exact List.append_ne_nil_of_right_ne_nil _ (hb.told hy)
      · have hboth := Verdict.both_result.mpr ⟨hx, hy⟩
        rw [h] at hboth
        cases hboth
  named f hf := by
    rcases List.mem_append.mp hf with hf | hf
    · exact ha.named f hf
    · exact hb.named f hf

/-- A node that is decided has one finding, at its own place, or none. -/
theorem Decided.spans {span : Span} (h : Decided span a) :
    a.findings.map Finding.span = if a.result.isSome = true then [] else [span] := by
  cases h <;> rfl

/-- The finding gives a reason. -/
theorem Decided.named {span : Span} (h : Decided span a) : ∀ f ∈ a.findings, f.issue ≠ .untyped := by
  cases h with
  | fine x => simp [Verdict.fine]
  | fault h => simp [Verdict.fault, h]

/-- **From parts to a node.** A node is decided only when all that is checked for it has a type; so
it adds a problem only then, and only if it has no type itself. -/
theorem Reports.node (ha : Reports env a (checkedParts env e)) {next : α → Verdict TypedExpr}
    (hvisit : visit env e = a.andThen next) (hnext : ∀ x, Decided e.span (next x)) :
    Reports env (visit env e) [e] := by
  have htyped : Typed env e ↔ (a.andThen next).result.isSome = true := by
    rw [typed_iff, hvisit]
  rw [hvisit]
  rcases hx : a.result with _ | x
  · -- some part has no type, so the problem is not that of the node
    have hnot : ¬ IllTyped env e := fun h => by
      have hsome := ha.settled.mpr h.parts
      rw [hx] at hsome
      cases hsome
    have hthen : a.andThen next = ⟨none, a.findings⟩ := by rw [Verdict.andThen, hx]
    refine ⟨by rw [List.forall_mem_singleton, htyped], ?_, fun _ => ?_, ?_⟩
    · rw [hthen, List.flatMap_singleton, problems_eq, if_neg hnot, List.append_nil, ha.spans]
    · rw [hthen]
      exact ha.told hx
    · rw [hthen]
      exact ha.named
  · have hthen : a.andThen next = ⟨(next x).result, a.findings ++ (next x).findings⟩ := by
      rw [Verdict.andThen, hx]
    have hill : IllTyped env e ↔ ¬ (next x).result.isSome = true := by
      rw [illTyped_iff, htyped, hthen]
      exact and_iff_left (ha.settled.mp (by rw [hx]; rfl))
    have hspans := (hnext x).spans
    refine ⟨by rw [List.forall_mem_singleton, htyped], ?_, fun hnone => ?_, fun f hf => ?_⟩
    · rw [hthen, List.map_append, ha.spans, List.flatMap_singleton, problems_eq, List.map_append,
        hspans]
      congr 1
      by_cases hsome : (next x).result.isSome = true
      · rw [if_pos hsome, if_neg fun h => hill.mp h hsome, List.map_nil]
      · rw [if_neg hsome, if_pos (hill.mpr hsome), List.map_singleton]
    · rw [hthen] at hnone ⊢
      refine List.append_ne_nil_of_right_ne_nil _ fun hnil => ?_
      rw [hnil, show (next x).result = none from hnone] at hspans
      cases hspans
    · rw [hthen] at hf
      rcases List.mem_append.mp hf with hf | hf
      · exact ha.named f hf
      · exact (hnext x).named f hf

end Verdicts

/-! ## Node functions -/

/-- A node whose type is decided is made, or there is one problem, which is one of types. -/
theorem decided_of_type {decided : Except TypeIssue ValueType} {make : ValueType → TypedExpr}
    {span : Span} (h : ∀ issue, decided = .error issue → issue ≠ .untyped) :
    Decided span (match decided with
      | .ok type => .fine (make type)
      | .error issue => .fault span issue) := by
  rcases decided with issue | type
  · exact .fault (h issue rfl)
  · exact .fine (make type)

/-- The same where the problem does not depend on why there is no type. -/
theorem decided_of_found {found : Option ValueType} {make : ValueType → TypedExpr} {span : Span}
    {issue : TypeIssue} (h : issue ≠ .untyped) :
    Decided span (match found with
      | some type => .fine (make type)
      | none => .fault span issue) := by
  rcases found with _ | type
  · exact .fault h
  · exact .fine (make type)

/-- A call is refused for a reason. -/
theorem callType_ne_untyped {function : String} {receiver : Option ValueType}
    {arguments : List ValueType} {issue : TypeIssue}
    (h : callType function receiver arguments = .error issue) : issue ≠ .untyped := by
  rintro rfl
  unfold callType at h
  grind

/-- So is a list. -/
theorem elementType_ne_untyped {sofar : ValueType} {types : List ValueType} {issue : TypeIssue}
    (h : elementType sofar types = .error issue) : issue ≠ .untyped := by
  fun_induction elementType sofar types with
  | case1 => cases h
  | case2 _ _ ih | case3 _ _ _ ih | case4 _ _ _ _ ih => exact ih h
  | case5 =>
      obtain rfl := Except.error.inj h
      simp

/-! ## The traversal -/

/-- A name that is declared has no parts to check. -/
theorem checkedParts_of_declared {name : String} {type : ValueType}
    (hname : e.qualifiedName? = some name) (hdeclared : env.lookup? name = some type) :
    checkedParts env e = [] := by
  simp [checkedParts, spellsDeclared, hname, hdeclared]

/-- Otherwise the parts to check are the children. -/
theorem checkedParts_of_undeclared
    (h : ∀ name, e.qualifiedName? = some name → env.lookup? name = none) :
    checkedParts env e = e.children := by
  rw [checkedParts, if_neg]
  rw [spellsDeclared, Bool.not_eq_true, Option.isSome_eq_false_iff, Option.isNone_iff_eq_none]
  rcases hname : e.qualifiedName? with _ | name
  · rfl
  · exact h name hname

/-- A declared name is a leaf: it has a type whatever it is made of. -/
theorem reports_of_declared {name : String} {type : ValueType}
    (hname : e.qualifiedName? = some name) (hdeclared : env.lookup? name = some type) :
    Reports env (visit env e) [e] := by
  have hnone : Reports env (.fine ()) (checkedParts env e) := by
    rw [checkedParts_of_declared hname hdeclared]
    exact reports_fine ()
  have hvisit : visit env e = (Verdict.fine ()).andThen fun _ => .fine (.ident type name) :=
    visit_of_declared hname hdeclared
  exact hnone.node hvisit fun _ => .fine _

mutual

/-- The verdict on an expression reports its problems. -/
theorem reports_visit (env : Environment) (e : Expr) : Reports env (visit env e) [e] := by
  -- Every node is visited in the same two steps, first its parts and then its rule. So each case
  -- says what the parts report, by induction, and that the visit is the rule after them, and
  -- `Reports.node` adds the node.
  cases e with
  | literal info value =>
      have hvisit : visit env (.literal info value)
          = (Verdict.fine ()).andThen fun _ => .fine (.ofValue value) := rfl
      exact (reports_fine ()).node hvisit fun _ => .fine _
  | ident info name =>
      have hvisit : visit env (.ident info name)
          = (Verdict.fine ()).andThen fun _ => identNode env info.span name := by
        rw [visit]
        rfl
      -- no parts either way, whether the name is declared or not
      have hleaf : Reports env (.fine ()) (checkedParts env (.ident info name)) := by
        rw [checkedParts, Expr.children, ite_self]
        exact reports_fine ()
      exact hleaf.node hvisit fun _ => decided_of_found (by simp)
  | select info operand field =>
      -- the only node that may not look at its parts: a path that is declared is a name
      rcases declared_cases env (.select info operand field) with
        ⟨name, type, hname, hdeclared⟩ | hwhole
      · exact reports_of_declared hname hdeclared
      · have hoperand : Reports env (visit env operand)
            (checkedParts env (.select info operand field)) := by
          rw [checkedParts_of_undeclared hwhole]
          exact reports_visit env operand
        have hvisit := visit_select_of_undeclared hwhole
        exact hoperand.node hvisit fun _ => decided_of_found (by simp)
  | unary info operator operand =>
      have hoperand : Reports env (visit env operand)
          (checkedParts env (.unary info operator operand)) := reports_visit env operand
      have hvisit : visit env (.unary info operator operand)
          = (visit env operand).andThen (unaryNode info.span operator) := by rw [visit]
      exact hoperand.node hvisit fun _ => decided_of_found (by simp)
  | binary info operator left right =>
      have hboth : Reports env ((visit env left).both (visit env right))
          (checkedParts env (.binary info operator left right)) :=
        (reports_visit env left).both (reports_visit env right)
      have hvisit : visit env (.binary info operator left right)
          = ((visit env left).both (visit env right)).andThen fun (l, r) =>
            binaryNode info.span operator l r := by rw [visit]
      exact hboth.node hvisit fun _ => decided_of_found (by simp)
  | call info function arguments =>
      have hall : Reports env (visitAll env arguments)
          (checkedParts env (.call info function arguments)) := reports_visitAll env arguments
      have hvisit : visit env (.call info function arguments)
          = (visitAll env arguments).andThen (callNode info.span function) := by rw [visit]
      exact hall.node hvisit fun _ => decided_of_type fun _ => callType_ne_untyped
  | method info receiver function arguments =>
      have hboth : Reports env ((visit env receiver).both (visitAll env arguments))
          (checkedParts env (.method info receiver function arguments)) :=
        (reports_visit env receiver).both (reports_visitAll env arguments)
      have hvisit : visit env (.method info receiver function arguments)
          = ((visit env receiver).both (visitAll env arguments)).andThen fun (r, as) =>
            methodNode info.span r function as := by rw [visit]
      exact hboth.node hvisit fun _ => decided_of_type fun _ => callType_ne_untyped
  | list info elements =>
      have hall : Reports env (visitAll env elements)
          (checkedParts env (.list info elements)) := reports_visitAll env elements
      have hvisit : visit env (.list info elements)
          = (visitAll env elements).andThen (listNode info.span) := by rw [visit]
      exact hall.node hvisit fun _ => decided_of_type fun _ => elementType_ne_untyped
termination_by structural e

/-- The same for lists of expressions, whose reports follow each other. -/
theorem reports_visitAll (env : Environment) (es : List Expr) :
    Reports env (visitAll env es) es := by
  cases es with
  | nil => exact reports_fine []
  | cons e es =>
      -- putting the results into one list changes nothing that is reported
      have hboth := (reports_visit env e).both (reports_visitAll env es)
      rw [visitAll]
      exact ⟨by rw [Option.isSome_map]; exact hboth.settled, hboth.spans,
        fun h => hboth.told (Option.map_eq_none_iff.mp h), hboth.named⟩
termination_by structural es

end

/-! ## The checker -/

theorem head?_append {s : String} {c : Char} (h : s.toList.head? = some c) (t : String) :
    (s ++ t).toList.head? = some c := by
  rw [String.toList_append, List.head?_append, h, Option.some_or]

/-- No problem of types has the message that stands in for others: it shows in the first
character. -/
theorem message_ne_untyped {issue : TypeIssue} (h : issue ≠ .untyped) :
    issue.message ≠ TypeIssue.untyped.message := by
  -- the first letter tells them apart
  have hhead : ∃ c, issue.message.toList.head? = some c ∧ c ≠ 'e' := by
    cases issue with
    | untyped => exact absurd rfl h
    | undeclared => exact ⟨'u', head?_append (head?_append (by decide) _) _, by decide⟩
    | noFields => exact ⟨'t', head?_append (head?_append (by decide) _) _, by decide⟩
    | noOverload =>
        refine ⟨'f', head?_append (head?_append (head?_append (head?_append ?_ _) _) _) _, ?_⟩ <;>
          decide
    | needsReceiver => exact ⟨'\x27', head?_append (head?_append (by decide) _) _, by decide⟩
    | mixedList =>
        refine ⟨'l', head?_append (head?_append (head?_append (head?_append ?_ _) _) _) _, ?_⟩ <;>
          decide
  obtain ⟨c, hc, hne⟩ := hhead
  have he : TypeIssue.untyped.message.toList.head? = some 'e' := by decide
  intro hmessage
  rw [hmessage, he] at hc
  exact hne (Option.some.inj hc).symm

/-- An expression is rejected with what its visit has found. -/
theorem findings_of_check {findings : List Finding} (h : check env e = .error findings) :
    findings = (visit env e).findings ∧ (visit env e).result = none := by
  have htold := (reports_visit env e).told
  have hclean := visit_clean env e
  unfold check at h
  -- no result goes with findings, and no findings with a result
  rcases hvisit : visit env e with ⟨_ | t, _ | ⟨f, fs⟩⟩
  · rw [hvisit] at htold
    exact absurd rfl (htold rfl)
  · rw [hvisit] at h
    exact ⟨(Except.error.inj h).symm, rfl⟩
  · rw [hvisit] at h
    cases h
  · rw [hvisit] at hclean
    cases hclean t rfl

/-- **All problems are reported, once each.** An expression that is rejected has problems: nodes
without a type although everything checked for them has one. There is one finding for each of them,
at its place, in the order of the nodes, a node behind the ones that are checked for it; and none
of the findings is the one that stands in for others. -/
theorem check_reports_problems {findings : List Finding} (h : check env e = .error findings) :
    findings ≠ [] ∧ findings.map Finding.span = (problems env e).map Expr.span
      ∧ ∀ f ∈ findings, (Diagnostic.ofFinding f).message ≠ TypeIssue.untyped.message := by
  obtain ⟨rfl, hnone⟩ := findings_of_check h
  have hreports := reports_visit env e
  refine ⟨hreports.told hnone, ?_, fun f hf => message_ne_untyped (hreports.named f hf)⟩
  rw [hreports.spans, List.flatMap_singleton]

/-! ### Several problems -/

/-- A dotted name whose first segment is not declared by itself, and a number. -/
def ageEnv : Environment := ⟨[("user.name", .string), ("age", .int)]⟩

/-- An expression at a place of its own. -/
def place (start : Nat) : NodeInfo := ⟨⟨start, start + 1, 1, start + 1⟩, 1⟩

/-- A sum of a name that is not declared, compared with a sum of a number and a text, in front of a
list that joins a dotted name and a number. -/
def troubledExpr : Expr :=
  .binary (place 0) .and
    (.binary (place 1) .equal
      (.binary (place 2) .add (.ident (place 3) "ghost") (.literal (place 4) (.int 1)))
      (.binary (place 5) .add (.ident (place 6) "age") (.literal (place 7) (.string "x"))))
    (.list (place 8) [.select (place 9) (.ident (place 10) "user") "name", .ident (place 11) "age"])

/-- The name, the second sum and the list are reported; the first sum, the comparison and the
conjunction only stand above them, and the first segment of the dotted name is not looked at. -/
theorem check_reports_problems_troubled :
    check ageEnv troubledExpr = .error
        [⟨(place 3).span, .undeclared "ghost"⟩, ⟨(place 5).span, .noOverload "_+_" [.int, .string]⟩,
          ⟨(place 8).span, .mixedList .string .int⟩]
      ∧ (problems ageEnv troubledExpr).map Expr.span
          = [(place 3).span, (place 5).span, (place 8).span] := by
  have hcheck : check ageEnv troubledExpr = .error
      [⟨(place 3).span, .undeclared "ghost"⟩, ⟨(place 5).span, .noOverload "_+_" [.int, .string]⟩,
        ⟨(place 8).span, .mixedList .string .int⟩] := rfl
  exact ⟨hcheck, (check_reports_problems hcheck).2.1.symm⟩

end RowFilter.Typing
