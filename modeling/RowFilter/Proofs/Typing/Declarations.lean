/-
What a declaration changes.

The checker asks an environment for the names that nodes of the expression spell, at identifiers and
at every level of a chain of selections, and for nothing else. So environments that give these names
the same types are the same to it, in trees and in findings (`visit_congr`). A declaration adds one
name and leaves the types of all others (`SameBut`); what does not mention the name is compiled as
before, and this stays so whatever else is declared (`answers_congr`). A declaration that is refused
adds nothing.
-/
import RowFilter.Proofs.Typing.Environment
import RowFilter.Proofs.Typing.Problems

set_option autoImplicit false

namespace RowFilter

/-- Some node of the expression spells the name. -/
def Expr.Mentions (e : Expr) (name : String) : Prop :=
  ∃ n, SubExpr n e ∧ n.qualifiedName? = some name

/-- A name that a part mentions is mentioned by the whole. -/
theorem Expr.Mentions.of_child {e c : Expr} {name : String} (hc : c ∈ e.children)
    (h : c.Mentions name) : e.Mentions name := by
  obtain ⟨n, hn, hname⟩ := h
  exact ⟨n, .inside hc hn, hname⟩

/-! ## Environments that agree -/

namespace Typing

variable {env env' : Environment} {e c : Expr}

/-- The names that the expression mentions have the same types in both environments, or none in
both. -/
def AgreeOn (e : Expr) (env env' : Environment) : Prop :=
  ∀ name, e.Mentions name → env.lookup? name = env'.lookup? name

/-- What a part mentions the whole mentions. -/
theorem AgreeOn.child (h : AgreeOn e env env') (hc : c ∈ e.children) : AgreeOn c env env' :=
  fun name hname => h name (hname.of_child hc)

/-- An expression that is a name as a whole is looked up alike. -/
theorem AgreeOn.whole (h : AgreeOn e env env') :
    e.qualifiedName?.bind env.lookup? = e.qualifiedName?.bind env'.lookup? := by
  rcases hname : e.qualifiedName? with _ | name
  · rfl
  · exact h name ⟨e, .root e, hname⟩

mutual

/-- The verdict on an expression depends on the names that it mentions only. -/
theorem visit_congr (e : Expr) (h : AgreeOn e env env') : visit env e = visit env' e := by
  cases e with
  | literal info value => rw [visit, visit]
  -- the one place where a name is looked up by itself
  | ident info name =>
      have hname : env.lookup? name = env'.lookup? name := h.whole
      rw [visit, visit, identNode, identNode, hname]
  | select info operand field =>
      -- the chain is looked up as a whole, and its operand in the same way by itself
      have hoperand := visit_congr operand (h.child List.mem_cons_self)
      rw [visit, visit, hoperand, h.whole]
  | unary info operator operand =>
      have hoperand := visit_congr operand (h.child List.mem_cons_self)
      rw [visit, visit, hoperand]
  | binary info operator left right =>
      have hleft := visit_congr left (h.child List.mem_cons_self)
      have hright := visit_congr right (h.child (List.mem_cons_of_mem _ List.mem_cons_self))
      rw [visit, visit, hleft, hright]
  | call info function arguments =>
      have harguments := visitAll_congr arguments fun c hc => h.child hc
      rw [visit, visit, harguments]
  | method info receiver function arguments =>
      have hreceiver := visit_congr receiver (h.child List.mem_cons_self)
      have harguments := visitAll_congr arguments fun c hc => h.child (List.mem_cons_of_mem _ hc)
      rw [visit, visit, hreceiver, harguments]
  | list info elements =>
      have helements := visitAll_congr elements fun c hc => h.child hc
      rw [visit, visit, helements]
termination_by structural e

theorem visitAll_congr (es : List Expr) (h : ∀ e ∈ es, AgreeOn e env env') :
    visitAll env es = visitAll env' es := by
  cases es with
  | nil => rw [visitAll, visitAll]
  | cons e rest =>
      have hfirst := visit_congr e (h e List.mem_cons_self)
      have hrest := visitAll_congr rest fun c hc => h c (List.mem_cons_of_mem _ hc)
      rw [visitAll, visitAll, hfirst, hrest]
termination_by structural es

end

end Typing

namespace Environment

variable {env env' : Environment} {name other : String} {type : ValueType}

/-- **Compiling looks at no other names.** -/
theorem compile_congr {source : String}
    (h : ∀ e, Expr.parse source = .ok e → Typing.AgreeOn e env env') :
    env.compile source = env'.compile source := by
  -- parsing does not look at the environment
  rcases hparse : Expr.parse source with why | e
  · rw [compile, compile, hparse]
  · rw [compile, compile, hparse]
    dsimp only
    rw [Typing.check, Typing.check, Typing.visit_congr e (h e hparse)]

/-! ## Environments that differ in one name -/

/-- All names but one have the same types in both environments, or none in both. -/
def SameBut (name : String) (env env' : Environment) : Prop :=
  ∀ other, other ≠ name → env.lookup? other = env'.lookup? other

/-- Declarations are looked up one behind the other. -/
theorem lookup?_concat (env : Environment) (name other : String) (type : ValueType) :
    lookup? ⟨env.declarations ++ [(name, type)]⟩ other
      = (env.lookup? other).or (List.lookup other [(name, type)]) := by
  rw [lookup?, List.lookup_append, lookup?]

/-- A declaration is about its name. -/
theorem sameBut_of_declare (h : env.declare name type = (.ok (), env')) :
    SameBut name env' env := by
  intro other hother
  obtain ⟨-, -, rfl⟩ := declare_eq_ok_iff.mp h
  have hlast : List.lookup other [(name, type)] = none :=
    List.lookup_eq_none_iff.mpr (by simpa using hother)
  rw [lookup?_concat, hlast, Option.or_none]

/-- Declaring another name is answered in the same way by both environments, and those that are
left still differ in the one name only. -/
theorem SameBut.declare (h : SameBut name env env') (hother : other ≠ name) (type : ValueType) :
    (env.declare other type).1 = (env'.declare other type).1
      ∧ SameBut name (env.declare other type).2 (env'.declare other type).2 := by
  have hlookup := h other hother
  -- the checks in the order in which they are made: the form of the name, then what is declared
  by_cases hname : isDeclarable other = false
  · rw [Environment.declare, Environment.declare, if_pos hname, if_pos hname]
    exact ⟨rfl, h⟩
  · rw [Environment.declare, Environment.declare, if_neg hname, if_neg hname, hlookup]
    by_cases hdeclared : (env'.lookup? other).isSome = true
    · rw [if_pos hdeclared, if_pos hdeclared]
      exact ⟨rfl, h⟩
    · rw [if_neg hdeclared, if_neg hdeclared]
      refine ⟨rfl, fun n hn => ?_⟩
      rw [lookup?_concat, lookup?_concat, h n hn]

/-- Environments that differ in one name agree on what does not mention it. -/
theorem SameBut.agreeOn {e : Expr} (h : SameBut name env env') (hname : ¬ e.Mentions name) :
    Typing.AgreeOn e env env' :=
  fun other hother => h other fun heq => hname (heq ▸ hother)

/-! ## Requests -/

/-- What is asked of an environment: a declaration, or a source to be compiled. -/
inductive Request where
  | declare (name : String) (type : ValueType)
  | compile (source : String)

/-- What an environment answers: whether a declaration is made, or what a source is compiled to. -/
inductive Answer where
  | declared (result : Except DeclarationError Unit)
  | compiled (result : Except (List Diagnostic) TypedExpr)

/-- The environment that a request leaves. -/
def after (env : Environment) : Request → Environment
  | .declare name type => (env.declare name type).2
  | .compile _ => env

def answer (env : Environment) : Request → Answer
  | .declare name type => .declared (env.declare name type).1
  | .compile source => .compiled (env.compile source)

/-- The answers to requests that are made one after the other. -/
def answers (env : Environment) : List Request → List Answer
  | [] => []
  | r :: rest => env.answer r :: (env.after r).answers rest

/-- The request has nothing to do with the name: it declares another one, or compiles a source that
does not mention it. -/
def Request.Avoids (name : String) : Request → Prop
  | .declare other _ => other ≠ name
  | .compile source => ∀ e, Expr.parse source = .ok e → ¬ e.Mentions name

/-- One request has the same answer in both environments, and afterwards they still differ in the
one name only. -/
theorem SameBut.request {r : Request} (h : SameBut name env env') (hr : r.Avoids name) :
    env.answer r = env'.answer r ∧ SameBut name (env.after r) (env'.after r) := by
  cases r with
  | compile source =>
      have hcompile := compile_congr fun e he => h.agreeOn (hr e he)
      exact ⟨by rw [answer, answer, hcompile], h⟩
  | declare other type =>
      obtain ⟨hanswer, hafter⟩ := h.declare hr type
      exact ⟨congrArg Answer.declared hanswer, hafter⟩

/-- **Requests about other names** have the same answers, however many there are. -/
theorem answers_congr {later : List Request} (h : SameBut name env env')
    (hlater : ∀ r ∈ later, r.Avoids name) : env.answers later = env'.answers later := by
  induction later generalizing env env' with
  | nil => rfl
  | cons r rest ih =>
      -- the first answer is the same, and the environments that are left still differ in the name
      -- only
      obtain ⟨hanswer, hafter⟩ := h.request (hlater r List.mem_cons_self)
      have hrest := ih hafter fun r hr => hlater r (List.mem_cons_of_mem _ hr)
      rw [answers, answers, hanswer, hrest]

/-- **Declaring a name only affects what mentions it.** Every valid name that is not declared can be
declared, and whatever does not mention it is compiled as before, also when more is declared later.
A declaration that is refused leaves an environment that compiles everything as before, and in which
all later requests are answered as if it had not been made. -/
theorem declare_frame (env : Environment) (name : String) (type : ValueType) :
    (isDeclarable name = true → env.lookup? name = none →
      ∃ next, env.declare name type = (.ok (), next)
        ∧ (∀ source, (∀ e, Expr.parse source = .ok e → ¬ e.Mentions name) →
            next.compile source = env.compile source)
        ∧ ∀ later : List Request, (∀ r ∈ later, r.Avoids name) →
            next.answers later = env.answers later)
      ∧ ∀ why next, env.declare name type = (.error why, next) →
          (∀ source, next.compile source = env.compile source)
            ∧ ∀ later : List Request,
                env.answers (.declare name type :: later)
                  = .declared (.error why) :: env.answers later := by
  refine ⟨fun hname hlookup => ?_, fun why next hrefused => ?_⟩
  · have hdeclare : env.declare name type = (.ok (), ⟨env.declarations ++ [(name, type)]⟩) :=
      declare_eq_ok_iff.mpr ⟨hname, hlookup, rfl⟩
    have hsame := sameBut_of_declare hdeclare
    refine ⟨_, hdeclare, fun source hsource => ?_, fun later hlater => answers_congr hsame hlater⟩
    exact compile_congr fun e he => hsame.agreeOn (hsource e he)
  · -- the environment that is left is the one that was there
    obtain ⟨rfl, -⟩ := declare_eq_error hrefused
    refine ⟨fun source => rfl, fun later => ?_⟩
    rw [answers, answer, after, hrefused]

/-! ### A name beside a map -/

/-- Where nothing is declared, all nodes are checked. -/
theorem mem_checkedNodes_empty {n e : Expr} (h : Expr.SubExpr n e) :
    n ∈ Typing.checkedNodes empty e := by
  induction h with
  | root =>
      rw [Typing.checkedNodes_eq]
      exact List.mem_append_right _ List.mem_cons_self
  | inside hc _ ih =>
      rw [Typing.checkedNodes_eq, Typing.checkedParts_of_undeclared fun _ _ => rfl]
      exact List.mem_append_left _ (List.mem_flatMap.mpr ⟨_, hc, ih⟩)

/-- A map of texts. -/
def userEnv : Environment := ⟨[("user", .map .string .string)]⟩

/-- A filter by a key of the map. -/
def teamSource : String := "user.team == 'x' || size(user) > 1"

/-- Another key is declared as a name, which leaves the filter as it was, and then once more, which
is refused. -/
theorem declare_frame_team :
    isDeclarable "user.name" = true ∧ userEnv.lookup? "user.name" = none
      ∧ (∀ e, Expr.parse teamSource = .ok e → ¬ e.Mentions "user.name")
      ∧ ∃ next last, userEnv.declare "user.name" .int = (.ok (), next)
          ∧ next.compile teamSource = userEnv.compile teamSource
          ∧ next.declare "user.name" .string = (.error (.duplicate "user.name"), last)
          ∧ last.compile teamSource = userEnv.compile teamSource
          ∧ next.answers [.declare "user.name" .string, .compile teamSource]
              = [.declared (.error (.duplicate "user.name")),
                .compiled (userEnv.compile teamSource)] := by
  -- no node of the filter spells the key, which is seen by going through its nodes
  have hspelled : (Expr.parse teamSource).toOption.all (fun e =>
      (Typing.checkedNodes empty e).all fun n => n.qualifiedName? != some "user.name") = true := by
    decide +kernel
  have havoids : ∀ e, Expr.parse teamSource = .ok e → ¬ e.Mentions "user.name" := by
    rintro e he ⟨n, hn, hname⟩
    rw [he] at hspelled
    have hother := List.all_eq_true.mp hspelled n (mem_checkedNodes_empty hn)
    rw [hname] at hother
    cases hother
  obtain ⟨next, hdeclare, hcompile, -⟩ :=
    (declare_frame userEnv "user.name" .int).1 (by decide) (by decide)
  have hagain : ∃ last,
      next.declare "user.name" .string = (.error (.duplicate "user.name"), last) := by
    obtain ⟨-, -, rfl⟩ := declare_eq_ok_iff.mp hdeclare
    exact ⟨_, rfl⟩
  obtain ⟨last, hagain⟩ := hagain
  obtain ⟨hlast, hlater⟩ := (declare_frame next "user.name" .string).2 _ _ hagain
  refine ⟨by decide, by decide, havoids, next, last, hdeclare, hcompile teamSource havoids, hagain,
    (hlast teamSource).trans (hcompile teamSource havoids), ?_⟩
  rw [hlater [.compile teamSource], answers, answer, hcompile teamSource havoids, answers]

end Environment

end RowFilter
