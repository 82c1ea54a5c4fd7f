/-
Which prefix of a path is a name.

A path is a name with selections behind it, and any prefix of it may be declared as a dotted name.
The checker looks from the outside in: it asks for the whole path first, and goes on with the operand
of the last selection only if the whole is not declared. So the longest declared prefix decides
(`Longest`), and everything behind it is selected from what it is declared as, one field after the
other (`Selected`). A shorter prefix is never tried, also where the selections fail.
-/
import RowFilter.Proofs.Expr.Selections
import RowFilter.Proofs.Typing.Checker

set_option autoImplicit false

namespace RowFilter.Typing

open RowFilter.Expr (IsPath PathTokens SpellsPath dotted dotted_concat maxTreeDepth)

variable {env : Environment} {place : Span} {name field : String} {fields : List String} {e : Expr}
  {type : ValueType} {k : Nat} {t start : TypedExpr}

/-! ## Selections from a start -/

/-- The fields selected from a start one after the other, each from a map with strings for keys, whose
values have the type of the selection. -/
inductive Selected : TypedExpr → List String → TypedExpr → Prop
  | nothing (start : TypedExpr) : Selected start [] start
  | field {start t : TypedExpr} {type : ValueType} {field : String} {fields : List String}
      (hmap : start.type = .map .string type) (h : Selected (.select type start field) fields t) :
      Selected start (field :: fields) t

/-- What is selected is determined by the start and the fields. -/
theorem Selected.unique {t' : TypedExpr} (h : Selected start fields t)
    (h' : Selected start fields t') : t = t' := by
  induction h with
  | nothing =>
      cases h'
      rfl
  | field hmap _ ih =>
      cases h' with
      | field hmap' h' =>
          rw [hmap] at hmap'
          obtain ⟨-, rfl⟩ := ValueType.map.inj hmap'
          exact ih h'

theorem Selected.concat (h : Selected start fields t) (hmap : t.type = .map .string type)
    (field : String) : Selected start (fields ++ [field]) (.select type t field) := by
  induction h with
  | nothing => exact .field hmap (.nothing _)
  | field hstart _ ih => exact .field hstart (ih hmap)

/-- What is selected from on the way is a map with strings for keys. -/
theorem Selected.exists_map (h : Selected start fields t) {j : Nat} (hj : j < fields.length) :
    ∃ operand value, Selected start (fields.take j) operand
      ∧ operand.type = .map .string value := by
  induction h generalizing j with
  | nothing => cases hj
  | @field start t type field fields hmap _ ih =>
      cases j with
      | zero => exact ⟨start, type, .nothing start, hmap⟩
      | succ j =>
          obtain ⟨operand, value, hoperand, hvalue⟩ := ih (Nat.lt_of_succ_lt_succ hj)
          exact ⟨operand, value, .field hmap hoperand, hvalue⟩

/-! ## The longest declared prefix -/

/-- The name of the path with the first `k` of its fields. -/
def prefixName (name : String) (fields : List String) (k : Nat) : String :=
  dotted name (fields.take k)

/-- The prefix with `k` fields is declared with this type, and no longer prefix is declared. -/
structure Longest (env : Environment) (name : String) (fields : List String) (k : Nat)
    (type : ValueType) : Prop where
  le : k ≤ fields.length
  declared : env.lookup? (prefixName name fields k) = some type
  longer : ∀ j ≤ fields.length, k < j → env.lookup? (prefixName name fields j) = none

/-- The longest prefix is the whole name. -/
theorem prefixName_length (name : String) (fields : List String) :
    prefixName name fields fields.length = dotted name fields := by
  rw [prefixName, List.take_length]

/-- A field behind the path does not change its prefixes. -/
theorem prefixName_concat (name field : String) (h : k ≤ fields.length) :
    prefixName name (fields ++ [field]) k = prefixName name fields k := by
  rw [prefixName, prefixName, List.take_append_of_le_length h]

/-- A path that is declared as a whole is its own longest prefix. -/
theorem longest_whole (h : env.lookup? (dotted name fields) = some type) :
    Longest env name fields fields.length type where
  le := Nat.le_refl _
  declared := by rw [prefixName_length, h]
  longer j hj hlt := absurd hlt (Nat.not_lt.mpr hj)

/-- Of the prefixes with one more field at the end, only the whole is new. -/
theorem lookup?_prefixName_concat (hwhole : env.lookup? (dotted name (fields ++ [field])) = none)
    (hk : k ≤ (fields ++ [field]).length)
    (h : k ≤ fields.length → env.lookup? (prefixName name fields k) = none) :
    env.lookup? (prefixName name (fields ++ [field]) k) = none := by
  rw [List.length_append, List.length_singleton] at hk
  rcases Nat.lt_or_ge fields.length k with hlast | hinside
  · obtain rfl : k = (fields ++ [field]).length := by
      rw [List.length_append, List.length_singleton]
      omega
    rw [prefixName_length, hwhole]
  · rw [prefixName_concat name field hinside, h hinside]

/-- One more field does not change the longest prefix if the whole is not declared. -/
theorem Longest.concat (h : Longest env name fields k type)
    (hwhole : env.lookup? (dotted name (fields ++ [field])) = none) :
    Longest env name (fields ++ [field]) k type where
  le := by
    rw [List.length_append]
    exact Nat.le_add_right_of_le h.le
  declared := by rw [prefixName_concat name field h.le, h.declared]
  longer _ hj hlt := lookup?_prefixName_concat hwhole hj fun hinside => h.longer _ hinside hlt

/-- There is one longest prefix that is declared. -/
theorem Longest.unique {k' : Nat} {type' : ValueType} (h : Longest env name fields k type)
    (h' : Longest env name fields k' type') : k = k' ∧ type = type' := by
  obtain hlt | rfl | hlt := Nat.lt_trichotomy k k'
  · have hnone := h.longer k' h'.le hlt
    rw [h'.declared] at hnone
    cases hnone
  · have hsame := h.declared.symm.trans h'.declared
    exact ⟨rfl, Option.some.inj hsame⟩
  · have hnone := h'.longer k h.le hlt
    rw [h.declared] at hnone
    cases hnone

/-! ## Verdicts on paths -/

/-- A verdict on a path: what is selected from the longest declared prefix, the problem of the first
selection that is not from a map, or the name as a problem. -/
inductive Outcome (env : Environment) (place : Span) (name : String) (fields : List String) :
    Verdict TypedExpr → Prop
  | typed {k : Nat} {type : ValueType} {t : TypedExpr} (hlongest : Longest env name fields k type)
      (h : Selected (.ident type (prefixName name fields k)) (fields.drop k) t) :
      Outcome env place name fields (.fine t)
  | stuck {k j : Nat} {type : ValueType} {operand : TypedExpr}
      (hlongest : Longest env name fields k type) (hj : j < (fields.drop k).length)
      (h : Selected (.ident type (prefixName name fields k)) ((fields.drop k).take j) operand)
      (hno : ∀ value, operand.type ≠ .map .string value) (span : Span) :
      Outcome env place name fields (.fault span (.noFields operand.type))
  | undeclared (h : ∀ k ≤ fields.length, env.lookup? (prefixName name fields k) = none) :
      Outcome env place name fields (.fault place (.undeclared name))

/-- A path that is declared as a whole is one field. -/
theorem outcome_of_declared (h : env.lookup? (dotted name fields) = some type) :
    Outcome env place name fields (.fine (.ident type (dotted name fields))) := by
  refine .typed (longest_whole h) ?_
  rw [prefixName_length, List.drop_length]
  exact .nothing _

/-- **One more field.** If the whole is not declared, the verdict on the operand decides. -/
theorem Outcome.concat {v : Verdict TypedExpr} (h : Outcome env place name fields v)
    (hwhole : env.lookup? (dotted name (fields ++ [field])) = none) (span : Span) :
    Outcome env place name (fields ++ [field]) (v.andThen (selectNode span field)) := by
  cases h with
  | @typed k type t hlongest h =>
      have hdrop : (fields ++ [field]).drop k = fields.drop k ++ [field] :=
        List.drop_append_of_le_length hlongest.le
      have hname := prefixName_concat name field hlongest.le
      have hvisit : (Verdict.fine t).andThen (selectNode span field) = selectNode span field t := rfl
      rw [hvisit, selectNode]
      rcases hvalue : fieldType? t.type with _ | value
      · -- all the selections so far have types, and the new one is where it ends
        refine .stuck (hlongest.concat hwhole) (j := (fields.drop k).length) ?_ ?_ ?_ span
        · rw [hdrop, List.length_append]
          exact Nat.lt_succ_self _
        · rw [hdrop, hname, List.take_left]
          exact h
        · intro value hmap
          rw [fieldType?_eq_some_iff.mpr hmap] at hvalue
          cases hvalue
      · refine .typed (hlongest.concat hwhole) ?_
        rw [hdrop, hname]
        exact h.concat (fieldType?_eq_some_iff.mp hvalue) field
  | @stuck k j type operand hlongest hj h hno span' =>
      have hdrop : (fields ++ [field]).drop k = fields.drop k ++ [field] :=
        List.drop_append_of_le_length hlongest.le
      have hvisit : (Verdict.fault span' (.noFields operand.type)).andThen (selectNode span field)
          = .fault span' (.noFields operand.type) := rfl
      rw [hvisit]
      refine .stuck (hlongest.concat hwhole) (j := j) ?_ ?_ hno span'
      · rw [hdrop, List.length_append]
        exact Nat.lt_add_right _ hj
      · rw [hdrop, prefixName_concat name field hlongest.le,
          List.take_append_of_le_length (Nat.le_of_lt hj)]
        exact h
  | undeclared h => exact .undeclared fun k hk => lookup?_prefixName_concat hwhole hk (h k)

/-- The verdict on a path, from the name outwards. -/
theorem outcome_visit (h : IsPath place name fields e) :
    Outcome env place name fields (visit env e) := by
  -- the checker asks for the whole first, so a declared whole needs nothing of what is inside
  induction h with
  | @name info hplace =>
      rcases hdeclared : env.lookup? name with _ | type
      · have hvisit : visit env (.ident info name) = .fault place (.undeclared name) := by
          rw [visit, identNode, hdeclared, hplace]
        rw [hvisit]
        refine .undeclared fun k hk => ?_
        obtain rfl := Nat.le_zero.mp hk
        exact hdeclared
      · rw [visit_of_declared rfl hdeclared]
        exact outcome_of_declared hdeclared
  | @field fields operand h info field ih =>
      have hname := (h.field info field).qualifiedName?_eq
      rcases hdeclared : env.lookup? (dotted name (fields ++ [field])) with _ | type
      · have hwhole : ∀ whole, (Expr.select info operand field).qualifiedName? = some whole →
            env.lookup? whole = none := by
          intro whole hspelled
          obtain rfl := Option.some.inj (hname.symm.trans hspelled)
          exact hdeclared
        rw [visit_select_of_undeclared hwhole]
        exact ih.concat hdeclared info.span
      · rw [visit_of_declared hname hdeclared]
        exact outcome_of_declared hdeclared

/-! ## Paths are resolved -/

/-- What a path is resolved to: the selections behind its longest declared prefix, if each of them is
from a map with strings for keys; and if not, the problem of the first that is not, whatever shorter
prefixes are declared. If no prefix is declared, the name is the problem. -/
structure Resolves (env : Environment) (place : Span) (name : String) (fields : List String)
    (result : Except (List Finding) TypedExpr) : Prop where
  typed : ∀ k type, Longest env name fields k type → ∀ t, result = .ok t ↔
    Selected (.ident type (prefixName name fields k)) (fields.drop k) t
  stuck : ∀ k type, Longest env name fields k type →
    (¬ ∃ t, Selected (.ident type (prefixName name fields k)) (fields.drop k) t) →
      ∃ j operand span,
        Selected (.ident type (prefixName name fields k)) ((fields.drop k).take j) operand
          ∧ (∀ value, operand.type ≠ .map .string value)
          ∧ result = .error [⟨span, .noFields operand.type⟩]
  undeclared : (∀ k ≤ fields.length, env.lookup? (prefixName name fields k) = none) →
    result = .error [⟨place, .undeclared name⟩]

/-- What is selected by some of the fields from something that is no map is not selected from by the
next one. -/
theorem not_selected_of_stuck {j : Nat} {operand : TypedExpr} (hj : j < fields.length)
    (h : Selected start (fields.take j) operand) (hno : ∀ value, operand.type ≠ .map .string value) :
    ¬ Selected start fields t := by
  intro hall
  obtain ⟨operand', value, hoperand, hvalue⟩ := hall.exists_map hj
  obtain rfl := h.unique hoperand
  exact hno value hvalue

/-- If no prefix is declared there is no longest one. -/
theorem Longest.declared_prefix (h : Longest env name fields k type)
    (hnone : ∀ k ≤ fields.length, env.lookup? (prefixName name fields k) = none) : False := by
  have hdeclared := h.declared
  rw [hnone k h.le] at hdeclared
  cases hdeclared

/-- The checker answers with the verdict. -/
theorem Outcome.resolves (h : Outcome env place name fields (visit env e)) :
    Resolves env place name fields (check env e) := by
  unfold check
  generalize visit env e = v at h
  -- what is known of the prefix decides which of the three parts applies
  cases h with
  | @typed k type t hlongest h =>
      refine ⟨fun k' type' hlongest' t' => ?_, fun k' type' hlongest' hnone => ?_, fun hnone => ?_⟩
      · obtain ⟨rfl, rfl⟩ := hlongest.unique hlongest'
        constructor
        · intro hok
          obtain rfl := Except.ok.inj hok
          exact h
        · intro h'
          obtain rfl := h.unique h'
          rfl
      · obtain ⟨rfl, rfl⟩ := hlongest.unique hlongest'
        exact absurd ⟨t, h⟩ hnone
      · exact (hlongest.declared_prefix hnone).elim
  | @stuck k j type operand hlongest hj h hno span =>
      refine ⟨fun k' type' hlongest' t' => ?_, fun k' type' hlongest' _ => ?_, fun hnone => ?_⟩
      · obtain ⟨rfl, rfl⟩ := hlongest.unique hlongest'
        refine iff_of_false ?_ (not_selected_of_stuck hj h hno)
        rintro ⟨⟩
      · obtain ⟨rfl, rfl⟩ := hlongest.unique hlongest'
        exact ⟨j, operand, span, h, hno, rfl⟩
      · exact (hlongest.declared_prefix hnone).elim
  | undeclared h =>
      refine ⟨fun k' type' hlongest' _ => (hlongest'.declared_prefix h).elim,
        fun k' type' hlongest' _ => (hlongest'.declared_prefix h).elim, fun _ => rfl⟩

/-- **Dotted names resolve to the longest declared prefix.** This holds of every path that the checker
is given; and the sources that spell a path, with brackets and layout around any of its parts, are
parsed as this path, if the brackets and the segments are not too many. -/
theorem check_path (env : Environment) (name : String) (fields : List String) :
    (∀ place e, IsPath place name fields e → Resolves env place name fields (check env e))
      ∧ ∀ source, SpellsPath source name fields →
        (∀ e, Expr.parse source = .ok e → ∃ place, IsPath place name fields e
          ∧ Resolves env place name fields (check env e))
        ∧ (Brackets.scan source.toList = .ok () → fields.length < maxTreeDepth →
          ∃ e, Expr.parse source = .ok e) := by
  have hpaths : ∀ place e, IsPath place name fields e →
      Resolves env place name fields (check env e) := fun _ _ h => (outcome_visit h).resolves
  refine ⟨hpaths, fun source hspells => ⟨fun e he => ?_, fun hscan hfew => ?_⟩⟩
  · -- the parser gives a path, for which everything has been shown
    have hread := hspells.parse (Expr.parse_eq_ok_iff.mp he).1
    rw [he] at hread
    cases hread with
    | @path place _ hpath => exact ⟨place, hpath, hpaths place e hpath⟩
  · have hread := hspells.parse hscan
    rcases hparse : Expr.parse source with err | e
    · rw [hparse] at hread
      cases hread with
      -- the limit on depth is the only reason for it not to
      | tooDeep _ hmany => omega
    · exact ⟨e, rfl⟩

/-! ### A name in brackets -/

/-- A name that is declared as an integer, though its owner is declared as a map of maps. -/
def teamEnv : Environment :=
  ⟨[("user", .map .string (.map .string .string)), ("user.name", .int)]⟩

/-- Brackets and blanks on the way do not change the path. -/
theorem spellsPath_team : SpellsPath "(user . name).team" "user" ["name", "team"] := by
  -- a mark is no word, so it may touch what follows
  have hmark : ∀ {c : Char} {rest : List Char}, Grammar.isWordChar c = false → Grammar.Ends [c] rest :=
    fun hc hword => absurd (hword.1 _ List.mem_cons_self) (by rw [hc]; decide)
  refine ⟨[], [⟨['('], []⟩, ⟨"user".toList, [' ']⟩, ⟨['.'], [' ']⟩, ⟨"name".toList, []⟩,
    ⟨[')'], []⟩, ⟨['.'], []⟩, ⟨"team".toList, []⟩], rfl, ?_, ?_⟩
  · refine .cons (by simp) (hmark rfl) rfl (.cons (by simp) ?_ rfl (.cons (by simp) (hmark rfl) rfl
      (.cons (by simp) ?_ rfl (.cons (by simp) (hmark rfl) rfl (.cons (by simp) (hmark rfl) rfl
        (.cons (by simp) ?_ rfl .nil))))))
    · rintro - _ ⟨⟩
      rfl
    · rintro - _ ⟨⟩
      rfl
    · rintro - _ ⟨⟩
  · have huser : PathTokens ["user".toList] "user" [] := .name (w := "user".toList) rfl
    exact ((huser.field (w := "name".toList) rfl).round).field (w := "team".toList) rfl

/-- The longer name decides, though the selections from the shorter one have types. -/
theorem check_path_team : SpellsPath "(user . name).team" "user" ["name", "team"]
    ∧ ∃ e span, Expr.parse "(user . name).team" = .ok e
      ∧ check teamEnv e = .error [⟨span, .noFields .int⟩] := by
  obtain ⟨hresolves, hparsed⟩ := (check_path teamEnv "user" ["name", "team"]).2 _ spellsPath_team
  obtain ⟨e, he⟩ := hparsed rfl (by decide)
  obtain ⟨place, -, hpath⟩ := hresolves e he
  -- the name of the user is declared, and the team is a field of a number
  have hlongest : Longest teamEnv "user" ["name", "team"] 1 .int := by
    refine ⟨by decide, by decide, fun j hj hlt => ?_⟩
    obtain rfl : j = 2 := by
      have hlength : j ≤ 2 := hj
      omega
    decide
  have hnone : ¬ ∃ t, Selected (.ident .int "user.name") ["team"] t := by
    rintro ⟨t, h⟩
    cases h with
    | field hmap => cases hmap
  obtain ⟨j, operand, span, h, -, herror⟩ := hpath.stuck 1 .int hlongest hnone
  refine ⟨spellsPath_team, e, span, he, ?_⟩
  cases j with
  | zero =>
      cases h with
      | nothing => exact herror
  | succ j =>
      cases h with
      | field hmap => cases hmap

end RowFilter.Typing
