/-
Which fields make a converter.

The fields of settings go two ways. Their declarations are made one after the other, and the first
that is refused decides (`FirstFault`); their columns go into a schema, in which a later field would
hide an earlier one of the same name. A converter comes out exactly if no declaration is refused, so
there is never a field to hide, and the two views of the names agree (`ofConfig_agrees`).
-/
import RowFilter.Proofs.TypedExpr.Parts
import RowFilter.Proofs.Typing.Names

set_option autoImplicit false

namespace RowFilter

/-! ## Names of fields -/

/-- A name that is made of segments, at least one, with single dots between them. -/
def IsFieldName (name : String) : Prop :=
  ∃ parts : List (List Char),
    parts ≠ [] ∧ (∀ part ∈ parts, IsSegment part) ∧ name.toList = ['.'].intercalate parts

/-- Inside a segment the characters are taken one by one. -/
theorem isNameFrom_append {inside : List Char} (h : ∀ c ∈ inside, isNameChar c = true)
    (text : List Char) : isNameFrom false (inside ++ text) = isNameFrom false text := by
  induction inside with
  | nil => rfl
  | cons c rest ih =>
      have hc : isNameChar c = true := h c List.mem_cons_self
      -- no character of a segment is a dot, so the reader stays inside the segment
      have hdot : c ≠ '.' := by
        rintro rfl
        cases hc
      rw [List.cons_append, isNameFrom, if_neg hdot, hc, Bool.true_and,
        ih fun d hd => h d (List.mem_cons_of_mem _ hd)]

/-- A segment is read up to its end, wherever the text goes on from there. -/
theorem isNameFrom_segment {part : List Char} (h : IsSegment part) (text : List Char) :
    isNameFrom true (part ++ text) = isNameFrom false text := by
  obtain ⟨c, rest, rfl, hc, hrest⟩ := h
  rw [List.cons_append, isNameFrom, hc, Bool.true_and, isNameFrom_append hrest]

/-- Segments with single dots between them are read to the end: behind a dot a segment starts. -/
theorem isNameFrom_intercalate {parts : List (List Char)} (hne : parts ≠ [])
    (h : ∀ part ∈ parts, IsSegment part) : isNameFrom true (['.'].intercalate parts) = true := by
  induction parts with
  | nil => exact absurd rfl hne
  | cons part more ih =>
      have hpart := h part List.mem_cons_self
      cases more with
      | nil =>
          -- the text may end behind a segment, but not where one should start
          have hend := isNameFrom_segment hpart []
          rw [List.append_nil, isNameFrom, Bool.not_false] at hend
          rw [List.intercalate_singleton, hend]
      | cons second more =>
          have hmore := ih (by simp) fun p hp => h p (List.mem_cons_of_mem _ hp)
          rw [List.intercalate_cons_cons, List.append_assoc, isNameFrom_segment hpart,
            List.singleton_append, isNameFrom, if_pos rfl, hmore]

/-- The names that can be declared are those that are made of segments. -/
theorem isDeclarable_iff {name : String} : isDeclarable name = true ↔ IsFieldName name := by
  constructor
  · intro h
    exact ⟨segments name, List.splitOn_ne_nil '.' name.toList,
      (segments_of_isNameFrom name.toList).1 h, (List.intercalate_splitOn '.').symm⟩
  · rintro ⟨parts, hne, hparts, htext⟩
    rw [isDeclarable, htext, isNameFrom_intercalate hne hparts]

/-! ## The first fault -/

/-- What is wrong with a name behind others: it is not made of segments, whatever the others are, or
it is one of them. -/
inductive Fault (earlier : List String) (name : String) : DeclarationError → Prop
  | malformed (h : ¬ IsFieldName name) : Fault earlier name (.invalidName name)
  | repeated (hname : IsFieldName name) (h : name ∈ earlier) : Fault earlier name (.duplicate name)

/-- Nothing is wrong with any of the names. -/
structure Faultless (names : List String) : Prop where
  formed : ∀ name ∈ names, IsFieldName name
  distinct : names.Nodup

/-- What is wrong with the first of the names with which something is wrong. -/
def FirstFault (names : List String) (why : DeclarationError) : Prop :=
  ∃ earlier name later, names = earlier ++ name :: later ∧ Faultless earlier
    ∧ Fault earlier name why

namespace Environment

variable {env env' : Environment} {name : String} {type : ValueType} {why : DeclarationError}
  {declarations : List (String × ValueType)}

/-- A name is declared exactly if it has a type. -/
theorem mem_names_iff : name ∈ env.names ↔ (env.lookup? name).isSome = true := by
  constructor
  · intro h
    rcases hlookup : env.lookup? name with _ | type
    · exact absurd h (not_mem_names hlookup)
    · rfl
  · intro h
    obtain ⟨type, htype⟩ := Option.isSome_iff_exists.mp h
    exact List.mem_map_of_mem (mem_of_lookup? htype)

/-- A declaration is refused for a fault of its name, and then nothing is entered. -/
theorem declare_eq_error_iff :
    env.declare name type = (.error why, env') ↔ Fault env.names name why ∧ env' = env := by
  constructor
  · intro h
    -- a malformed name and a repeated one are the two faults
    obtain ⟨henv, ⟨hname, rfl⟩ | ⟨hname, hdeclared, rfl⟩⟩ := declare_eq_error h
    · refine ⟨.malformed fun hformed => ?_, henv⟩
      rw [isDeclarable_iff.mpr hformed] at hname
      cases hname
    · exact ⟨.repeated (isDeclarable_iff.mp hname) (mem_names_iff.mpr hdeclared), henv⟩
  · rintro ⟨hfault, rfl⟩
    unfold declare
    cases hfault with
    | malformed hname =>
        rw [← isDeclarable_iff, Bool.not_eq_true] at hname
        exact if_pos hname
    | repeated hname hdeclared =>
        rw [← isDeclarable_iff] at hname
        rw [if_neg (by simp [hname]), if_pos (mem_names_iff.mp hdeclared)]

/-- Declarations may be made in two goes. -/
theorem declareAll_append (env : Environment) (earlier later : List (String × ValueType)) :
    env.declareAll (earlier ++ later) = match env.declareAll earlier with
      | .error why => .error why
      | .ok next => next.declareAll later := by
  induction earlier generalizing env with
  | nil => rfl
  | cons declaration rest ih =>
      obtain ⟨name, type⟩ := declaration
      rw [List.cons_append, declareAll, declareAll]
      rcases env.declare name type with ⟨why | ⟨⟩, next⟩
      · rfl
      · exact ih next

/-- Declarations under names that are well formed, new and distinct are all made. -/
theorem declareAll_eq_ok (hformed : ∀ d ∈ declarations, IsFieldName d.1)
    (hdistinct : (env.names ++ declarations.map Prod.fst).Nodup) :
    env.declareAll declarations = .ok ⟨env.declarations ++ declarations⟩ := by
  induction declarations generalizing env with
  | nil => rw [declareAll, List.append_nil]
  | cons declaration rest ih =>
      obtain ⟨name, type⟩ := declaration
      have hname : isDeclarable name = true :=
        isDeclarable_iff.mpr (hformed (name, type) List.mem_cons_self)
      have hnew : env.lookup? name = none := by
        rw [← Option.not_isSome_iff_eq_none, ← mem_names_iff]
        exact fun hmem => (List.nodup_append.mp hdistinct).2.2 name hmem name List.mem_cons_self rfl
      -- the names that are declared and those that are to come stay the same together
      have hrest : (names ⟨env.declarations ++ [(name, type)]⟩ ++ rest.map Prod.fst).Nodup := by
        simpa [names] using hdistinct
      rw [declareAll, declare_eq_ok_iff.mpr ⟨hname, hnew, rfl⟩]
      dsimp only
      rw [ih (fun d hd => hformed d (List.mem_cons_of_mem _ hd)) hrest, List.append_assoc,
        List.singleton_append]

/-- **All declarations are made** if nothing is wrong with their names. -/
theorem ofDeclarations_eq_ok_iff : ofDeclarations declarations = .ok env ↔
    Faultless (declarations.map Prod.fst) ∧ env = ⟨declarations⟩ := by
  constructor
  · intro h
    obtain ⟨hall, hdistinct⟩ := ofDeclarations_spec h
    refine ⟨⟨fun name hname => ?_, hdistinct⟩, congrArg Environment.mk hall⟩
    obtain ⟨d, hd, rfl⟩ := List.mem_map.mp hname
    -- each declaration that was made has passed the check of its name
    exact isDeclarable_iff.mp (isDeclarable_of_declareAll h hd)
  · rintro ⟨⟨hformed, hdistinct⟩, rfl⟩
    have hnone : empty.names = [] := rfl
    have hnames : (empty.names ++ declarations.map Prod.fst).Nodup := by
      rw [hnone, List.nil_append]
      exact hdistinct
    exact declareAll_eq_ok (fun d hd => hformed d.1 (List.mem_map_of_mem hd)) hnames

/-- Where declarations are refused, the ones in front of some declaration are made and this one is
refused. -/
theorem exists_refused (h : env.declareAll declarations = .error why) :
    ∃ earlier name type later next, declarations = earlier ++ (name, type) :: later
      ∧ env.declareAll earlier = .ok next ∧ next.declare name type = (.error why, next) := by
  induction declarations generalizing env with
  | nil => cases h
  | cons declaration rest ih =>
      obtain ⟨name, type⟩ := declaration
      rw [declareAll] at h
      rcases hdeclare : env.declare name type with ⟨e | ⟨⟩, next⟩
      · simp only [hdeclare] at h
        obtain rfl := Except.error.inj h
        obtain rfl := (declare_eq_error hdeclare).1
        exact ⟨[], name, type, rest, next, rfl, rfl, hdeclare⟩
      · simp only [hdeclare] at h
        obtain ⟨earlier, n, t, later, last, rfl, hearlier, hrefused⟩ := ih h
        exact ⟨(name, type) :: earlier, n, t, later, last, rfl,
          by rw [declareAll, hdeclare]; exact hearlier, hrefused⟩

/-- **The first fault of a name decides** if not all declarations are made. -/
theorem ofDeclarations_eq_error_iff : ofDeclarations declarations = .error why ↔
    FirstFault (declarations.map Prod.fst) why := by
  constructor
  · intro h
    obtain ⟨earlier, name, type, later, next, rfl, hearlier, hrefused⟩ := exists_refused h
    obtain ⟨hfaultless, rfl⟩ := ofDeclarations_eq_ok_iff.mp hearlier
    exact ⟨_, name, later.map Prod.fst, by rw [List.map_append, List.map_cons], hfaultless,
      (declare_eq_error_iff.mp hrefused).1⟩
  · -- the names in front of the fault stand for declarations that are all made
    rintro ⟨names, first, more, hsplit, hfaultless, hfault⟩
    obtain ⟨earlier, rest, rfl, rfl, hrest⟩ := List.map_eq_append_iff.mp hsplit
    obtain ⟨⟨name, type⟩, later, rfl, rfl, rfl⟩ := List.map_eq_cons_iff.mp hrest
    have hearlier : empty.declareAll earlier = .ok ⟨earlier⟩ :=
      ofDeclarations_eq_ok_iff.mpr ⟨hfaultless, rfl⟩
    have hrefused : declare ⟨earlier⟩ name type = (.error why, ⟨earlier⟩) :=
      declare_eq_error_iff.mpr ⟨hfault, rfl⟩
    rw [ofDeclarations, declareAll_append, hearlier]
    dsimp only
    rw [declareAll, hrefused]

end Environment

/-! ## Converters -/

/-- A list without repetitions is what it is. -/
theorem TypedExpr.firstOccurrences_of_nodup {names : List String} (h : names.Nodup) :
    firstOccurrences names = names := by
  induction names with
  | nil => rw [firstOccurrences]
  | cons name rest ih =>
      obtain ⟨hnew, hrest⟩ := List.nodup_cons.mp h
      have hkept : rest.filter (· ≠ name) = rest := by
        refine List.filter_eq_self.mpr fun other hother => decide_eq_true ?_
        rintro rfl
        exact hnew hother
      rw [firstOccurrences, ih hrest, hkept]

/-- The names of the configured fields. -/
def Config.fieldNames (config : Config) : List String := config.fields.map FieldSetting.name

theorem Config.declarations_names (config : Config) :
    config.declarations.map Prod.fst = config.fieldNames := by
  rw [declarations, List.map_map]
  rfl

namespace Converter

/-- **Schema and environment agree.** Settings make a converter exactly if nothing is wrong with the
names of their fields, and otherwise the first fault is reported. In a converter every name has the
same type for the compiler as in the schema, and every configured field is one of the schema. -/
theorem ofConfig_agrees (config : Config) :
    ((∃ c, ofConfig config = .ok c) ↔ Faultless config.fieldNames)
      ∧ (∀ why, ofConfig config = .error why ↔ FirstFault config.fieldNames why)
      ∧ ∀ c, ofConfig config = .ok c →
          ∃ env, c.compiler = .environment env ∧ (∀ name, env.lookup? name = c.schema.typeOf? name)
            ∧ c.schema.size = config.fields.length := by
  rw [← Config.declarations_names]
  refine ⟨?_, fun why => ?_, fun c hc => ?_⟩
  · constructor
    · rintro ⟨c, hc⟩
      obtain ⟨env, henv, -⟩ := exists_environment hc
      exact (Environment.ofDeclarations_eq_ok_iff.mp henv).1
    · intro h
      have henv := Environment.ofDeclarations_eq_ok_iff.mpr ⟨h, rfl⟩
      exact ⟨_, by rw [ofConfig, henv]⟩
  · rw [← Environment.ofDeclarations_eq_error_iff, ofConfig]
    -- the converter fails for what its environment fails for
    rcases Environment.ofDeclarations config.declarations with e | env <;> simp
  · -- the schema would keep the last field of a name, but no name is repeated here
    obtain ⟨hnames, env, rfl, henv⟩ := ofConfig_spec hc
    refine ⟨env, rfl, fun name => (typeOf?_eq_lookup? hnames henv name).symm, ?_⟩
    rw [withCompiler, Schema.size, Schema.names, TypedExpr.firstOccurrences_of_nodup hnames,
      List.length_map, Config.schema, List.length_map]

/-! ### A name with dots -/

/-- The fields of a user, one of them in a column of another name. -/
def userConfig : Config :=
  (Config.empty.mappedField "user.name" .string "login").field "user" (.map .string .int)

/-- A name and the first of its segments by itself are two fields. -/
theorem ofConfig_agrees_user : ∃ c env, ofConfig userConfig = .ok c ∧ c.compiler = .environment env
    ∧ env.lookup? "user.name" = some .string ∧ c.schema.typeOf? "user.name" = some .string
    ∧ c.schema.size = 2 := by
  have hconfig : ofConfig userConfig = .ok (withCompiler userConfig
      (.environment ⟨[("user.name", .string), ("user", .map .string .int)]⟩)) := by rfl
  obtain ⟨env, henv, hagree, hsize⟩ := (ofConfig_agrees userConfig).2.2 _ hconfig
  obtain rfl := ExpressionCompiler.environment.inj henv
  have hlookup := hagree "user.name"
  exact ⟨_, _, hconfig, rfl, rfl, hlookup.symm, hsize⟩

/-- The first fault decides, here a name that is repeated before one that is malformed. -/
example : ofConfig ((userConfig.field "user" .int).field "user..name" .int)
    = .error (.duplicate "user") := by rfl

end Converter

end RowFilter
