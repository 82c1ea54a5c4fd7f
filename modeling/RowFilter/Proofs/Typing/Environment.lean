/-
What an environment knows after a list of declarations: these declarations, in this
order, and no name twice. Declaring stops at the first name that is malformed or was
declared before, so an environment that comes out has been through all of them.
-/
import RowFilter.Typing.Environment

set_option autoImplicit false

namespace RowFilter.Environment

/-- The declared names. -/
def names (env : Environment) : List String := env.declarations.map Prod.fst

/-- A name has a type only if it is declared with it. -/
theorem mem_of_lookup? {env : Environment} {name : String} {type : ValueType}
    (h : env.lookup? name = some type) : (name, type) ∈ env.declarations := by
  obtain ⟨before, after, hsplit, -⟩ := List.lookup_eq_some_iff.mp h
  rw [hsplit]
  simp

/-- A name without a type is not declared. -/
theorem not_mem_names {env : Environment} {name : String} (h : env.lookup? name = none) :
    name ∉ env.names := by
  intro hmem
  obtain ⟨⟨n, type⟩, hdecl, rfl⟩ := List.mem_map.mp hmem
  -- no declaration of the name has been found
  have hne := List.lookup_eq_none_iff.mp h (n, type) hdecl
  simp at hne

/-- One more declaration is the last one, of a name that is new. -/
theorem declare_eq_ok_iff {env env' : Environment} {name : String} {type : ValueType} :
    env.declare name type = (.ok (), env') ↔
      isDeclarable name = true ∧ env.lookup? name = none
        ∧ env' = ⟨env.declarations ++ [(name, type)]⟩ := by
  unfold declare
  by_cases hname : isDeclarable name = false
  · simp [hname]
  · rcases hlookup : env.lookup? name with _ | t
    · simp [hname, eq_comm]
    · simp [hname]

/-- A declaration that is refused has entered nothing: the name was malformed, or it had a type
already. -/
theorem declare_eq_error {env env' : Environment} {name : String} {type : ValueType}
    {why : DeclarationError} (h : env.declare name type = (.error why, env')) :
    env' = env ∧ (isDeclarable name = false ∧ why = .invalidName name
      ∨ isDeclarable name = true ∧ (env.lookup? name).isSome = true ∧ why = .duplicate name) := by
  unfold declare at h
  -- the two checks in their order; both hand back the environment they were given
  split at h
  · next hname =>
    obtain ⟨hwhy, henv⟩ := Prod.mk.inj h
    exact ⟨henv.symm, Or.inl ⟨hname, (Except.error.inj hwhy).symm⟩⟩
  · next hname =>
    split at h
    · next hdeclared =>
      obtain ⟨hwhy, henv⟩ := Prod.mk.inj h
      exact ⟨henv.symm, Or.inr ⟨by simpa using hname, hdeclared, (Except.error.inj hwhy).symm⟩⟩
    · cases (Prod.mk.inj h).1

/-- Declarations one after the other add up, and keep the names apart. -/
theorem declareAll_spec {env env' : Environment} {declarations : List (String × ValueType)}
    (h : env.declareAll declarations = .ok env') (hnodup : env.names.Nodup) :
    env'.declarations = env.declarations ++ declarations ∧ env'.names.Nodup := by
  induction declarations generalizing env with
  | nil =>
      rw [declareAll] at h
      obtain rfl := Except.ok.inj h
      exact ⟨(List.append_nil _).symm, hnodup⟩
  | cons declaration rest ih =>
      obtain ⟨name, type⟩ := declaration
      rw [declareAll] at h
      -- the first declaration was made, or nothing would have come out
      rcases hdeclare : env.declare name type with ⟨e | ⟨⟩, next⟩
      · simp [hdeclare] at h
      · simp only [hdeclare] at h
        obtain ⟨-, hlookup, rfl⟩ := declare_eq_ok_iff.mp hdeclare
        -- the name had no type before, so it is none of the declared names
        have hnew : (⟨env.declarations ++ [(name, type)]⟩ : Environment).names.Nodup := by
          have hnot := not_mem_names hlookup
          simp only [names, List.map_append, List.map_cons, List.map_nil] at hnot hnodup ⊢
          exact List.nodup_append.mpr ⟨hnodup, by simp, by
            intro a ha b hb
            obtain rfl := List.mem_singleton.mp hb
            exact fun hab => hnot (hab ▸ ha)⟩
        obtain ⟨hall, hnames⟩ := ih h hnew
        exact ⟨by rw [hall, List.append_assoc]; rfl, hnames⟩

/-- **What is declared.** An environment made of declarations holds just these, and no
two of them have the same name. -/
theorem ofDeclarations_spec {declarations : List (String × ValueType)} {env : Environment}
    (h : ofDeclarations declarations = .ok env) :
    env.declarations = declarations ∧ (declarations.map Prod.fst).Nodup := by
  obtain ⟨hall, hnames⟩ := declareAll_spec h List.nodup_nil
  rw [empty, List.nil_append] at hall
  refine ⟨hall, ?_⟩
  rw [← hall]
  exact hnames

end RowFilter.Environment
