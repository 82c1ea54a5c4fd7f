/-
Converters made of settings.

Such a converter compiles in an environment that declares the configured fields and
nothing else. So there are two views of the same names: the environment, in which the
checker looks them up, and the schema, in which the columns are found. They agree, and
no name is in either of them twice.
-/
import RowFilter.Conversion.Converter
import RowFilter.Proofs.Schema
import RowFilter.Proofs.Typing.Environment
import RowFilter.Proofs.Typing.Nodes

set_option autoImplicit false

namespace RowFilter

/-! ## The names of the fields -/

/-- The column of a field is no matter of its name. -/
theorem Field.declare_name (name : String) (type : ValueType) (column : Option String) :
    (Field.declare name type column).name = name := by
  rcases column with _ | c <;> rfl

theorem Field.declare_type (name : String) (type : ValueType) (column : Option String) :
    (Field.declare name type column).type = type := by
  rcases column with _ | c <;> rfl

/-- The fields of a schema have the names that expressions may use. -/
theorem Config.schema_names (config : Config) :
    config.schema.fields.map Field.name = config.declarations.map Prod.fst := by
  simp [schema, declarations, Function.comp_def, Field.declare_name]

namespace Converter

open Typing (AllNodes)

/-- A declared name is the name of a field. -/
theorem not_undeclared {config : Config} {env : Environment} {name : String} {type : ValueType}
    (henv : env.declarations = config.declarations) (hname : env.lookup? name = some type) :
    ¬ config.schema.Undeclared name := by
  intro hundeclared
  have hmem := Environment.mem_of_lookup? hname
  rw [henv] at hmem
  -- the declarations and the fields have the same names
  have hfield : name ∈ config.schema.fields.map Field.name := by
    rw [Config.schema_names]
    exact List.mem_map_of_mem hmem
  obtain ⟨f, hf, hfname⟩ := List.mem_map.mp hfield
  exact hundeclared f hf hfname

/-- What is not declared is the name of no field. -/
theorem undeclared_of_lookup? {config : Config} {env : Environment} {name : String}
    (henv : env.declarations = config.declarations) (hname : env.lookup? name = none) :
    config.schema.Undeclared name := by
  intro f hf hfname
  have hmem : f.name ∈ config.schema.fields.map Field.name := List.mem_map_of_mem hf
  rw [Config.schema_names, ← henv, hfname] at hmem
  exact Environment.not_mem_names hname hmem

/-- **One view of types.** The schema knows each name with the type that the environment knows
it with. -/
theorem typeOf?_eq_lookup? {config : Config} {env : Environment}
    (hnames : (config.schema.fields.map Field.name).Nodup)
    (henv : env.declarations = config.declarations) (name : String) :
    config.schema.typeOf? name = env.lookup? name := by
  -- no declaration means no field, and a declaration means the field that it was made for
  rcases hlookup : env.lookup? name with _ | type
  · have hundeclared := undeclared_of_lookup? henv hlookup
    rw [Schema.typeOf?, Schema.find?_eq_none_iff.mpr hundeclared, Option.map_none]
  · have hmem := Environment.mem_of_lookup? hlookup
    rw [henv] at hmem
    obtain ⟨f, hf, hdeclaration⟩ := List.mem_map.mp hmem
    obtain ⟨rfl, rfl⟩ := Prod.mk.inj hdeclaration
    have hfield : Field.declare f.name f.type f.column ∈ config.schema.fields :=
      List.mem_map_of_mem hf
    have hfind := Schema.find?_of_mem hnames hfield
    rw [Field.declare_name] at hfind
    rw [Schema.typeOf?, hfind, Option.map_some, Field.declare_type]

/-! ## Compiling in the environment of the fields -/

/-- A converter of settings has the environment of the configured declarations. -/
theorem exists_environment {config : Config} {c : Converter} (h : ofConfig config = .ok c) :
    ∃ env, Environment.ofDeclarations config.declarations = .ok env
      ∧ c = withCompiler config (.environment env) := by
  unfold ofConfig at h
  rcases henv : Environment.ofDeclarations config.declarations with e | env
  · simp [henv] at h
  · simp only [henv, Except.ok.injEq] at h
    exact ⟨env, rfl, h.symm⟩

/-- This environment declares the configured fields, all under different names. -/
theorem ofConfig_spec {config : Config} {c : Converter} (h : ofConfig config = .ok c) :
    (config.schema.fields.map Field.name).Nodup
      ∧ ∃ env, c = withCompiler config (.environment env)
          ∧ env.declarations = config.declarations := by
  obtain ⟨env, henv, rfl⟩ := exists_environment h
  -- a repeated name would have been refused
  obtain ⟨hdeclarations, hnodup⟩ := Environment.ofDeclarations_spec henv
  rw [Config.schema_names]
  exact ⟨hnodup, env, rfl, hdeclarations⟩

/-- A tree that is compiled in an environment has been checked in it. -/
theorem allNodes_of_compile {env : Environment} {source : String} {tree : TypedExpr}
    (h : env.compile source = .ok tree) : AllNodes env tree := by
  obtain ⟨e, -, hcheck⟩ := Environment.compile_eq_ok_iff.mp h
  exact Typing.allNodes_of_check hcheck

end Converter

end RowFilter
