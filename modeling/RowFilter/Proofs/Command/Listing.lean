/-
The listing of fields, and the columns behind them.

The listing shows a column for each field as it is set, and the name where none is set. A schema
goes by the same rule, but for a column that is set to the empty text: it counts as not set there,
so the conversions use the name, and the listing shows nothing. That is the only difference
(`fields_shows_columns`), and since no accepted field has an empty name, the listing is shorter for
it.
-/
import Mathlib.Algebra.Order.BigOperators.Group.List
import RowFilter.Command.Run
import RowFilter.Proofs.Conversion.Fields

set_option autoImplicit false

namespace RowFilter.Command

variable {config : Config} {c : Converter} {f : FieldSetting}

/-! ## Columns of fields -/

/-- The column of a configured field is what its declaration says. -/
theorem resolveColumn_field (hc : Converter.ofConfig config = .ok c) (hf : f ∈ config.fields) :
    c.schema.resolveColumn f.name = (Field.declare f.name f.type f.column).column := by
  obtain ⟨hnames, env, rfl, -⟩ := Converter.ofConfig_spec hc
  have hfield : Field.declare f.name f.type f.column ∈ config.schema.fields :=
    List.mem_map_of_mem hf
  -- the names of an accepted configuration are distinct, so no later field hides this one
  have hcolumn := Schema.resolveColumn_of_mem hnames hfield
  rwa [Field.declare_name] at hcolumn

/-- What is shown for a field: the column that is used, or nothing if the setting is the empty text
and the name is used. -/
theorem shownColumn_cases (hc : Converter.ofConfig config = .ok c) (hf : f ∈ config.fields) :
    (f.column ≠ some "" ∧ shownColumn f = c.schema.resolveColumn f.name)
      ∨ (f.column = some "" ∧ shownColumn f = "" ∧ c.schema.resolveColumn f.name = f.name) := by
  rw [resolveColumn_field hc hf, shownColumn]
  -- without a setting both sides fall back on the name
  rcases hcolumn : f.column with _ | column
  · exact .inl ⟨by simp, rfl⟩
  · by_cases hempty : column = ""
    · subst hempty
      exact .inr ⟨rfl, rfl, rfl⟩
    · have hfilled : column.isEmpty = false := by simpa using hempty
      refine .inl ⟨by simpa using hempty, ?_⟩
      rw [Field.declare, hfilled]
      rfl

/-- A field that is accepted has a name. -/
theorem name_ne_empty (hc : Converter.ofConfig config = .ok c) (hf : f ∈ config.fields) :
    f.name ≠ "" := by
  obtain ⟨env, henv, -⟩ := Converter.exists_environment hc
  have hfaultless := (Environment.ofDeclarations_eq_ok_iff.mp henv).1
  rw [Config.declarations_names] at hfaultless
  intro hempty
  -- an empty name is not well formed
  have hformed := isDeclarable_iff.mpr (hfaultless.formed f.name (List.mem_map_of_mem hf))
  rw [hempty] at hformed
  cases hformed

/-- The column that is shown for a field is the one that is used unless it is set to the empty
text. -/
theorem shownColumn_eq_iff (hc : Converter.ofConfig config = .ok c) (hf : f ∈ config.fields) :
    shownColumn f = c.schema.resolveColumn f.name ↔ f.column ≠ some "" := by
  rcases shownColumn_cases hc hf with ⟨hset, hshown⟩ | ⟨hempty, hnothing, hname⟩
  · exact iff_of_true hshown hset
  · rw [hnothing, hname]
    exact iff_of_false (name_ne_empty hc hf).symm (not_not_intro hempty)

/-- Less is shown than is used where the column is set to the empty text. -/
theorem length_shownColumn_lt (hc : Converter.ofConfig config = .ok c) (hf : f ∈ config.fields)
    (hempty : f.column = some "") :
    (shownColumn f).length < (c.schema.resolveColumn f.name).length := by
  rcases shownColumn_cases hc hf with ⟨hset, -⟩ | ⟨-, hnothing, hname⟩
  · exact absurd hempty hset
  · rw [hnothing, hname, String.length_empty, Nat.pos_iff_ne_zero, ne_eq,
      String.length_eq_zero_iff]
    exact name_ne_empty hc hf

/-- Never more is shown than is used. -/
theorem length_shownColumn_le (hc : Converter.ofConfig config = .ok c) (hf : f ∈ config.fields) :
    (shownColumn f).length ≤ (c.schema.resolveColumn f.name).length := by
  rcases shownColumn_cases hc hf with ⟨-, hshown⟩ | ⟨-, hnothing, -⟩
  · rw [hshown]
  · rw [hnothing]
    exact Nat.zero_le _

/-! ## Listings -/

/-- The listing of the fields with a column for each. -/
def listingOf (columnOf : FieldSetting → String) (config : Config) : String :=
  fieldLine "Field" "Type" "Column" ++ String.ofList (List.replicate 64 '-') ++ "\n"
    ++ String.join (config.fields.map fun f => fieldLine f.name f.type.toText (columnOf f))

/-- The listing of the fields with the columns that the conversions use. -/
def usedListing (c : Converter) (config : Config) : String :=
  listingOf (fun f => c.schema.resolveColumn f.name) config

/-- The column stands at the end of its line, so nothing is filled up behind it. -/
theorem length_fieldLine (name type column : String) :
    (fieldLine name type column).length = (fieldLine name type "").length + column.length := by
  simp only [fieldLine, String.length_append, String.length_empty]
  omega

/-- A listing with shorter columns is shorter. -/
theorem length_listingOf_lt {columnOf columnOf' : FieldSetting → String}
    (hle : ∀ g ∈ config.fields, (columnOf g).length ≤ (columnOf' g).length)
    (hf : f ∈ config.fields) (hlt : (columnOf f).length < (columnOf' f).length) :
    (listingOf columnOf config).length < (listingOf columnOf' config).length := by
  simp only [listingOf, String.length_append, String.length_join, List.map_map]
  -- line by line no shorter column, and one line that is shorter
  refine Nat.add_lt_add_left (List.sum_lt_sum _ _ (fun g hg => ?_) ⟨f, hf, ?_⟩) _
  · have hg := hle g hg
    simp only [Function.comp_apply]
    rw [length_fieldLine, length_fieldLine _ _ (columnOf' g)]
    omega
  · simp only [Function.comp_apply]
    rw [length_fieldLine, length_fieldLine _ _ (columnOf' f)]
    omega

/-- The listing that is shown is the one of the columns that are used, or some column is set to the
empty text and the listing is shorter. -/
theorem listingOf_eq_iff (hc : Converter.ofConfig config = .ok c) :
    listingOf shownColumn config = usedListing c config ↔
      ∀ f ∈ config.fields, f.column ≠ some "" := by
  constructor
  · intro hsame f hf hempty
    -- a column may hold line feeds, so equal listings need not be equal line by line; their
    -- lengths tell them apart all the same
    have hshorter : (listingOf shownColumn config).length < (usedListing c config).length :=
      length_listingOf_lt (fun g hg => length_shownColumn_le hc hg) hf
        (length_shownColumn_lt hc hf hempty)
    rw [hsame] at hshorter
    exact absurd hshorter (Nat.lt_irrefl _)
  · intro hset
    have hlines : (config.fields.map fun f => fieldLine f.name f.type.toText (shownColumn f))
        = config.fields.map fun f =>
            fieldLine f.name f.type.toText (c.schema.resolveColumn f.name) :=
      List.map_congr_left fun f hf => by rw [(shownColumn_eq_iff hc hf).mpr (hset f hf)]
    rw [usedListing, listingOf, listingOf, hlines]

/-- **The listing shows the columns that are used**, field by field and as a whole, unless a column
is set to the empty text: there it shows nothing, and the conversions use the name of the field. -/
theorem fields_shows_columns {text : String} (hload : loadConfig (some text) = .ok config)
    (hc : Converter.ofConfig config = .ok c) :
    fields (some text) = .print (listingOf shownColumn config)
      ∧ (∀ f ∈ config.fields, shownColumn f = c.schema.resolveColumn f.name ↔ f.column ≠ some "")
      ∧ (∀ f ∈ config.fields, f.column = some "" →
          shownColumn f = "" ∧ c.schema.resolveColumn f.name = f.name)
      ∧ (fields (some text) = .print (usedListing c config) ↔
          ∀ f ∈ config.fields, f.column ≠ some "") := by
  have hprint : fields (some text) = .print (listingOf shownColumn config) := by
    rw [fields, hload]
    rfl
  refine ⟨hprint, fun f hf => shownColumn_eq_iff hc hf, fun f hf hempty => ?_, ?_⟩
  · rcases shownColumn_cases hc hf with ⟨hset, -⟩ | ⟨-, hnothing, hname⟩
    · exact absurd hempty hset
    · exact ⟨hnothing, hname⟩
  · rw [hprint, Effect.print.injEq]
    exact listingOf_eq_iff hc

/-! ### Settings of a column -/

/-- The settings of an age, with something for its column. -/
def ageSettings (column : String) : String :=
  "\x7b\"fields\": [\x7b\"name\": \"age\", \"type\": \"int\", \"column\": " ++ column ++ "\x7d]\x7d"

def ageConfig (column : Option String) : Config :=
  { Config.empty with fields := [⟨"age", .int, column⟩] }

def ageConverter (column : Option String) : Converter :=
  .withCompiler (ageConfig column) (.environment ⟨[("age", .int)]⟩)

/-- The settings of one field make a converter, whatever its column is set to. -/
theorem ofConfig_age (column : Option String) :
    Converter.ofConfig (ageConfig column) = .ok (ageConverter column) := by
  have henv : Environment.ofDeclarations [("age", .int)] = .ok ⟨[("age", .int)]⟩ := by rfl
  have hdeclared : (ageConfig column).declarations = [("age", .int)] := rfl
  rw [Converter.ofConfig, hdeclared, henv, ageConverter]

/-- A column that is not set, and one that is. -/
theorem fields_shows_columns_age :
    loadConfig (some (ageSettings "null")) = .ok (ageConfig none)
      ∧ fields (some (ageSettings "null"))
          = .print (usedListing (ageConverter none) (ageConfig none))
      ∧ loadConfig (some (ageSettings "\"years\"")) = .ok (ageConfig (some "years"))
      ∧ fields (some (ageSettings "\"years\""))
          = .print (usedListing (ageConverter (some "years")) (ageConfig (some "years"))) := by
  -- the settings are read by evaluation, the listings follow from the theorem
  have hnull : loadConfig (some (ageSettings "null")) = .ok (ageConfig none) := by decide +kernel
  have hyears : loadConfig (some (ageSettings "\"years\"")) = .ok (ageConfig (some "years")) := by
    decide +kernel
  exact ⟨hnull, (fields_shows_columns hnull (ofConfig_age none)).2.2.2.mpr (by decide),
    hyears, (fields_shows_columns hyears (ofConfig_age (some "years"))).2.2.2.mpr (by decide)⟩

/-- A column that is set to the empty text is listed as nothing, though conversions use the name. -/
theorem empty_column_not_shown :
    loadConfig (some (ageSettings "\"\"")) = .ok (ageConfig (some ""))
      ∧ Converter.ofConfig (ageConfig (some "")) = .ok (ageConverter (some ""))
      ∧ fields (some (ageSettings "\"\"")) = .print (fieldLine "Field" "Type" "Column"
          ++ String.ofList (List.replicate 64 '-') ++ "\n" ++ fieldLine "age" "int" "")
      ∧ (ageConverter (some "")).schema.resolveColumn "age" = "age" :=
  ⟨by decide +kernel, ofConfig_age _, by decide +kernel, by decide⟩

end RowFilter.Command
