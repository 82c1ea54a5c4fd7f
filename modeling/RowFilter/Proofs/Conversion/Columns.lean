/-
Which columns a converted filter reads, and when two of its conditions share one.

An operand of a condition is a declared name or the selection of a key from a map. A
declared name has the column of its field. A key is looked up among the names of the
fields as well, whatever map it is selected from: if there is such a field, the key has
the column of the field, and if not it is taken as a column itself. So keys are the only
way to a column that is not configured, and to a column that another operand has too.
When either happens is said precisely here. It rests on the checker, which makes names
only of what is declared and selections only from maps.
-/
import RowFilter.Proofs.Condition.Columns
import RowFilter.Proofs.Conversion.Pipeline
import RowFilter.Proofs.Conversion.Settings
import RowFilter.Proofs.TypedExpr.Equality

set_option autoImplicit false

namespace RowFilter.Converter

open Condition (Operand Reads Within)
open Typing (AllNodes Node)

/-! ## Operands of checked trees -/

/-- The tree selects a key. -/
def IsSelection (e : TypedExpr) : Prop := ∃ type operand key, e = .select type operand key

/-- A node that names a field is a declared name or selects a key from a map. -/
theorem name_or_key {env : Environment} {e : TypedExpr} {name : String} (hnode : Node env e)
    (hname : e.fieldRef? = some name) :
    (∃ type, e = .ident type name ∧ env.lookup? name = some type)
      ∨ ∃ type operand, e = .select type operand name ∧ operand.type = .map .string type := by
  cases hnode with
  | ident hlookup =>
      obtain rfl := Option.some.inj hname
      exact Or.inl ⟨_, rfl, hlookup⟩
  | select field htype =>
      obtain rfl := Option.some.inj hname
      exact Or.inr ⟨_, _, rfl, Typing.fieldType?_eq_some_iff.mp htype⟩
  | literal | unary | binary | call | method | list => cases hname

/-! ## Columns of a conversion -/

/-- The names that two operands end in share a column: they are one name, or one is a
key that spells the column of the field that the other names. -/
def Shares (schema : Schema) (e e' : TypedExpr) : Prop :=
  ∃ a b, e.fieldRef? = some a ∧ e'.fieldRef? = some b
    ∧ (a = b ∨ schema.Spells a b ∨ schema.Spells b a)

/-- An operand reads the column of a field, or is a key that is a column itself. -/
theorem configured_or_key {config : Config} {env : Environment} {limits : Limits}
    {tree operand : TypedExpr} {column : String}
    (henv : env.declarations = config.declarations) (hnodes : AllNodes env tree)
    (hreads : Reads config.schema limits tree operand column) :
    (∃ f ∈ config.schema.fields, f.column = column)
      ∨ (config.schema.Undeclared column ∧ ∃ type map, operand = .select type map column
          ∧ map.type = .map .string type) := by
  obtain ⟨name, hname, rfl⟩ := hreads.column_eq
  -- a name has the column of its field, or it is its own column if no field has it
  rcases config.schema.resolveColumn_cases name with ⟨f, hf, -, hcolumn⟩ | ⟨hundeclared, hself⟩
  · exact Or.inl ⟨f, hf, hcolumn.symm⟩
  · -- a column by its own name: no identifier ends here, identifiers are declared
    refine Or.inr ?_
    rw [hself]
    rcases name_or_key (hnodes operand hreads.part) hname with
      ⟨type, -, hlookup⟩ | ⟨type, map, hoperand, hmap⟩
    · exact absurd hundeclared (not_undeclared henv hlookup)
    · exact ⟨hundeclared, type, map, hoperand, hmap⟩

/-- Where no two fields share a column, two different operands read one column exactly
if one of them selects a key and their names share a column. -/
theorem reads_eq_iff {config : Config} {env : Environment} {limits : Limits}
    {tree e e' : TypedExpr} {column column' : String} (hdistinct : config.schema.Distinct)
    (henv : env.declarations = config.declarations) (hnodes : AllNodes env tree)
    (hreads : Reads config.schema limits tree e column)
    (hreads' : Reads config.schema limits tree e' column') (hne : e ≠ e') :
    column = column' ↔ (IsSelection e ∨ IsSelection e') ∧ Shares config.schema e e' := by
  obtain ⟨a, ha, rfl⟩ := hreads.column_eq
  obtain ⟨b, hb, rfl⟩ := hreads'.column_eq
  have hnode := hnodes e hreads.part
  have hnode' := hnodes e' hreads'.part
  -- columns are equal for one of three reasons, and names that are declared leave only the first
  rw [Schema.resolveColumn_eq_iff hdistinct]
  constructor
  · intro hab
    refine ⟨?_, a, b, ha, hb, hab⟩
    -- names alone never meet: both are declared, and one declared name is one node
    rcases name_or_key hnode ha with ⟨type, rfl, hlookup⟩ | ⟨type, map, rfl, -⟩
    · rcases name_or_key hnode' hb with ⟨type', rfl, hlookup'⟩ | ⟨type', map', rfl, -⟩
      · rcases hab with rfl | ⟨hundeclared, -⟩ | ⟨hundeclared, -⟩
        · obtain rfl : type = type' := Option.some.inj (hlookup.symm.trans hlookup')
          exact absurd rfl hne
        · exact absurd hundeclared (not_undeclared henv hlookup)
        · exact absurd hundeclared (not_undeclared henv hlookup')
      · exact Or.inr ⟨type', map', b, rfl⟩
    · exact Or.inl ⟨type, map, a, rfl⟩
  · rintro ⟨-, a', b', ha', hb', hshares⟩
    obtain rfl : a = a' := Option.some.inj (ha.symm.trans ha')
    obtain rfl : b = b' := Option.some.inj (hb.symm.trans hb')
    exact hshares

/-- **Columns of a converted filter.** Every column is configured for a field, or is a
key that is no declared name and is selected from a map as the operand of a condition.
Where no two fields share a column, two conditions with different operands are on one
column exactly if one of the operands selects a key and the names they end in are one
name, or one is such a key spelled like the column of the other. -/
theorem convert_columns {config : Config} {c : Converter} {source : String}
    {conversion : Conversion} (hconfig : ofConfig config = .ok c)
    (hconvert : c.convert source = .ok conversion) :
    ∃ tree, c.compiler.compile source = .ok tree
      ∧ (∀ column ∈ conversion.predicate.columns,
          (∃ f ∈ config.schema.fields, f.column = column)
            ∨ (config.schema.Undeclared column ∧ ∃ type map, map.type = .map .string type
                ∧ Reads c.schema c.limits tree (.select type map column) column))
      ∧ ((config.schema.fields.map Field.column).Nodup →
          ∀ e e' column column', Reads c.schema c.limits tree e column →
            Reads c.schema c.limits tree e' column' → e ≠ e' →
            (column = column' ↔ (IsSelection e ∨ IsSelection e') ∧ Shares config.schema e e')) := by
  obtain ⟨hnames, env, rfl, henv⟩ := ofConfig_spec hconfig
  obtain ⟨tree, hadmits, -, hcompile, -⟩ := run_eq_ok_iff.mp hconvert
  -- the tree has been checked, so its selections are from maps
  have hnodes : AllNodes env tree := allNodes_of_compile hadmits.compiles
  refine ⟨tree, hadmits.compiles, ?_, ?_⟩
  · intro column hcolumn
    obtain ⟨operand, hreads⟩ := (Condition.derives_of_compile hcompile).exists_reads hcolumn
    rcases configured_or_key henv hnodes hreads with hfield | ⟨hkey, type, map, rfl, hmap⟩
    · exact Or.inl hfield
    · exact Or.inr ⟨hkey, type, map, hmap, hreads⟩
  · intro hcolumns e e' column column' hreads hreads' hne
    exact reads_eq_iff ⟨hnames, hcolumns⟩ henv hnodes hreads hreads' hne

/-! ### A field and a key -/

/-- A field and a map, both in columns of their own names. -/
def labelConfig : Config :=
  { Config.empty with
    fields := [⟨"status", .string, none⟩, ⟨"labels", .map .string .string, none⟩] }

def labelConverter : Converter :=
  withCompiler labelConfig (.environment ⟨labelConfig.declarations⟩)

/-- The selection of a key from the map. -/
def labelKey (key : String) : TypedExpr :=
  .select .string (.ident (.map .string .string) "labels") key

/-- A comparison with a text. -/
def isText (operand : TypedExpr) (text : String) : TypedExpr :=
  .call .bool "_==_" [operand, .ofValue (.string text)]

/-- The field and a key, both compared with texts. -/
def labelFilter (key : String) : TypedExpr :=
  .call .bool "_&&_" [isText (.ident .string "status") "a", isText (labelKey key) "b"]

/-- A key that is not declared and spells no column is a column itself, and it meets the
column of the field nowhere. -/
theorem convert_columns_label :
    ofConfig labelConfig = .ok labelConverter
      ∧ labelConverter.convert "status == \"a\" && labels.team == \"b\""
          = .ok ⟨.and (.compare "status" .eq (.string "a"))
              (.compare "team" .eq (.string "b")), 4⟩
      ∧ ∃ tree,
          labelConverter.compiler.compile "status == \"a\" && labels.team == \"b\"" = .ok tree
          ∧ (∃ type map, map.type = .map .string type
              ∧ Reads labelConverter.schema labelConverter.limits tree
                  (.select type map "team") "team")
          ∧ ∀ e e' column column',
              Reads labelConverter.schema labelConverter.limits tree e column →
              Reads labelConverter.schema labelConverter.limits tree e' column' → e ≠ e' →
              (column = column'
                ↔ (IsSelection e ∨ IsSelection e') ∧ Shares labelConfig.schema e e') := by
  have hconvert : labelConverter.convert "status == \"a\" && labels.team == \"b\""
      = .ok ⟨.and (.compare "status" .eq (.string "a")) (.compare "team" .eq (.string "b")), 4⟩ :=
    eq_ok_of_toOption (by decide +kernel)
  have hconfig : ofConfig labelConfig = .ok labelConverter := rfl
  obtain ⟨tree, htree, hcolumns, hshared⟩ := convert_columns hconfig hconvert
  refine ⟨hconfig, hconvert, tree, htree, ?_, hshared (by decide)⟩
  -- no field has this column, so it is that of a key
  rcases hcolumns "team" (by decide) with hfield | ⟨-, hkey⟩
  · exact absurd hfield (by decide)
  · exact hkey

/-- A key can stand for a column that no field has; and although all columns are
different, it can stand for the column of a field that is compared as well. -/
theorem selected_key_meets_column :
    ofConfig labelConfig = .ok labelConverter
      ∧ (labelConfig.schema.fields.map Field.column).Nodup
      ∧ (∃ conversion, labelConverter.convert "labels.team == \"b\"" = .ok conversion
          ∧ ¬ ∀ column ∈ conversion.predicate.columns,
              ∃ f ∈ labelConfig.schema.fields, f.column = column)
      ∧ ∃ conversion tree,
          labelConverter.convert "status == \"a\" && labels.status == \"b\"" = .ok conversion
          ∧ labelConverter.compiler.compile "status == \"a\" && labels.status == \"b\""
              = .ok tree
          ∧ ¬ ∀ e e' column column',
              Reads labelConverter.schema labelConverter.limits tree e column →
              Reads labelConverter.schema labelConverter.limits tree e' column' →
              e ≠ e' → column ≠ column' := by
  have hteam : labelConverter.convert "labels.team == \"b\""
      = .ok ⟨.compare "team" .eq (.string "b"), 3⟩ :=
    eq_ok_of_toOption (by decide +kernel)
  have hstatus : labelConverter.convert "status == \"a\" && labels.status == \"b\""
      = .ok ⟨.and (.compare "status" .eq (.string "a")) (.compare "status" .eq (.string "b")),
          4⟩ :=
    eq_ok_of_toOption (by decide +kernel)
  have htree : labelConverter.compiler.compile "status == \"a\" && labels.status == \"b\""
      = .ok (labelFilter "status") :=
    eq_ok_of_toOption (by decide +kernel)
  refine ⟨rfl, by decide, ⟨_, hteam, ?_⟩, _, _, hstatus, htree, ?_⟩
  · intro hall
    exact absurd (hall "team" (by decide)) (by decide)
  · intro hapart
    -- the field and the key are the left sides of the two comparisons
    have hname : Reads labelConverter.schema labelConverter.limits (labelFilter "status")
        (.ident .string "status") "status" :=
      ⟨isText (.ident .string "status") "a", _,
        Within.argument .both rfl (.call _ _ _) (by simp) (Within.root _),
        @Operand.comparison _ _ _ .eq (.call _ _ _), rfl, by decide⟩
    have hkey : Reads labelConverter.schema labelConverter.limits (labelFilter "status")
        (labelKey "status") "status" :=
      ⟨isText (labelKey "status") "b", _,
        Within.argument .both rfl (.call _ _ _) (by simp) (Within.root _),
        @Operand.comparison _ _ _ .eq (.call _ _ _), rfl, by decide⟩
    exact hapart _ _ _ _ hname hkey (by decide) rfl

end RowFilter.Converter
