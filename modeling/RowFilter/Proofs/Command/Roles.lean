/-
What roles change about a command.

Giving no role at all and giving some are two different requests. Without roles nobody asks who
may use a field; the first role turns the question on, and from then on every further role can
only open fields. So a command that shows a conversion to a caller with a role shows it to the
same caller with more roles, and the one step that can take a conversion away is the step from
no role to some. What is lost there is told from the tree of the expression and the policy
alone.

All of this is decided by the result of `convertFor`, since everything a command does besides
depends on its other options only (`convert_congr`).
-/
import RowFilter.Command.Run
import RowFilter.Proofs.Conversion.Roles

set_option autoImplicit false

namespace RowFilter

namespace Converter

variable {c : Converter} {source : String} {tree : TypedExpr} {roles : List String}

/-- The policy is on, and the tree has a field that these roles may not use. -/
def Restricts (c : Converter) (tree : TypedExpr) (roles : List String) : Prop :=
  c.policy.isEnabled = true
    ∧ ∃ field, tree.RefersTo field ∧ c.policy.isAuthorized field roles = false

/-- The look at the roles stops a tree exactly if the policy restricts it, whatever field is found
first. -/
theorem restricted?_ne_none_iff :
    c.restricted? tree (some roles) ≠ none ↔ c.Restricts tree roles := by
  unfold Restricts
  by_cases henabled : c.policy.isEnabled = true
  · rw [restricted?_of_isEnabled henabled, Ne, Option.map_eq_none_iff,
      Policy.firstUnauthorized?_eq_none_iff]
    simp [henabled]
  · have hdisabled : c.policy.isEnabled = false := by simpa using henabled
    simp [restricted?_of_disabled hdisabled, hdisabled]

/-- A converted source is admitted, whatever the roles were. -/
theorem admits_of_run {roles : Option (List String)} {conversion : Conversion}
    (h : (c.run source roles).result = .ok conversion) :
    ∃ tree, c.Admits source tree ∧ c.restricted? tree roles = none := by
  obtain ⟨tree, hadmits, hrestricted, -, -⟩ := run_eq_ok_iff.mp h
  exact ⟨tree, hadmits, hrestricted⟩

end Converter

namespace Command

variable {c : Converter} {expr : String} {conversion : Conversion} {roles more : List String}

/-! ## Conversions for a caller -/

theorem convertFor_nil : convertFor c expr [] = c.convert expr := rfl

theorem convertFor_of_ne_nil (hroles : roles ≠ []) :
    convertFor c expr roles = c.convertWithRoles expr roles := by
  rw [convertFor, if_neg (by simpa using hroles)]

/-- More roles convert to the same, if there were roles before. -/
theorem convertFor_mono (hroles : roles ≠ []) (hmore : roles ⊆ more)
    (h : convertFor c expr roles = .ok conversion) : convertFor c expr more = .ok conversion := by
  have hmoreRoles : more ≠ [] := List.ne_nil_of_mem (hmore (List.getLast_mem hroles))
  rw [convertFor_of_ne_nil hroles] at h
  obtain ⟨tree, hadmits, hrestricted⟩ := Converter.admits_of_run h
  -- what the fewer roles may use the more may use too
  have hfree := Converter.restricted?_mono hmore hrestricted
  rw [convertFor_of_ne_nil hmoreRoles, Converter.convertWithRoles,
    Converter.run_of_unrestricted hadmits hfree,
    ← Converter.run_of_unrestricted hadmits hrestricted]
  exact h

/-- The first roles keep a conversion, or they refuse it because of a field of its tree. -/
theorem convertFor_of_nil (hmore : more ≠ []) (h : convertFor c expr [] = .ok conversion) :
    ∃ tree, c.Admits expr tree
      ∧ (¬ c.Restricts tree more → convertFor c expr more = .ok conversion)
      ∧ (c.Restricts tree more → ∃ why, convertFor c expr more = .error why
          ∧ why.code? = some .unauthorizedField) := by
  rw [convertFor_nil] at h
  obtain ⟨tree, hadmits, -⟩ := Converter.admits_of_run h
  -- the tree is the same for all callers, so only the policy is left to be asked
  refine ⟨tree, hadmits, ?_, ?_⟩
  · intro hfree
    rw [← Converter.restricted?_ne_none_iff, Decidable.not_not] at hfree
    rw [convertFor_of_ne_nil hmore, Converter.convertWithRoles,
      Converter.run_of_unrestricted hadmits hfree]
    exact h
  · intro hrestricts
    rw [← Converter.restricted?_ne_none_iff] at hrestricts
    rw [convertFor_of_ne_nil hmore]
    exact Converter.failsWith_unauthorizedField_iff.mpr ⟨tree, hadmits, hrestricts⟩

/-! ## Commands -/

/-- The options of the same command for another caller. -/
def ConvertOptions.withRoles (options : ConvertOptions) (roles : List String) : ConvertOptions :=
  { options with roles := roles }

/-- The command shows a conversion, on the terminal or in a file. -/
def Effect.IsShown (effect : Effect) : Prop := ∀ why, effect ≠ .fail why

/-- What is printed is shown. -/
theorem Effect.isShown_print (text : String) : (Effect.print text).IsShown := fun _ h => by
  cases h

variable {contents : Option String} {config : Config}

/-- What is shown is the conversion of the converter that the settings make. -/
theorem exists_of_isShown {options : ConvertOptions} (h : (convert options contents).IsShown) :
    ∃ config converter conversion, loadConfig contents = .ok config
      ∧ Converter.ofConfig config = .ok converter
      ∧ convertFor converter options.expr options.roles = .ok conversion := by
  -- a step that fails makes the command fail
  unfold convert report at h
  rcases hload : loadConfig contents with why | config
  · simp only [hload] at h
    exact absurd rfl (h _)
  · simp only [hload] at h
    rcases hmade : Converter.ofConfig config with why | converter
    · simp only [hmade] at h
      exact absurd rfl (h _)
    · simp only [hmade] at h
      rcases hconverts : convertFor converter options.expr options.roles with why | conversion
      · simp only [hconverts] at h
        exact absurd rfl (h _)
      · exact ⟨config, converter, conversion, rfl, hmade, hconverts⟩

/-- A command goes by the outcome of its conversion and not by the roles themselves. -/
theorem convert_congr (options : ConvertOptions) (hload : loadConfig contents = .ok config)
    (hmade : Converter.ofConfig config = .ok c)
    (h : convertFor c options.expr roles = convertFor c options.expr more) :
    convert (options.withRoles roles) contents = convert (options.withRoles more) contents := by
  -- roles are read in one place, the conversion
  simp only [convert, report, ConvertOptions.withRoles, hload, hmade, h]
  rfl

/-- A refused conversion is what the command fails for. -/
theorem convert_of_error (options : ConvertOptions) {why : ConvertError}
    (hload : loadConfig contents = .ok config) (hmade : Converter.ofConfig config = .ok c)
    (h : convertFor c options.expr options.roles = .error why) :
    convert options contents = .fail (.convert why) := by
  simp only [convert, report, hload, hmade, h]

/-- **More roles show no less.** A command that shows a conversion does exactly the same for
more roles, unless it was given none before. From no role to some it does the same too, or it
fails for a restricted field, and this exactly if the policy of the settings is on and the tree
of the expression has a field that none of the new roles may use. -/
theorem convert_monotone (options : ConvertOptions) (contents : Option String)
    (more : List String) (hmore : options.roles ⊆ more)
    (hshown : (convert options contents).IsShown) :
    ((options.roles = [] → more = []) →
        convert (options.withRoles more) contents = convert options contents)
      ∧ (options.roles = [] → more ≠ [] →
          ∃ config converter tree, loadConfig contents = .ok config
            ∧ Converter.ofConfig config = .ok converter ∧ converter.Admits options.expr tree
            ∧ (¬ converter.Restricts tree more →
                convert (options.withRoles more) contents = convert options contents)
            ∧ (converter.Restricts tree more →
                ∃ why, convert (options.withRoles more) contents = .fail (.convert why)
                  ∧ why.code? = some .unauthorizedField)) := by
  -- what is shown has been converted, and whoever converts it to the same shows the same
  obtain ⟨config, converter, conversion, hload, hmade, hconverts⟩ := exists_of_isShown hshown
  have hsame : convertFor converter options.expr more = .ok conversion →
      convert (options.withRoles more) contents = convert options contents := fun h =>
    convert_congr options hload hmade (h.trans hconverts.symm)
  constructor
  · intro hnone
    apply hsame
    -- without roles before there are none now, and otherwise the policy is asked both times
    by_cases hroles : options.roles = []
    · rw [hnone hroles, ← hroles]
      exact hconverts
    · exact convertFor_mono hroles hmore hconverts
  · intro hroles hsome
    rw [hroles] at hconverts
    obtain ⟨tree, hadmits, hfree, hrestricted⟩ := convertFor_of_nil hsome hconverts
    refine ⟨config, converter, tree, hload, hmade, hadmits, fun h => hsame (hfree h), ?_⟩
    intro h
    obtain ⟨why, hwhy, hcode⟩ := hrestricted h
    exact ⟨why, convert_of_error (options.withRoles more) hload hmade hwhy, hcode⟩

/-- Settings with a field that is open to one role only. -/
def paySettings : String :=
  "\x7b\"fields\": [\x7b\"name\": \"pay\", \"type\": \"int\"\x7d], "
    ++ "\"field_acl\": \x7b\"pay\": [\"hr\"]\x7d\x7d"

/-- A filter by the pay, for a caller with roles. -/
def payOptions (roles : List String) : ConvertOptions :=
  ⟨"config.json", "pay > 1", roles, .postgres, false, none⟩

/-- Without roles nothing is refused, although the pay is open to one role only. -/
theorem convert_pay_without_roles :
    convert (payOptions []) (some paySettings) = .print "\"pay\" > $1\n[1]    1\n" := by
  decide +kernel

/-- The role that the pay is open to sees the same. -/
theorem convert_pay_hr :
    convert (payOptions ["hr"]) (some paySettings) = .print "\"pay\" > $1\n[1]    1\n" := by
  decide +kernel

/-- The filter by the pay is shown to the role that may use it, and then with a second role
too; the caller without roles sees it, and loses it with a role that may not. -/
theorem convert_monotone_pay :
    (payOptions ["hr"]).roles ⊆ ["guest", "hr"]
      ∧ (convert (payOptions ["hr"]) (some paySettings)).IsShown
      ∧ convert ((payOptions ["hr"]).withRoles ["guest", "hr"]) (some paySettings)
          = convert (payOptions ["hr"]) (some paySettings)
      ∧ (payOptions []).roles ⊆ ["guest"]
      ∧ (convert (payOptions []) (some paySettings)).IsShown
      ∧ ∃ why, convert ((payOptions []).withRoles ["guest"]) (some paySettings)
            = .fail (.convert why) ∧ why.code? = some .unauthorizedField := by
  have hmore : (payOptions ["hr"]).roles ⊆ ["guest", "hr"] := by decide
  have hshown : (convert (payOptions ["hr"]) (some paySettings)).IsShown := by
    rw [convert_pay_hr]
    exact Effect.isShown_print _
  have hfirst : (payOptions []).roles ⊆ ["guest"] := by decide
  have hfree : (convert (payOptions []) (some paySettings)).IsShown := by
    rw [convert_pay_without_roles]
    exact Effect.isShown_print _
  obtain ⟨hkeeps, -⟩ := convert_monotone _ _ _ hmore hshown
  obtain ⟨-, hturns⟩ := convert_monotone _ _ _ hfirst hfree
  obtain ⟨config, converter, tree, -, -, -, hsame, hrestricted⟩ := hturns rfl (by decide)
  refine ⟨hmore, hshown, hkeeps (fun h => by cases h), hfirst, hfree, hrestricted ?_⟩
  -- were the field open to guests, the command would have to show what it does not show
  refine Classical.byContradiction fun hopen => ?_
  exact absurd (hsame hopen) (by decide +kernel)

/-- **A first role can hide what was shown.** Without roles the filter by the pay is shown; a
caller who says that he is a guest is refused. -/
theorem first_role_hides_pay :
    (payOptions []).roles ⊆ ["guest"]
      ∧ convert (payOptions []) (some paySettings) = .print "\"pay\" > $1\n[1]    1\n"
      ∧ convert ((payOptions []).withRoles ["guest"]) (some paySettings)
          = .fail (.convert (.rejected (.restrictedField ["guest"] "pay"))) :=
  ⟨by decide, convert_pay_without_roles, by decide +kernel⟩

end Command

end RowFilter
