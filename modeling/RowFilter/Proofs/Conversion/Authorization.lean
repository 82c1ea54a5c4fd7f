/-
Authorization of conversions.

The policy looks at every name in a tree and the condition takes its columns from
some of them, each by a recursion of its own. Soundness is that the first covers the
second: no column gets into a condition past the policy. The other half is that a
single name the roles may not use, wherever it stands and whether or not a column
comes of it, refuses the whole expression.

Both halves are about a policy that names some field. One that names none is
switched off and lets everything pass, although `isAuthorized` by itself says no to
every field of it.
-/
import RowFilter.Proofs.Condition.Columns
import RowFilter.Proofs.Conversion.Pipeline

set_option autoImplicit false

namespace RowFilter

open TypedExpr (Part)

/-! ## The first name that is not authorized -/

namespace Policy

variable {p : Policy} {e : TypedExpr} {roles : List String}

/-- Nothing is found exactly if every name in the tree is authorized. -/
theorem firstUnauthorized?_eq_none_iff :
    p.firstUnauthorized? e roles = none ↔
      ∀ field, e.RefersTo field → p.isAuthorized field roles = true := by
  rw [firstUnauthorized?, List.find?_eq_none]
  constructor
  · intro h field hfield
    simpa using h field (TypedExpr.mem_referencedFields.mpr hfield)
  · intro h field hfield
    simpa using h field (TypedExpr.mem_referencedFields.mp hfield)

/-- A name that is not authorized leads to one that is found. -/
theorem exists_firstUnauthorized? {field : String} (hfield : e.RefersTo field)
    (hdenied : p.isAuthorized field roles = false) :
    ∃ found, p.firstUnauthorized? e roles = some found := by
  rw [← Option.isSome_iff_exists, Option.isSome_iff_ne_none]
  -- had nothing been found, every name in the tree would be authorized
  intro hnone
  have hallowed := firstUnauthorized?_eq_none_iff.mp hnone field hfield
  rw [hdenied] at hallowed
  exact absurd hallowed (by decide)

end Policy

namespace Converter

variable {c : Converter} {roles : List String}

/-- With an enabled policy, restricted fields are those found by the policy. -/
theorem restricted?_of_isEnabled {tree : TypedExpr} (henabled : c.policy.isEnabled = true) :
    c.restricted? tree (some roles)
      = (c.policy.firstUnauthorized? tree roles).map fun f => (roles, f) := by
  simp only [restricted?, henabled, if_true]

/-- **Authorization is sound.** Under an enabled policy, every column of a conversion
is the one behind a name in the tree that the roles may use; and an admitted source
with a name in its tree that the roles may not use, in whatever position, is refused
with the code for this, so no condition comes of it. -/
theorem convertWithRoles_authorized (c : Converter) (source : String) (roles : List String)
    (henabled : c.policy.isEnabled = true) :
    (∀ conversion, c.convertWithRoles source roles = .ok conversion →
      ∃ tree, c.compiler.compile source = .ok tree ∧
        ∀ column ∈ conversion.predicate.columns, ∃ field, tree.RefersTo field
          ∧ c.policy.isAuthorized field roles = true ∧ column = c.schema.resolveColumn field)
    ∧ ∀ tree field, c.Admits source tree → tree.RefersTo field →
        c.policy.isAuthorized field roles = false →
        ∃ e, c.convertWithRoles source roles = .error e
          ∧ e.code? = some .unauthorizedField := by
  constructor
  · intro conversion h
    obtain ⟨tree, hadmits, hrestricted, hcompile, -⟩ := run_eq_ok_iff.mp h
    refine ⟨tree, hadmits.compiles, ?_⟩
    intro column hcolumn
    obtain ⟨field, hfield, hresolved⟩ :=
      (Condition.derives_of_compile hcompile).refersTo_of_mem_columns hcolumn
    -- the conversion went on, so the policy has found nothing in the whole tree
    rw [restricted?_of_isEnabled henabled, Option.map_eq_none_iff] at hrestricted
    exact ⟨field, hfield, Policy.firstUnauthorized?_eq_none_iff.mp hrestricted field hfield,
      hresolved⟩
  · intro tree field hadmits hfield hdenied
    -- which name is found does not matter, one is enough
    obtain ⟨found, hfound⟩ := Policy.exists_firstUnauthorized? hfield hdenied
    have hrestricted : c.restricted? tree (some roles) = some (roles, found) := by
      rw [restricted?_of_isEnabled henabled, hfound, Option.map_some]
    exact ⟨_, run_of_restricted hadmits hrestricted, rfl⟩

/-- A filter by a public field and by the pay. The pay is only sought in an empty
list, so no column comes of it. -/
def payFilter : TypedExpr :=
  .call .bool "_&&_"
    [.call .bool "_==_" [.ident .string "status", .ofValue (.string "active")],
     .call .bool "@in" [.ident .int "pay", .list (.list .int) []]]

/-- A converter whose only tree is `payFilter`; the pay is open to one role. -/
def payConverter : Converter :=
  withCompiler
    { Config.empty with
      fields := [⟨"status", .string, some "state"⟩, ⟨"pay", .int, none⟩]
      publicFields := ["status"]
      fieldAcl := [("pay", ["hr"])] }
    (.custom fun _ => .ok payFilter)

/-- The role converts the filter and its one column is authorized; without the role
the operand of the empty list is enough for a refusal. -/
theorem convertWithRoles_authorized_pay :
    payConverter.policy.isEnabled = true
    ∧ payConverter.convertWithRoles "" ["hr"]
        = .ok ⟨.and (.compare "state" .eq (.string "active")) .never, 3⟩
    ∧ (∃ tree, payConverter.compiler.compile "" = .ok tree ∧
        ∀ column ∈ ["state"], ∃ field, tree.RefersTo field
          ∧ payConverter.policy.isAuthorized field ["hr"] = true
          ∧ column = payConverter.schema.resolveColumn field)
    ∧ payFilter.RefersTo "pay" ∧ payConverter.policy.isAuthorized "pay" [] = false
    ∧ ∃ e, payConverter.convertWithRoles "" [] = .error e
        ∧ e.code? = some .unauthorizedField := by
  have henabled : payConverter.policy.isEnabled = true := rfl
  -- the empty list becomes a condition without a column
  have hconverts : payConverter.convertWithRoles "" ["hr"]
      = .ok ⟨.and (.compare "state" .eq (.string "active")) .never, 3⟩ := rfl
  have hadmits : payConverter.Admits "" payFilter :=
    ⟨by decide, rfl, rfl, by decide⟩
  have hrefers : payFilter.RefersTo "pay" := TypedExpr.mem_mentions.mp (by decide)
  have hdenied : payConverter.policy.isAuthorized "pay" [] = false := rfl
  obtain ⟨hcolumns, -⟩ := convertWithRoles_authorized payConverter "" ["hr"] henabled
  obtain ⟨-, hrefused⟩ := convertWithRoles_authorized payConverter "" [] henabled
  exact ⟨henabled, hconverts, hcolumns _ hconverts, hrefers, hdenied,
    hrefused payFilter "pay" hadmits hrefers hdenied⟩

end Converter

end RowFilter
