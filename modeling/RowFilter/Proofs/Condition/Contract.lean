/-
What a compiler of expressions owes to the conversion.

A typed tree from a compiler of one's own may apply functions to any number of arguments,
leave out receivers and carry any type at its root. Where that is noticed, the conversion
fails with a breach of contract, which is no fault of the source text. Here the contract is
written down: `KeepsContract` is what is asked of one node, and only the nodes that are
visited as conditions are asked. Trees that keep it are converted or rejected,
`settled_compile`.
-/
import RowFilter.Proofs.Condition.Columns

set_option autoImplicit false

namespace RowFilter.Condition

open Sql (Predicate)

/-! ## Settled results -/

/-- A success, or a rejection of the source text. What is left out is a breach of
contract. -/
inductive Settled {α : Type} : Except ConvertError α → Prop where
  | converted (a : α) : Settled (.ok a)
  | rejected (why : Rejection) : Settled (.error (.rejected why))

variable {α β : Type}

/-- What becomes of a success is no matter of being settled. -/
theorem Settled.map {r : Except ConvertError α} (h : Settled r) (f : α → β) :
    Settled (r.map f) := by
  cases h with
  | converted a => exact Settled.converted (f a)
  | rejected why => exact Settled.rejected why

/-- A rejection is no breach of contract. -/
theorem settled_rejecting (r : Except Rejection α) : Settled (rejecting r) := by
  rcases r with why | a
  · exact Settled.rejected why
  · exact Settled.converted a

/-! ## The contract -/

/-- What is asked of a node that is visited as a condition: as a literal it is a truth
value, as an application it has as many arguments as its form, and as a test on a string
it has a receiver. -/
structure KeepsContract (e : TypedExpr) : Prop where
  literal : ∀ value, e.literal? = some value → value.kind = .bool
  arity : ∀ (form : Form) arguments, e.Applies form.function arguments →
    arguments.length = form.arity
  receiver : ∀ which arguments, e.Applies (Form.test which).function arguments →
    ∃ r, e.receiver? = some r

variable {schema : Schema} {limits : Limits}

/-- Two conditions that are joined fail only where one of them does. -/
theorem settled_joined {left right : Told Predicate} (hleft : Settled left.result)
    (hright : Settled right.result) (combine : Predicate → Predicate → Predicate) :
    Settled (joined combine left right).result := by
  rw [joined, Told.andThen_result]
  rcases hresult : left.result with e | l
  · -- the left side fails, and the right one is not asked
    rw [hresult] at hleft
    cases hleft with
    | rejected why => exact Settled.rejected why
  · exact hright.map (combine l)

/-- An application that keeps the contract is as its form asks. -/
theorem KeepsContract.takes {e : TypedExpr} {form : Form} {arguments : List TypedExpr}
    (h : KeepsContract e) (happ : e.Applies form.function arguments) :
    form.Takes e.receiver? arguments where
  length_eq := h.arity form arguments happ
  receiver htest := by
    cases form with
    | test which => exact Option.isSome_iff_exists.mpr (h.receiver which arguments happ)
    | _ => cases htest

/-- **Who keeps the contract is not blamed for breaking it.** A tree whose conditions all
keep the contract is converted or rejected. -/
theorem settled_compile {e : TypedExpr} (h : ∀ n, Within n e → KeepsContract n) :
    Settled (compile schema limits e) := by
  induction e using TypedExpr.children_induction with
  | step e ih =>
      have hroot := h e (Within.root e)
      -- conditions inside an argument are conditions of the whole only below connectives
      have hargument : ∀ {form : Form} {arguments : List TypedExpr},
          form.isConnective = true → e.Applies form.function arguments →
            ∀ a ∈ arguments, Settled (compile schema limits a) :=
        fun hform happ a ha => ih a (happ.arguments_subset a ha) fun n hn =>
          h n (Within.argument _ hform happ ha hn)
      rw [compile]
      have hbuilds := builds schema limits e
      generalize build schema limits e = step at hbuilds ⊢
      cases hbuilds with
      | truth | field => exact Settled.converted _
      | selection | list | unsupported => exact Settled.rejected _
      | joined hform happ =>
          have hconditions := hargument (Form.of_combine? hform).1 happ
          exact settled_joined (hconditions _ (by simp)) (hconditions _ (by simp)) _
      | negation happ => exact (hargument rfl happ _ (by simp)).map _
      | comparison | membership | test => exact settled_rejecting _
      -- the two breaches are what the contract excludes
      | literal type hkind => exact absurd (hroot.literal _ rfl) hkind
      | breach happ htakes => exact absurd (hroot.takes happ) htakes

/-- Without the contract a breach is found, below a connective as well as at the root. -/
example :
    compile ⟨[]⟩ Limits.default
        (.call .bool "!_" [.call .bool "startsWith" [.ident .string "name"]])
      = .error (.contract (.missingReceiver "startsWith")) := rfl

end RowFilter.Condition
