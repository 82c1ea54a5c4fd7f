/-
Comparing typed trees. Trees nest through lists, for which no comparison is derived;
the one here makes statements about the trees of given source texts decidable, so that
they are settled by evaluation.
-/
import RowFilter.Proofs.TypedExpr.Parts

set_option autoImplicit false

namespace RowFilter.TypedExpr

mutual

/-- Whether two trees are the same. -/
def same : TypedExpr → TypedExpr → Bool
  | .literal t v, .literal u w => t = u && v = w
  | .ident t a, .ident u b => t = u && a = b
  | .select t e a, .select u f b => t = u && same e f && a = b
  | .call t a es, .call u b fs => t = u && a = b && sameAll es fs
  | .method t e a es, .method u f b fs => t = u && same e f && a = b && sameAll es fs
  | .list t es, .list u fs => t = u && sameAll es fs
  | _, _ => false

/-- Whether two lists of trees are the same. -/
def sameAll : List TypedExpr → List TypedExpr → Bool
  | [], [] => true
  | e :: es, f :: fs => same e f && sameAll es fs
  | _, _ => false

end

/-- Lists are compared element by element. -/
theorem sameAll_iff {es fs : List TypedExpr}
    (h : ∀ e ∈ es, ∀ f, same e f = true ↔ e = f) : sameAll es fs = true ↔ es = fs := by
  induction es generalizing fs with
  | nil => rcases fs with _ | ⟨f, fs⟩ <;> simp [sameAll]
  | cons e es ih =>
      obtain ⟨he, hes⟩ := List.forall_mem_cons.mp h
      rcases fs with _ | ⟨f, fs⟩
      · simp [sameAll]
      · rw [sameAll, Bool.and_eq_true, he, ih hes, List.cons.injEq]

/-- Trees that are found to be the same are equal, and no others are. -/
theorem same_iff {e f : TypedExpr} : same e f = true ↔ e = f := by
  induction e using children_induction generalizing f with
  | step e ih =>
      -- each constructor is compared with itself, and with the others for their difference
      rcases e with ⟨t, v⟩ | ⟨t, a⟩ | ⟨t, e, a⟩ | ⟨t, a, es⟩ | ⟨t, e, a, es⟩ | ⟨t, es⟩
      · cases f <;> simp [same]
      · cases f <;> simp [same]
      · have he := @ih e (by simp [children])
        cases f <;> simp [same, he, and_assoc]
      · have hes := fun fs => @sameAll_iff es fs fun c hc f => @ih c hc f
        cases f <;> simp [same, hes, and_assoc]
      · have he := @ih e (by simp [children])
        have hes := fun fs =>
          @sameAll_iff es fs fun c hc f => @ih c (List.mem_cons_of_mem _ hc) f
        cases f <;> simp [same, he, hes, and_assoc]
      · have hes := fun fs => @sameAll_iff es fs fun c hc f => @ih c hc f
        cases f <;> simp [same, hes]

/-- Trees are compared node by node. -/
instance : DecidableEq TypedExpr := fun e f => decidable_of_iff (same e f = true) same_iff

end RowFilter.TypedExpr
