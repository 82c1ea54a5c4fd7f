/-
Nodes know how deep they are.

Every node of an expression carries a depth, so that the bound on depths costs one comparison per
node. `height` counts the levels of an expression without looking at what its nodes carry, and in
what is parsed the two agree at every node (`measured_of_parse`): the functions that make nodes take
the depth from those of the children. None of the nodes is deeper than the bound, although inside a
balanced chain it is not asked for.
-/
import RowFilter.Proofs.Expr.Inherited
import RowFilter.Proofs.Typing.Elaboration

set_option autoImplicit false

namespace RowFilter.Expr

/-! ## Levels, counted -/

mutual

/-- The levels of an expression, leaves having one. -/
def height : Expr → Nat
  | .literal _ _ => 1
  | .ident _ _ => 1
  | .select _ operand _ => 1 + operand.height
  | .binary _ _ left right => 1 + max left.height right.height
  | .unary _ _ operand => 1 + operand.height
  | .call _ _ arguments => 1 + highest arguments
  | .method _ receiver _ arguments => 1 + max receiver.height (highest arguments)
  | .list _ elements => 1 + highest elements

/-- The levels of the highest of some expressions, zero for none. -/
def highest : List Expr → Nat
  | [] => 0
  | e :: rest => max e.height (highest rest)

end

/-- An expression is one level higher than its parts. -/
theorem height_eq (e : Expr) : e.height = 1 + highest e.children := by
  cases e <;> simp [height, children, highest]

/-- The highest of some expressions, as a fold over their heights. -/
theorem highest_eq (es : List Expr) : highest es = (es.map height).foldr max 0 := by
  induction es with
  | nil => rfl
  | cons e rest ih => rw [highest, ih, List.map_cons, List.foldr_cons]

/-- No expression of a list is higher than the highest. -/
theorem height_le_highest {c : Expr} {es : List Expr} (hc : c ∈ es) : c.height ≤ highest es := by
  rw [highest_eq]
  exact List.le_max_of_le (List.mem_map_of_mem hc) (Nat.le_refl c.height)

/-- A bound for each is a bound for the highest. -/
theorem highest_le {es : List Expr} {m : Nat} (h : ∀ e ∈ es, e.height ≤ m) : highest es ≤ m := by
  rw [highest_eq]
  refine List.max_le_of_forall_le _ m fun n hn => ?_
  obtain ⟨e, he, rfl⟩ := List.mem_map.mp hn
  exact h e he

/-- The depth over expressions that know how deep they are. -/
theorem depthOver_eq {es : List Expr} (h : ∀ e ∈ es, e.depth = e.height) :
    depthOver es = 1 + highest es := by
  rw [depthOver, highest_eq, List.map_congr_left h]

/-! ## What is parsed -/

/-- Every node in the expression carries its height, which is within the bound. -/
def Measured (e : Expr) : Prop := ∀ n, SubExpr n e → n.depth = n.height ∧ n.depth ≤ maxTreeDepth

/-- The root is one of the nodes. -/
theorem Measured.root {e : Expr} (h : Measured e) : e.depth = e.height ∧ e.depth ≤ maxTreeDepth :=
  h e (SubExpr.root e)

/-- A node over measured ones needs only be measured itself. -/
theorem measured_of_children {e : Expr} (he : e.depth = e.height ∧ e.depth ≤ maxTreeDepth)
    (h : ∀ c ∈ e.children, Measured c) : Measured e := by
  intro n hn
  -- a node of the tree is the root or a node of one of the parts
  cases hn with
  | root => exact he
  | inside hc hn => exact h _ hc n hn

/-- A literal is made with the depth of a leaf, which is its height. -/
theorem measured_literalAt (span : Span) (value : Value) : Measured (literalAt span value) := by
  refine measured_of_children ⟨by simp [literalAt, depth, info, height], ?_⟩ ?_
  · show 1 ≤ maxTreeDepth
    decide
  · intro c hc
    cases hc

theorem measured_identAt (span : Span) (name : String) : Measured (identAt span name) := by
  refine measured_of_children ⟨by simp [identAt, depth, info, height], ?_⟩ ?_
  · show 1 ≤ maxTreeDepth
    decide
  · intro c hc
    cases hc

/-- Whatever the parser makes of measured expressions is measured: it computes the depth of a node
from what its parts carry, and refuses what is too deep. -/
theorem measured_inherited : Inherited Measured where
  token h := by
    rcases leaf_of_ofToken h with ⟨value, rfl⟩ | ⟨name, rfl⟩
    · exact measured_literalAt _ value
    · exact measured_identAt _ name
  signed h := by
    obtain ⟨value, rfl⟩ := literal_of_negatedLiteral h
    exact measured_literalAt _ value
  node {e} hcomposite hchildren := by
    -- the parts carry their heights, so the fold over their depths is the height of the node
    have hdepth : e.depth = e.height := by
      rw [hcomposite.depth_eq, depthOver_eq fun c hc => (hchildren c hc).root.1, height_eq]
    exact measured_of_children ⟨hdepth, hcomposite.depth_le⟩ hchildren

/-- **Parsed expressions know how deep they are**, at every node, and none is too deep. -/
theorem measured_of_parse {source : String} {e : Expr} (h : Expr.parse source = .ok e) :
    Measured e :=
  measured_inherited.of_parse h

end RowFilter.Expr
