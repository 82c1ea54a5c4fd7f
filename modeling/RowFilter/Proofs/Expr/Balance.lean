/-
Chains of `&&` and `||` as trees.

A chain of terms can be put in brackets in many ways, and for an associative operation each of them
gives the value of the chain from left to right (`Bracketing.fold_eq_foldl`). `balance` chooses
brackets that halve the chain at every level. Which brackets these are depends on the number of
terms only: `halved` is the choice for a chain of anything, it commutes with a change of what stands
at the terms (`halved_map`), and `balance` joins the expressions of a chain by it
(`balance_eq_fold`). So everything there is to say of the tree is said of brackets over positions.
Their height is the logarithm of the number of terms, rounded up: the left half has the odd term,
and the numbers of terms in the halves go down like the rounded halves in `Nat.clog`.
-/
import Mathlib.Data.List.FinRange
import Mathlib.Data.List.MinMax
import Mathlib.Data.Nat.Log
import Mathlib.Order.Nat
import RowFilter.Expr.OfTree
import RowFilter.Proofs.Sql.Evaluation

set_option autoImplicit false

namespace RowFilter

/-! ## Brackets -/

/-- A chain in brackets, down to pairs. -/
inductive Bracketing (α : Type) where
  | term (a : α)
  | join (left right : Bracketing α)
  deriving Repr

namespace Bracketing

variable {α β : Type}

/-- The terms from left to right. -/
def terms : Bracketing α → List α
  | .term a => [a]
  | .join left right => left.terms ++ right.terms

/-- The number of joins. -/
def joins : Bracketing α → Nat
  | .term _ => 0
  | .join left right => left.joins + right.joins + 1

/-- The levels of joins above the deepest term. -/
def height : Bracketing α → Nat
  | .term _ => 0
  | .join left right => 1 + max left.height right.height

/-- The same brackets over something else. -/
def map (f : α → β) : Bracketing α → Bracketing β
  | .term a => .term (f a)
  | .join left right => .join (left.map f) (right.map f)

/-- What the joins make of the terms. -/
def fold (f : α → α → α) : Bracketing α → α
  | .term a => a
  | .join left right => f (left.fold f) (right.fold f)

/-- A join takes two and leaves one. -/
theorem joins_add_one (b : Bracketing α) : b.joins + 1 = b.terms.length := by
  induction b with
  | term a => rfl
  | join left right ihl ihr =>
      rw [joins, terms, List.length_append]
      omega

/-- A bracketing of images has the images as its terms. -/
theorem terms_map (f : α → β) (b : Bracketing α) : (b.map f).terms = b.terms.map f := by
  induction b with
  | term a => rfl
  | join left right ihl ihr => rw [map, terms, ihl, ihr, terms, List.map_append]

/-- There is always a first term. -/
theorem exists_terms_eq (b : Bracketing α) : ∃ first rest, b.terms = first :: rest := by
  apply List.exists_cons_of_length_pos
  rw [← joins_add_one]
  omega

/-- **Brackets do not matter to an associative operation.** -/
theorem fold_eq_foldl {f : α → α → α} (hassoc : ∀ x y z, f (f x y) z = f x (f y z))
    {b : Bracketing α} {first : α} {rest : List α} (h : b.terms = first :: rest) :
    b.fold f = rest.foldl f first := by
  have : Std.Associative f := ⟨hassoc⟩
  induction b generalizing first rest with
  | term a =>
      obtain ⟨rfl, rfl⟩ := List.cons.inj h
      rfl
  | join left right ihl ihr =>
      obtain ⟨a, as, hleft⟩ := left.exists_terms_eq
      obtain ⟨c, cs, hright⟩ := right.exists_terms_eq
      rw [terms, hleft, hright, List.cons_append] at h
      obtain ⟨rfl, rfl⟩ := List.cons.inj h
      -- the right half is folded onto its own first term, and associativity moves that to the left
      calc (join left right).fold f
          = f (as.foldl f a) (cs.foldl f c) := by rw [fold, ihl hleft, ihr hright]
        _ = cs.foldl f (f (as.foldl f a) c) := by rw [List.foldl_assoc]
        _ = (as ++ c :: cs).foldl f a := by rw [List.foldl_append, List.foldl_cons]

/-! ### Halving -/

/-- Brackets that halve a chain at every level. The left half has the odd term. -/
def halved (first : α) (rest : List α) : Bracketing α :=
  match h : rest.drop (rest.length / 2) with
  | [] => .term first
  | second :: more => .join (halved first (rest.take (rest.length / 2))) (halved second more)
termination_by rest.length
decreasing_by
  all_goals
    have := congrArg List.length h
    simp only [List.length_drop, List.length_cons, List.length_take] at this ⊢
    omega

theorem halved_nil (first : α) : halved first [] = .term first := by
  rw [halved]
  split
  · rfl
  · next second more h => simp at h

/-- A second half without terms is that of an empty rest. -/
theorem eq_nil_of_drop {rest : List α} (h : rest.drop (rest.length / 2) = []) : rest = [] := by
  rw [List.drop_eq_nil_iff] at h
  apply List.length_eq_zero_iff.mp
  omega

/-- The rest is cut in its middle, and the second half begins with a term of its own. -/
theorem halved_cons {first second : α} {rest more : List α}
    (h : rest.drop (rest.length / 2) = second :: more) :
    halved first rest
      = .join (halved first (rest.take (rest.length / 2))) (halved second more) := by
  rw [halved]
  split
  · next hnil => rw [hnil] at h; cases h
  · next second' more' hcons =>
      obtain ⟨rfl, rfl⟩ := List.cons.inj (h.symm.trans hcons)
      rfl

/-- Cutting in halves keeps the terms and their order. -/
theorem terms_halved (first : α) (rest : List α) : (halved first rest).terms = first :: rest := by
  induction first, rest using halved.induct with
  | case1 first rest h =>
      rw [eq_nil_of_drop h, halved_nil, terms]
  | case2 first rest second more h ihl ihr =>
      rw [halved_cons h, terms, ihl, ihr, List.cons_append, ← h, List.take_append_drop]

/-- Brackets depend on the number of terms only. -/
theorem halved_map (f : α → β) (first : α) (rest : List α) :
    halved (f first) (rest.map f) = (halved first rest).map f := by
  induction first, rest using halved.induct with
  | case1 first rest h => rw [eq_nil_of_drop h, List.map_nil, halved_nil, halved_nil, map]
  | case2 first rest second more h ihl ihr =>
      have hmap : (rest.map f).drop ((rest.map f).length / 2) = f second :: more.map f := by
        rw [List.length_map, ← List.map_drop, h, List.map_cons]
      rw [halved_cons h, halved_cons hmap, map, ← ihl, ← ihr, List.length_map, List.map_take]

/-- **Halving is logarithmic.** -/
theorem height_halved (first : α) (rest : List α) :
    (halved first rest).height = Nat.clog 2 (rest.length + 1) := by
  induction first, rest using halved.induct with
  | case1 first rest h =>
      rw [eq_nil_of_drop h, halved_nil, height, List.length_nil, Nat.clog_one_right]
  | case2 first rest second more h ihl ihr =>
      have hlength := congrArg List.length h
      rw [List.length_drop, List.length_cons] at hlength
      have hleft : (rest.take (rest.length / 2)).length = rest.length / 2 := by
        rw [List.length_take]
        omega
      -- the left half is at least as long, so it is the higher one
      have hmono : Nat.clog 2 (more.length + 1) ≤ Nat.clog 2 (rest.length / 2 + 1) :=
        Nat.clog_mono_right 2 (by omega)
      have hhalf : (rest.length + 1 + 2 - 1) / 2 = rest.length / 2 + 1 := by omega
      rw [halved_cons h, height, ihl, ihr, hleft, Nat.max_eq_left hmono,
        Nat.clog_of_two_le (by omega) (by omega : 2 ≤ rest.length + 1), hhalf, Nat.add_comm]

end Bracketing

namespace Expr

/-! ## Expressions in brackets -/

/-- Two expressions joined, at the span that reaches over both. -/
def joined (operator : BinaryOperator) (left right : Expr) : Expr :=
  binaryAt (left.span.merge right.span) operator left right

/-- A join is one level above the deeper of its halves. -/
theorem depth_joined (operator : BinaryOperator) (left right : Expr) :
    (joined operator left right).depth = 1 + max left.depth right.depth := by
  show 1 + max left.depth (max right.depth 0) = _
  rw [Nat.max_zero]

/-- A balanced chain is the chain in brackets that halve it. -/
theorem balance_eq_fold (operator : BinaryOperator) (first : Expr) (rest : List Expr) :
    balance operator first rest = (Bracketing.halved first rest).fold (joined operator) := by
  induction first, rest using Bracketing.halved.induct with
  | case1 first rest h =>
      rw [Bracketing.eq_nil_of_drop h, Bracketing.halved_nil, balance]
      rfl
  | case2 first rest second more h ihl ihr =>
      rw [Bracketing.halved_cons h, Bracketing.fold, ← ihl, ← ihr, balance]
      split
      · next hnil => rw [hnil] at h; cases h
      · next second' more' hcons =>
          obtain ⟨rfl, rfl⟩ := List.cons.inj (h.symm.trans hcons)
          rfl

variable {operator : BinaryOperator} {m : Nat}

/-- Brackets add their height to the depth of the deepest term, at most. -/
theorem depth_fold_le {b : Bracketing Expr} (h : ∀ t ∈ b.terms, t.depth ≤ m) :
    (b.fold (joined operator)).depth ≤ m + b.height := by
  induction b with
  | term e => exact h e List.mem_cons_self
  | join left right ihl ihr =>
      have hleft := ihl fun t ht => h t (List.mem_append_left _ ht)
      have hright := ihr fun t ht => h t (List.mem_append_right _ ht)
      rw [Bracketing.fold, depth_joined, Bracketing.height]
      omega

/-- Over terms of one depth they add it exactly. -/
theorem depth_fold_eq {b : Bracketing Expr} (h : ∀ t ∈ b.terms, t.depth = m) :
    (b.fold (joined operator)).depth = m + b.height := by
  induction b with
  | term e => exact h e List.mem_cons_self
  | join left right ihl ihr =>
      have hleft := ihl fun t ht => h t (List.mem_append_left _ ht)
      have hright := ihr fun t ht => h t (List.mem_append_right _ ht)
      rw [Bracketing.fold, depth_joined, Bracketing.height]
      omega

end Expr

/-! ## Connectives -/

/-- The operators whose chains are balanced. -/
inductive Connective where
  | and
  | or
  deriving DecidableEq, Repr

namespace Connective

open Sql (Truth)

def operator : Connective → BinaryOperator
  | .and => .and
  | .or => .or

/-- What a connective makes of truth values, of which one is neither true nor false. -/
def apply : Connective → Truth → Truth → Truth
  | .and => Truth.and
  | .or => Truth.or

/-- The connectives of three-valued logic are associative. -/
theorem apply_assoc (c : Connective) (t u v : Truth) :
    c.apply (c.apply t u) v = c.apply t (c.apply u v) := by
  cases c <;> cases t <;> cases u <;> cases v <;> rfl

end Connective

namespace Expr

open Sql (Truth)

/-- **Balanced chains keep their terms and stay shallow.** The tree of a chain is the chain in
brackets, over the positions of its terms in their order and with one node less than terms, all of
the operator of the chain. It is deeper than its deepest term by the logarithm of the number of
terms at most, and by just this if the terms are equally deep. Whatever truth values the terms
have, it has the value of the chain from left to right. -/
theorem balance_balanced (c : Connective) (first : Expr) (rest : List Expr) :
    (∃ b : Bracketing (Fin (rest.length + 1)),
        b.terms = List.finRange (rest.length + 1)
          ∧ b.joins = rest.length
          ∧ balance c.operator first rest
            = (b.map fun i => (first :: rest)[i]).fold (joined c.operator)
          ∧ ∀ values : Fin (rest.length + 1) → Truth,
            (b.map values).fold c.apply
              = (List.ofFn fun i => values (Fin.succ i)).foldl c.apply (values 0))
      ∧ (balance c.operator first rest).depth
        ≤ ((first :: rest).map depth).foldr max 0 + Nat.clog 2 (rest.length + 1)
      ∧ ((∀ t ∈ rest, t.depth = first.depth) →
        (balance c.operator first rest).depth
          = first.depth + Nat.clog 2 (rest.length + 1)) := by
  refine ⟨?_, ?_, fun hdepth => ?_⟩
  · let b : Bracketing (Fin (rest.length + 1)) :=
      Bracketing.halved 0 ((List.finRange rest.length).map Fin.succ)
    have hterms : b.terms = List.finRange (rest.length + 1) := by
      rw [Bracketing.terms_halved, List.finRange_succ]
    refine ⟨b, hterms, ?_, ?_, fun values => ?_⟩
    · have hjoins := b.joins_add_one
      rw [hterms, List.length_finRange] at hjoins
      omega
    · -- the terms of the chain in the order of their positions
      have hrest : ((List.finRange rest.length).map Fin.succ).map (fun i => (first :: rest)[i])
          = rest := by
        rw [List.map_map]
        exact List.map_getElem_finRange rest
      have hmap := Bracketing.halved_map (fun i : Fin (rest.length + 1) => (first :: rest)[i]) 0
        ((List.finRange rest.length).map Fin.succ)
      rw [hrest] at hmap
      rw [← hmap, balance_eq_fold]
      rfl
    · refine Bracketing.fold_eq_foldl c.apply_assoc ?_
      rw [Bracketing.terms_map, hterms, ← List.ofFn_eq_map]
      exact List.ofFn_succ
  · rw [balance_eq_fold, ← Bracketing.height_halved first rest]
    refine depth_fold_le fun t ht => List.le_max_of_le (List.mem_map_of_mem ?_) (Nat.le_refl t.depth)
    rw [Bracketing.terms_halved] at ht
    exact ht
  · rw [balance_eq_fold, ← Bracketing.height_halved first rest]
    refine depth_fold_eq fun t ht => ?_
    rw [Bracketing.terms_halved] at ht
    rcases List.mem_cons.mp ht with rfl | ht
    · rfl
    · exact hdepth t ht

/-- The names after the first one in a chain of five. -/
def moreNames : List Expr :=
  ["b", "c", "d", "e"].map (identAt default)

/-- A chain of five names is three levels deeper than a name. -/
theorem balance_balanced_names :
    (∀ t ∈ moreNames, t.depth = (identAt default "a").depth)
      ∧ (balance Connective.or.operator (identAt default "a") moreNames).depth = 4 := by
  have hdepth : ∀ t ∈ moreNames, t.depth = (identAt default "a").depth := by
    intro t ht
    obtain ⟨name, -, rfl⟩ := List.mem_map.mp ht
    rfl
  refine ⟨hdepth, ?_⟩
  calc (balance Connective.or.operator (identAt default "a") moreNames).depth
      = 1 + Nat.clog 2 5 := (balance_balanced .or (identAt default "a") moreNames).2.2 hdepth
    _ = 4 := by decide

end Expr

end RowFilter
