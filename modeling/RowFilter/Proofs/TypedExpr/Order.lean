/-
The order in which a tree names fields.

A path leads from the root of a tree to a node: at each step it tells to which of the parts to go
on. Compared as words are in a dictionary, paths stand in the order of a walk that comes to a node
before its parts and to a part before the next one. The walk that collects the names of a tree goes
in this order (`exists_walk`), and of every name it keeps the first place. So what it returns is in
the order in which names first appear (`pairwise_referencedFields`), and the first field that the
policy finds is the one that appears before all others the roles may not use.
-/
import Mathlib.Data.List.Basic
import RowFilter.Policy
import RowFilter.Proofs.TypedExpr.Parts

set_option autoImplicit false

namespace RowFilter.TypedExpr

variable {es : List TypedExpr} {name : String}

/-! ## Paths -/

/-- The node that a path leads to. -/
def node? : TypedExpr → List Nat → Option TypedExpr
  | e, [] => some e
  | e, i :: path =>
    match e.children[i]? with
    | some c => c.node? path
    | none => none

/-- The field that the node at a path names. -/
def nameAt? (e : TypedExpr) (path : List Nat) : Option String := (e.node? path).bind fieldRef?

theorem nameAt?_nil (e : TypedExpr) : e.nameAt? [] = e.fieldRef? := rfl

/-- Further down stands what stands below the child on the way. -/
theorem nameAt?_cons_eq_some_iff {e : TypedExpr} {i : Nat} {path : List Nat} :
    e.nameAt? (i :: path) = some name ↔
      ∃ c, e.children[i]? = some c ∧ c.nameAt? path = some name := by
  rw [nameAt?, node?]
  rcases e.children[i]? with _ | c
  · exact iff_of_false (by rintro ⟨⟩) (by rintro ⟨_, ⟨⟩, _⟩)
  · constructor
    · exact fun h => ⟨c, rfl, h⟩
    · rintro ⟨_, ⟨⟩, h⟩
      exact h

/-- A walk over some places, each with a path and the name that is found there, in the order of the
paths. The places are those of which `Named` holds. -/
structure Walk (Named : List Nat → String → Prop) (places : List (List Nat × String)) : Prop where
  sorted : places.Pairwise fun a b => a.1 < b.1
  mem_iff : ∀ path name, (path, name) ∈ places ↔ Named path name

/-- The name is found in one of the trees, which stand behind `first` others. -/
def NamedFrom (first : Nat) (es : List TypedExpr) (path : List Nat) (name : String) : Prop :=
  ∃ i c below, path = (first + i) :: below ∧ es[i]? = some c ∧ c.nameAt? below = some name

/-- The same places, a level further down. -/
theorem walk_below {Named : List Nat → String → Prop} {places : List (List Nat × String)} (i : Nat)
    (h : Walk Named places) :
    Walk (fun path name => ∃ below, path = i :: below ∧ Named below name)
      (places.map fun p => (i :: p.1, p.2)) where
  sorted := List.pairwise_map.mpr <|
    h.sorted.imp fun hlt => List.cons_lt_cons_iff.mpr (.inr ⟨rfl, hlt⟩)
  mem_iff path name := by
    rw [List.mem_map]
    -- the number of the child comes in front of every path below it
    constructor
    · rintro ⟨⟨below, name'⟩, hmem, hpair⟩
      obtain ⟨rfl, rfl⟩ := Prod.mk.inj hpair
      exact ⟨below, rfl, (h.mem_iff below name').mp hmem⟩
    · rintro ⟨below, rfl, hnamed⟩
      exact ⟨(below, name), (h.mem_iff below name).mpr hnamed, rfl⟩

/-- One place after the other, if the first walk ends before the second one begins. -/
theorem Walk.append {Named Named' : List Nat → String → Prop}
    {places places' : List (List Nat × String)} (h : Walk Named places) (h' : Walk Named' places')
    (hbefore : ∀ path name path' name', Named path name → Named' path' name' → path < path') :
    Walk (fun path name => Named path name ∨ Named' path name) (places ++ places') where
  sorted := by
    refine List.pairwise_append.mpr ⟨h.sorted, h'.sorted, ?_⟩
    rintro ⟨path, name⟩ hmem ⟨path', name'⟩ hmem'
    exact hbefore _ _ _ _ ((h.mem_iff path name).mp hmem) ((h'.mem_iff path' name').mp hmem')
  mem_iff path name := by rw [List.mem_append, h.mem_iff, h'.mem_iff]

/-- A walk is the same for names that are the same. -/
theorem Walk.congr {Named Named' : List Nat → String → Prop} {places : List (List Nat × String)}
    (h : Walk Named places) (hnamed : ∀ path name, Named path name ↔ Named' path name) :
    Walk Named' places :=
  ⟨h.sorted, fun path name => (h.mem_iff path name).trans (hnamed path name)⟩

/-- A walk over each of some trees makes a walk over all of them. -/
theorem exists_walkFrom (h : ∀ c ∈ es, ∃ places,
      Walk (fun path name => c.nameAt? path = some name) places
        ∧ places.map Prod.snd = c.mentions) (first : Nat) :
    ∃ places, Walk (NamedFrom first es) places
      ∧ places.map Prod.snd = es.flatMap mentions := by
  induction es generalizing first with
  | nil =>
      refine ⟨[], ⟨.nil, fun path name => iff_of_false (List.not_mem_nil) ?_⟩, rfl⟩
      rintro ⟨i, c, below, -, hc, -⟩
      cases hc
  | cons c rest ih =>
      obtain ⟨hc, hrest⟩ := List.forall_mem_cons.mp h
      obtain ⟨places, hwalk, hplaces⟩ := hc
      obtain ⟨others, hothers, hmore⟩ := ih hrest (first + 1)
      refine ⟨_, ((walk_below first hwalk).append hothers ?_).congr ?_, ?_⟩
      · -- all of a tree comes before all of the next one
        rintro path name path' name' ⟨below, rfl, -⟩ ⟨i, c', below', rfl, -⟩
        exact List.cons_lt_cons_iff.mpr (.inl (by omega))
      · intro path name
        constructor
        · rintro (⟨below, rfl, hname⟩ | ⟨i, c', below, rfl, hc', hname⟩)
          · exact ⟨0, c, below, rfl, rfl, hname⟩
          · exact ⟨i + 1, c', below, by rw [Nat.add_assoc, Nat.add_comm 1], hc', hname⟩
        · rintro ⟨i, c', below, rfl, hc', hname⟩
          cases i with
          | zero =>
              obtain rfl := Option.some.inj hc'
              exact .inl ⟨below, rfl, hname⟩
          | succ i =>
              exact .inr ⟨i, c', below, by rw [Nat.add_assoc, Nat.add_comm 1], hc', hname⟩
      · rw [List.map_append, List.map_map, hmore, List.flatMap_cons, ← hplaces]
        rfl

/-- **Names are collected in the order of paths.** There is a walk over all places with a name, and
the names on it are those that are collected. -/
theorem exists_walk (e : TypedExpr) : ∃ places,
    Walk (fun path name => e.nameAt? path = some name) places
      ∧ places.map Prod.snd = e.mentions := by
  induction e using children_induction with
  | step e ih =>
      obtain ⟨places, hwalk, hplaces⟩ := exists_walkFrom ih 0
      have hroot : Walk (fun path name => path = [] ∧ e.fieldRef? = some name)
          (e.fieldRef?.toList.map fun name => ([], name)) := by
        rcases e.fieldRef? with _ | own
        · exact ⟨.nil, by simp⟩
        · exact ⟨List.pairwise_singleton _ _, fun path name => by simp [eq_comm]⟩
      refine ⟨_, (hroot.append hwalk ?_).congr ?_, ?_⟩
      · -- the root comes before all that is below it
        rintro _ name _ name' ⟨rfl, -⟩ ⟨i, c, below, rfl, -⟩
        exact List.nil_lt_cons _ _
      · intro path name
        cases path with
        | nil =>
            rw [nameAt?_nil]
            constructor
            · rintro (⟨-, h⟩ | ⟨_, _, _, ⟨⟩, _⟩)
              exact h
            · exact fun h => .inl ⟨rfl, h⟩
        | cons i path =>
            rw [nameAt?_cons_eq_some_iff]
            constructor
            · rintro (⟨⟨⟩, -⟩ | ⟨j, c, below, hpath, hc, hname⟩)
              obtain ⟨rfl, rfl⟩ := List.cons.inj hpath
              rw [Nat.zero_add]
              exact ⟨c, hc, hname⟩
            · rintro ⟨c, hc, hname⟩
              exact .inr ⟨i, c, path, by rw [Nat.zero_add], hc, hname⟩
      · rw [List.map_append, List.map_map, hplaces, mentions_eq]
        exact congrArg (· ++ _) (List.map_id _)

/-! ## First occurrences -/

/-- No name is kept twice. -/
theorem nodup_firstOccurrences (names : List String) : (firstOccurrences names).Nodup := by
  induction names with
  | nil =>
      rw [firstOccurrences]
      exact List.nodup_nil
  | cons s rest ih =>
      rw [firstOccurrences, List.nodup_cons]
      exact ⟨by simp, ih.filter _⟩

/-- On a walk, a name that is kept before another one stands at a place before all places of the
other one. -/
theorem Walk.pairwise_firstOccurrences {Named : List Nat → String → Prop}
    {places : List (List Nat × String)} (h : Walk Named places) :
    (firstOccurrences (places.map Prod.snd)).Pairwise fun a b =>
      ∃ path, Named path a ∧ ∀ path', Named path' b → path < path' := by
  simp only [← h.mem_iff]
  have hsorted := h.sorted
  clear h
  induction places with
  | nil => exact .nil
  | cons place rest ih =>
      obtain ⟨path, name⟩ := place
      obtain ⟨hhead, hrest⟩ := List.pairwise_cons.mp hsorted
      -- where another name stands, the first place is not
      have hlater : ∀ {path' other}, other ≠ name →
          (path', other) ∈ (path, name) :: rest → (path', other) ∈ rest := by
        intro path' other hother hmem
        rcases List.mem_cons.mp hmem with hpair | hmem
        · exact absurd (Prod.mk.inj hpair).2 hother
        · exact hmem
      rw [List.map_cons, firstOccurrences, List.pairwise_cons]
      constructor
      · intro other hother
        have hne : other ≠ name := by simpa using (List.mem_filter.mp hother).2
        exact ⟨path, List.mem_cons_self, fun path' hmem => hhead _ (hlater hne hmem)⟩
      · refine ((ih hrest).filter _).imp_of_mem fun _ hother hbefore => ?_
        have hne := of_decide_eq_true (List.mem_filter.mp hother).2
        obtain ⟨path', hmem, hfirst⟩ := hbefore
        refine ⟨path', List.mem_cons_of_mem _ hmem, fun path'' hmem' => ?_⟩
        exact hfirst path'' (hlater hne hmem')

/-- **Fields are in the order of their first places.** -/
theorem pairwise_referencedFields (e : TypedExpr) :
    e.referencedFields.Pairwise fun a b =>
      ∃ path, e.nameAt? path = some a ∧ ∀ path', e.nameAt? path' = some b → path < path' := by
  obtain ⟨places, hwalk, hplaces⟩ := exists_walk e
  rw [referencedFields, ← hplaces]
  exact hwalk.pairwise_firstOccurrences

/-- Identifiers and selections name fields, and nothing else does. -/
theorem fieldRef?_eq_some_iff {n : TypedExpr} :
    n.fieldRef? = some name ↔
      (∃ type, n = .ident type name) ∨ ∃ type operand, n = .select type operand name := by
  cases n <;> simp [fieldRef?]

/-- **The fields of a tree, exactly.** No name is listed twice. A name is listed if and only if
somewhere in the tree there is an identifier with this name or a selection of it. What is listed
first appears first: it stands at a path before all paths to the other name. And the first field
that some roles may not use is the first one on this list, if there is any. -/
theorem referencedFields_exact (e : TypedExpr) :
    e.referencedFields.Nodup
      ∧ (∀ name, name ∈ e.referencedFields ↔ ∃ n, Part n e ∧
          ((∃ type, n = .ident type name) ∨ ∃ type operand, n = .select type operand name))
      ∧ (e.referencedFields.Pairwise fun a b =>
          ∃ path, e.nameAt? path = some a ∧ ∀ path', e.nameAt? path' = some b → path < path')
      ∧ ∀ (p : Policy) (roles : List String),
          (∀ field, p.firstUnauthorized? e roles = some field ↔
            ∃ before after, e.referencedFields = before ++ field :: after
              ∧ (∀ other ∈ before, p.isAuthorized other roles = true)
              ∧ p.isAuthorized field roles = false)
          ∧ (p.firstUnauthorized? e roles = none ↔
            ∀ field ∈ e.referencedFields, p.isAuthorized field roles = true) := by
  -- three facts about the list, and what a search through it finds
  refine ⟨nodup_firstOccurrences _, fun name => ?_, pairwise_referencedFields e,
    fun p roles => ⟨fun field => ?_, ?_⟩⟩
  · simp only [mem_referencedFields, RefersTo, fieldRef?_eq_some_iff]
  · rw [Policy.firstUnauthorized?, List.find?_eq_some_iff_append]
    constructor
    · rintro ⟨hdenied, before, after, hlist, hbefore⟩
      exact ⟨before, after, hlist, by simpa using hbefore, by simpa using hdenied⟩
    · rintro ⟨before, after, hlist, hbefore, hdenied⟩
      exact ⟨by simpa using hdenied, before, after, hlist, by simpa using hbefore⟩
  · rw [Policy.firstUnauthorized?, List.find?_eq_none]
    simp only [Bool.not_eq_true', Bool.not_eq_false]

/-- The text in a literal is no name, and a selection comes before the map that it selects from. -/
example : referencedFields (.call .bool "_&&_"
    [.call .bool "_==_" [.ident .string "status", .literal .string (.string "salary")],
     .method .bool (.select .string (.ident (.map .string .string) "labels") "team") "contains"
       [.literal .string (.string "x")]]) = ["status", "team", "labels"] := by decide

end RowFilter.TypedExpr
