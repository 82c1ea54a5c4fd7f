/-
Dotted names.

A dotted name is read as a name with fields behind it, one for every dot, and the chain of
selections that it becomes spells the whole name again. Each selection is a level of the tree, and
the tree has a bound: a name of more segments than that is refused, however well it is formed. Both
ends are reached by the same induction on the fields (`suffixes_selects`).
-/
import RowFilter.Proofs.Expr.Roundtrip

set_option autoImplicit false

namespace RowFilter.Expr

open Grammar
open Brackets.Context (special)
open Grammar.Phrase (Takes Fails Repeats)

variable {name field : String} {fields : List String} {e : Expr}

/-- A name with fields behind it. -/
def dotted (name : String) (fields : List String) : String :=
  fields.foldl (fun name field => name ++ "." ++ field) name

/-- The fields as they are written, each behind a dot. -/
def selections (fields : List String) : List Char := fields.flatMap fun field => '.' :: field.toList

/-- A dotted name is its first segment and then selections. -/
theorem toList_dotted (name : String) (fields : List String) :
    (dotted name fields).toList = name.toList ++ selections fields := by
  induction fields generalizing name with
  | nil => exact (List.append_nil _).symm
  | cons field fields ih =>
      rw [dotted, List.foldl_cons, ← dotted, ih, String.toList_append, String.toList_append,
        selections, selections, List.flatMap_cons, List.append_assoc, List.append_assoc]
      rfl

/-! ## What selections make of a name -/

/-- What reading a name of so many segments gives: an expression that spells it, with a level for
each segment, or the error that these are too many. -/
inductive ReadsName (name : String) (segments : Nat) : Except ParseError Expr → Prop
  | spelled {e : Expr} (hname : e.qualifiedName? = some name) (hdepth : e.depth = segments)
      (hfew : segments ≤ maxTreeDepth) : ReadsName name segments (.ok e)
  | tooDeep {err : ParseError} (hcause : err.cause = .tooDeep maxTreeDepth)
      (hmany : maxTreeDepth < segments) : ReadsName name segments (.error err)

/-- What is read as a name is not too deep. -/
theorem bounded_readsName (name : String) (segments : Nat) : Bounded (ReadsName name segments) := by
  rintro e ⟨-, rfl, hfew⟩
  exact hfew

/-- The trees are selections of the fields, one each. -/
def Selects : List String → List Tree → Prop
  | [], ts => ts = []
  | field :: fields, ts =>
    ∃ t more, ts = t :: more ∧ meaning t = .ok (.selection field) ∧ Selects fields more

/-- A level for every selection, as long as there are levels. -/
theorem suffixes_selects {ts : List Tree} (hts : Selects fields ts)
    (hname : e.qualifiedName? = some name) (hdepth : e.depth ≤ maxTreeDepth) :
    ReadsName (dotted name fields) (e.depth + fields.length) (suffixes e (meanings ts)) := by
  induction fields generalizing ts e name with
  | nil =>
      obtain rfl := hts
      exact .spelled hname rfl hdepth
  | cons field fields ih =>
      obtain ⟨t, more, rfl, ht, hmore⟩ := hts
      have hselected : (selectAt (e.span.merge t.span) e field).depth = e.depth + 1 := by
        show 1 + max e.depth 0 = e.depth + 1
        omega
      rw [meanings, suffixes, suffixed_field ht, List.length_cons]
      by_cases hroom : e.depth + 1 ≤ maxTreeDepth
      · have hspelled : (selectAt (e.span.merge t.span) e field).qualifiedName?
            = some (name ++ "." ++ field) := by
          rw [selectAt, qualifiedName?, hname, Option.map_some]
        have hread := ih hmore hspelled (by rw [hselected]; exact hroom)
        rw [hselected] at hread
        rw [bounded_eq (by rw [hselected]; exact hroom)]
        rwa [Nat.add_comm fields.length 1, ← Nat.add_assoc]
      · -- every level is taken, so this field is refused and the others are not looked at
        rw [bounded, if_pos (by rw [hselected]; omega)]
        exact .tooDeep rfl (by omega)

/-! ## Reading a dotted name -/

/-- A name ends in front of a dot, and where nothing follows. -/
theorem ended_selections (fields : List String) : Ended (selections fields) := by
  cases fields with
  | nil => rintro c ⟨⟩
  | cons field fields => exact ended_dot _

/-- No layout stands in front of a dot. -/
theorem unlaid_selections (fields : List String) :
    unlaid (selections fields) = selections fields := by
  cases fields with
  | nil => rfl
  | cons field fields => exact unlaid_of_rejects rfl _

/-- No selection begins with a bracket. -/
theorem fails_bracket_selections (fields : List String) :
    Fails (Phrase.mark '(') (unlaid (selections fields)) := by
  rw [unlaid_selections]
  cases fields with
  | nil => exact Phrase.fails_nil rfl
  | cons field fields => exact Phrase.fails_of_rejects rfl _

/-- Fields behind dots are read one by one. -/
theorem repeats_selections (h : ∀ field ∈ fields, IsName field.toList) :
    ∃ P, Repeats suffix (selections fields) [] P ∧ ∀ ts, P ts → Selects fields ts := by
  induction fields with
  | nil => exact ⟨_, .done (Phrase.fails_nil rfl), fun _ => id⟩
  | cons field fields ih =>
      obtain ⟨P, hmore, hP⟩ := ih fun f hf => h f (List.mem_cons_of_mem _ hf)
      have hfield := takes_field (h field List.mem_cons_self) (ended_selections fields)
        (fails_bracket_selections fields)
      rw [unlaid_selections] at hfield
      refine ⟨_, .more hfield hmore, fun ts hts => ?_⟩
      obtain ⟨_, more, rfl, ⟨t, rfl, ht⟩, hmore⟩ := hts
      exact ⟨t, more, rfl, ht, hP more hmore⟩

/-- A name with fields behind it is a member, or too deep. -/
theorem takes_dotted (hname : IsName name.toList)
    (hfields : ∀ field ∈ fields, IsName field.toList) :
    Takes Phrase.member (name.toList ++ selections fields) []
      (Gives (ReadsName (dotted name fields) (1 + fields.length))) := by
  have hprimary := takes_primary_name hname (ended_selections fields)
    (fails_bracket_selections fields)
  rw [unlaid_selections] at hprimary
  obtain ⟨P, hmore, hP⟩ := repeats_selections hfields
  refine (hprimary.seq (hmore.takes_many rfl (unlaid_selections fields))).rule fun span ts hts => ?_
  obtain ⟨_, more, rfl, ⟨place, rfl⟩, hmore⟩ := hts
  -- the selections are applied to the identifier, in their order
  have hsuffixes := suffixes_selects (e := identAt place name) (hP more hmore) rfl
    (by decide : 1 ≤ maxTreeDepth)
  refine ⟨_, suffixes (identAt place name) (meanings more), rfl,
    (by decide : Rule.member ∉ operatorRules), ?_, hsuffixes⟩
  rw [List.singleton_append, meaning, meanings, ofNode, memberOf,
    part_expr (meaning_ident place name)]

/-- **A dotted name is parsed as itself**, or it has too many segments. -/
theorem parse_dotted (hname : IsName name.toList)
    (hfields : ∀ field ∈ fields, IsName field.toList) :
    ReadsName (dotted name fields) (1 + fields.length) (Expr.parse (dotted name fields)) := by
  have hopens := (opens_name hname).append (selections fields)
  have hplain : ∀ {n : String}, IsName n.toList → ∀ c ∈ n.toList, c ∉ special := fun h =>
    Pattern.not_mem_of_avoids rfl h
  -- names and dots open nothing, so the scan lets them pass
  have hscan : Brackets.scan (name.toList ++ selections fields) = .ok () := by
    refine scan_of_plain fun c hc => ?_
    rcases List.mem_append.mp hc with hc | hc
    · exact hplain hname c hc
    · obtain ⟨field, hfield, hc⟩ := List.mem_flatMap.mp hc
      rcases List.mem_cons.mp hc with rfl | hc
      · decide
      · exact hplain (hfields field hfield) c hc
  have hunary := takes_unary_gives hopens.fails_front hopens.unlaid_eq (takes_dotted hname hfields)
  have hparse := parse_of_takes (bounded_readsName _ _) hopens.settled hscan hunary
  rwa [← toList_dotted, String.ofList_toList] at hparse

end RowFilter.Expr
