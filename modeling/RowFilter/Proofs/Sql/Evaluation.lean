/-
What a condition says of a row, in the three truth values of SQL.

A row has a value in every column, `null` where it has none. A comparison that meets
`null` is neither true nor false but unknown, and the connectives carry this along. How
two values that are there compare is left open: everything is stated for an arbitrary
relation `related op` of each comparison `op`, so it holds of the one a database uses.

The third truth value is read here as a choice that has not been made. `Truth.Allows`
says which of the two classical values a truth value leaves possible, and the
connectives on truth values are the classical ones on what is possible, choice by
choice.
-/
import RowFilter.Proofs.Sql.LikePattern
import RowFilter.Sql.Predicate

set_option autoImplicit false

namespace RowFilter.Sql

/-! ## Truth values -/

inductive Truth where
  | holds
  | fails
  | unknown
  deriving DecidableEq, Repr

namespace Truth

def ofBool : Bool → Truth
  | true => .holds
  | false => .fails

def and : Truth → Truth → Truth
  | .fails, _ => .fails
  | .holds, t => t
  | .unknown, .fails => .fails
  | .unknown, _ => .unknown

def or : Truth → Truth → Truth
  | .holds, _ => .holds
  | .fails, t => t
  | .unknown, .holds => .holds
  | .unknown, _ => .unknown

def not : Truth → Truth
  | .holds => .fails
  | .fails => .holds
  | .unknown => .unknown

/-- The classical values that a truth value leaves possible. -/
def Allows (t : Truth) (b : Bool) : Prop := t = .unknown ∨ t = ofBool b

instance (t : Truth) (b : Bool) : Decidable (t.Allows b) :=
  inferInstanceAs (Decidable (t = .unknown ∨ t = ofBool b))

/-- What is known leaves one value possible. -/
theorem allows_ofBool {a b : Bool} : (ofBool a).Allows b ↔ b = a := by
  rcases a with _ | _ <;> rcases b with _ | _ <;> decide

/-- What is unknown leaves both possible. -/
theorem allows_unknown (b : Bool) : unknown.Allows b := Or.inl rfl

/-- A conjunction may come out as the conjunction of what its parts may come out as. -/
theorem allows_and {t u : Truth} {b : Bool} :
    (t.and u).Allows b ↔ ∃ a c, t.Allows a ∧ u.Allows c ∧ b = (a && c) := by
  rcases t with _ | _ | _ <;> rcases u with _ | _ | _ <;> rcases b with _ | _ <;> decide

theorem allows_or {t u : Truth} {b : Bool} :
    (t.or u).Allows b ↔ ∃ a c, t.Allows a ∧ u.Allows c ∧ b = (a || c) := by
  rcases t with _ | _ | _ <;> rcases u with _ | _ | _ <;> rcases b with _ | _ <;> decide

theorem allows_not {t : Truth} {b : Bool} :
    t.not.Allows b ↔ ∃ a, t.Allows a ∧ b = !a := by
  rcases t with _ | _ | _ <;> rcases b with _ | _ <;> decide

/-! ### Known truth values -/

/-- Known truth values are closed under the connectives. -/
theorem ofBool_and (a b : Bool) : (ofBool a).and (ofBool b) = ofBool (a && b) := by
  rcases a with _ | _ <;> rfl

/-- On what is known the disjunction is the usual one. -/
theorem ofBool_or (a b : Bool) : (ofBool a).or (ofBool b) = ofBool (a || b) := by
  rcases a with _ | _ <;> rfl

theorem ofBool_not (a : Bool) : (ofBool a).not = ofBool (!a) := by
  rcases a with _ | _ <;> rfl

end Truth

/-! ## Leaves -/

/-- A row: the value in every column. -/
abbrev Row := String → Value

/-- How values compare. -/
abbrev Relations := CompareOp → Value → Value → Bool

variable (related : Relations)

/-- A comparison; with `null` it is unknown. -/
def compareTruth (op : CompareOp) (left right : Value) : Truth :=
  if left = .null ∨ right = .null then .unknown else .ofBool (related op left right)

/-- A membership is a disjunction of equalities. -/
def memberTruth (value : Value) (values : List Value) : Truth :=
  values.foldr (fun v t => (compareTruth related .eq value v).or t) .fails

/-- A text held against a pattern; `null` is neither matched nor not. No value of
another kind matches, where a database has one to compare at all. -/
def likeTruth (value : Value) (pattern : String) : Truth :=
  match value with
  | .null => .unknown
  | .string text => .ofBool (LikePattern.matchesText pattern text)
  | _ => .fails

/-! ## Conditions -/

/-- The truth value of a condition on a row. -/
def Predicate.eval (row : Row) : Predicate → Truth
  | .compare column op value => compareTruth related op (row column) value
  | .nullCheck column isNull => .ofBool ((row column).isNull == isNull)
  | .and left right => (left.eval row).and (right.eval row)
  | .or left right => (left.eval row).or (right.eval row)
  | .not inner => (inner.eval row).not
  | .like column pattern => likeTruth (row column) pattern
  | .isIn column values => memberTruth related (row column) values
  | .constant value => .ofBool value
  | .never => .fails

variable {related}

/-! ### With and without `null` -/

/-- A missing value compares to nothing. -/
theorem compareTruth_null (op : CompareOp) (v : Value) :
    compareTruth related op .null v = .unknown := if_pos (Or.inl rfl)

/-- Values that are there are compared. -/
theorem compareTruth_of_ne {op : CompareOp} {value v : Value} (hvalue : value ≠ .null)
    (hv : v ≠ .null) : compareTruth related op value v = .ofBool (related op value v) :=
  if_neg (fun h => h.elim hvalue hv)

/-- Whether `null` is one of some values is unknown, unless there are none. -/
theorem memberTruth_null {values : List Value} (hne : values ≠ []) :
    memberTruth related .null values = .unknown := by
  induction values with
  | nil => exact absurd rfl hne
  | cons v rest ih =>
      rw [memberTruth, List.foldr_cons, compareTruth_null]
      -- with nothing after it the last equality alone decides, and it is unknown
      rcases rest with _ | ⟨w, rest⟩
      · rfl
      · have hrest := ih (by simp)
        rw [memberTruth] at hrest
        rw [hrest]
        rfl

/-- A value is one of some values if it equals one of them. -/
theorem memberTruth_of_ne {value : Value} {values : List Value} (hvalue : value ≠ .null)
    (hvalues : ∀ v ∈ values, v ≠ .null) :
    memberTruth related value values = .ofBool (values.any (related .eq value)) := by
  induction values with
  | nil => rfl
  | cons v rest ih =>
      obtain ⟨hv, hrest⟩ := List.forall_mem_cons.mp hvalues
      have htail := ih hrest
      rw [memberTruth] at htail
      rw [memberTruth, List.foldr_cons, htail, compareTruth_of_ne hvalue hv,
        Truth.ofBool_or, List.any_cons]

/-- The pattern of a test, held against a value that is there. -/
theorem likeTruth_pattern_of_ne {value : Value} (hvalue : value ≠ .null) (test : StringTest)
    (sought : String) :
    ∃ b, likeTruth value (test.pattern sought) = .ofBool b
      ∧ (b = true ↔ ∃ text, value = .string text ∧ test.Holds sought text) := by
  rcases value with v | v | v | text | v | v | _
  case string =>
    refine ⟨LikePattern.matchesText (test.pattern sought) text, rfl, ?_⟩
    rw [StringTest.matchesText_pattern_iff]
    simp
  case null => exact absurd rfl hvalue
  all_goals exact ⟨false, rfl, by simp⟩

end RowFilter.Sql
