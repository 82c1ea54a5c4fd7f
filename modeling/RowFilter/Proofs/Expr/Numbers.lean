/-
Literals denote numbers.

Among the doubles are some that are no numbers. Rounding gives none of these (`isNaN_ofDecimal`): a
decimal beyond the greatest double becomes infinity and nothing above it, and a sign leaves the
magnitude as it is. Tokens are the only source of values in an expression, so no literal of a
parsed expression holds such a double, wherever it stands (`allDenotable_of_parse`). It may well
hold an infinite one.
-/
import RowFilter.Proofs.Double.Sign
import RowFilter.Proofs.Expr.Inherited
import RowFilter.Proofs.Typing.Elaboration

set_option autoImplicit false

namespace RowFilter

/-! ## Literals -/

/-- The double of a numeral is a number. -/
theorem Numeral.isNaN_of_double? {text : List Char} {d : Double} (h : double? text = some d) :
    d.isNaN = false := by
  unfold double? at h
  dsimp only at h
  split at h
  · obtain rfl := Option.some.inj h
    exact Double.isNaN_ofDecimal _ _ _
  · cases h

/-- A value that a literal can denote: if it is a double, it is a number. -/
def Value.Denotable (v : Value) : Prop := ∀ d, v = .float d → d.isNaN = false

namespace Expr

/-- All literals in the expression hold values that literals can denote. -/
def AllDenotable (e : Expr) : Prop :=
  ∀ info value, SubExpr (.literal info value) e → value.Denotable

/-- A literal is the only value in itself. -/
theorem allDenotable_literal {info : NodeInfo} {value : Value} (h : value.Denotable) :
    AllDenotable (.literal info value) := by
  intro _ _ hsub
  cases hsub with
  | root => exact h
  | inside hc _ => cases hc

/-- An identifier has no values. -/
theorem allDenotable_ident (info : NodeInfo) (name : String) : AllDenotable (.ident info name) := by
  intro _ _ hsub
  cases hsub with
  | inside hc _ => cases hc

/-- **Numbers.** No token gives a double that is not a number, nor does the sign in front of one. -/
theorem allDenotable_inherited : Inherited AllDenotable where
  token {rule span text e} h := by
    -- only doubles can fail to be numbers
    have hother : ∀ value : Value, value.kind ≠ .double → value.Denotable := by
      rintro value hkind d rfl
      exact absurd rfl hkind
    cases rule with
    | ident =>
        obtain rfl := Piece.operand.inj (Except.ok.inj h)
        exact allDenotable_ident _ _
    | litDouble =>
        obtain ⟨value, hvalue, rfl⟩ := exists_of_literalPiece h
        refine allDenotable_literal fun d hd => ?_
        obtain rfl := Value.float.inj hd
        exact Numeral.isNaN_of_double? hvalue
    | litNull | litBoolean =>
        obtain rfl := Piece.operand.inj (Except.ok.inj h)
        exact allDenotable_literal (hother _ (by simp [Value.kind]))
    | litInt | litUint =>
        obtain ⟨_, -, rfl⟩ := exists_of_literalPiece h
        exact allDenotable_literal (hother _ (by simp [Value.kind]))
    | litString | litBytes =>
        obtain ⟨_, rfl⟩ := exists_of_quotedPiece h
        exact allDenotable_literal (hother _ (by simp [Value.kind]))
    | _ => cases h
  signed {span tree e} h := by
    unfold negatedLiteral at h
    split at h
    · split at h
      · obtain rfl := Option.some.inj (Except.ok.inj h)
        refine allDenotable_literal ?_
        rintro d ⟨⟩
      · cases h
    · split at h
      · next value hvalue =>
          obtain rfl := Option.some.inj (Except.ok.inj h)
          refine allDenotable_literal fun d hd => ?_
          obtain rfl := Value.float.inj hd
          rw [Double.isNaN_negate, Numeral.isNaN_of_double? hvalue]
      · cases h
    · cases h
  node {e} hcomposite hchildren := by
    intro info value hsub
    generalize hn : Expr.literal info value = n at hsub
    -- a value within is the node itself or within one of its children, and a composite node is none
    cases hsub with
    | root =>
        have hliteral := hcomposite.literal?_eq
        rw [← hn] at hliteral
        cases hliteral
    | inside hc hsub =>
        subst hn
        exact hchildren _ hc info value hsub

/-- **Literals of parsed expressions hold numbers**, where they hold doubles. -/
theorem allDenotable_of_parse {source : String} {e : Expr} (h : Expr.parse source = .ok e) :
    AllDenotable e :=
  allDenotable_inherited.of_parse h

end Expr

end RowFilter
