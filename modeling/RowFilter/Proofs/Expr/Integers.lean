/-
Integers denote exactly their value, or are refused.

A numeral stands by itself, behind minus signs with blanks around them, or in front of a suffix. A
numeral behind signs is one operand: the signs are one run of equal operators, so an even number of
them is gone and an odd number is one sign, which joins the numeral (`fronted_signs`). The bounds
differ on the two sides: the smallest integer has no positive counterpart, and is reached
through its sign only.
-/
import Mathlib.Algebra.Group.Nat.Even
import RowFilter.Proofs.Expr.Numerals
import RowFilter.Proofs.Expr.Spelling

set_option autoImplicit false

namespace RowFilter.Expr

open Grammar
open Grammar.Phrase (Takes Fails Joined Repeats takes_token fails_token)
open Numeral (Denotes isHexDigit)

/-! ## Signs -/

/-- A numeral behind minus signs, each with a gap behind it. -/
def signed (gaps : List (List Char)) (numeral : List Char) : List Char :=
  gaps.foldr (fun gap text => '-' :: (gap ++ text)) numeral

/-- The four blanks. -/
def blanks : List Char := [' ', '\t', '\r', '\n']

/-- Gaps of blanks, or nothing at all. -/
def Gaps (gaps : List (List Char)) : Prop := ∀ gap ∈ gaps, ∀ c ∈ gap, c ∈ blanks

variable {d text : List Char} {v : Nat} {gaps : List (List Char)}

theorem unlaid_blanks {gap : List Char} (hgap : ∀ c ∈ gap, c ∈ blanks)
    (hsettled : (Pattern.alt blank comment).split? text = none) : unlaid (gap ++ text) = text := by
  have hlayout : layout.split? (gap ++ text) = some (gap, text) := by
    -- a blank at a time
    induction gap with
    | nil => exact Pattern.split?_many_of_none hsettled
    | cons c gap ih =>
        have hblank : (Pattern.alt blank comment).split? (c :: (gap ++ text))
            = some ([c], gap ++ text) := by
          have hc := hgap c List.mem_cons_self
          simp only [blanks, List.mem_cons, List.not_mem_nil, or_false] at hc
          rcases hc with rfl | rfl | rfl | rfl <;> rfl
        exact Pattern.split?_many_of_some rfl hblank
          (ih fun c hc => hgap c (List.mem_cons_of_mem _ hc))
  rw [unlaid, hlayout]
  rfl

/-- Signs are read one by one, up to the numeral. -/
theorem repeats_signs (hd : Opens d) (hgaps : Gaps gaps) :
    (Pattern.alt blank comment).split? (signed gaps d) = none
      ∧ ∃ P, Repeats Phrase.frontOperator (signed gaps d) d P
        ∧ ∀ ts, P ts → ts.length = gaps.length ∧ ∀ t ∈ ts, t.rule = .opNeg := by
  -- one more sign stands in front, with its gap
  induction gaps with
  | nil => exact ⟨hd.settled, _, .done hd.fails_front, by rintro _ rfl; simp⟩
  | cons gap gaps ih =>
      obtain ⟨hsettled, P, hrepeats, hP⟩ := ih fun g hg => hgaps g (List.mem_cons_of_mem _ hg)
      have hfront := takes_front .negate (gap ++ signed gaps d)
      rw [unlaid_blanks (hgaps gap List.mem_cons_self) hsettled] at hfront
      refine ⟨Pattern.split?_of_rejects rfl _, _, .more hfront hrepeats, ?_⟩
      rintro _ ⟨_, more, rfl, ⟨span, rfl⟩, hmore⟩
      obtain ⟨hlength, hrules⟩ := hP more hmore
      refine ⟨by simp [hlength], fun t ht => ?_⟩
      rcases List.mem_cons.mp ht with rfl | ht
      · rfl
      · exact hrules t ht

/-- Signs alone are one run. -/
theorem runs_replicate (operator : UnaryOperator) (n : Nat) :
    runs (List.replicate (n + 1) operator) = [(operator, n + 1)] := by
  induction n with
  | zero => rfl
  | succ n ih =>
      rw [List.replicate_succ, runs, ih]
      exact if_pos rfl

/-- The operators in front of the operand are its minus signs. -/
theorem frontOperators_signs {signs : List Part} (hsigns : ∀ p ∈ signs, p.tree.rule = .opNeg)
    {operand : Part} (hoperand : operand.isOperand = true) :
    frontOperators (signs ++ [operand]) = List.replicate signs.length .negate := by
  induction signs with
  | nil =>
      -- the operand itself is no operator in front of anything
      simp only [Part.isOperand, decide_not, Bool.and_eq_true, Bool.not_eq_true',
        decide_eq_false_iff_not] at hoperand
      rw [List.nil_append, frontOperators, List.filterMap_cons_none]
      · rfl
      · split
        · next h => exact absurd h hoperand.1
        · next h => exact absurd h hoperand.2
        · rfl
  | cons p signs ih =>
      have hp := hsigns p List.mem_cons_self
      have hrest := ih fun p hp => hsigns p (List.mem_cons_of_mem _ hp)
      rw [frontOperators] at hrest ⊢
      rw [List.cons_append, List.filterMap_cons_some (b := .negate), hrest, List.length_cons,
        List.replicate_succ]
      rw [hp]

/-- Signs in front of a number: an even number of them is gone, an odd number is one sign, which
joins the number. -/
theorem fronted_signs {span : Span} {signs : List Part}
    (hsigns : ∀ p ∈ signs, p.tree.rule = .opNeg) {operand : Part}
    (hoperand : operand.isOperand = true) {negated : Except ParseError Expr}
    (hnegated : negatedLiteral span operand.tree = negated.map some) :
    fronted span (signs ++ [operand])
      = if signs.length % 2 = 1 then negated else operand.expr := by
  have hlast : ((signs ++ [operand]).filter Part.isOperand).getLast? = some operand := by
    rw [List.filter_append, List.filter_cons_of_pos hoperand, List.filter_nil,
      List.getLast?_concat]
  rw [fronted, hlast, frontOperators_signs hsigns hoperand, List.reverse_replicate]
  dsimp only
  -- without a sign the operand is left as it is
  rcases hlength : signs.length with _ | n
  · rw [List.replicate_zero, runs]
    dsimp only
    rcases operand.expr with err | e <;> rfl
  · rw [runs_replicate]
    dsimp only
    -- an odd run ends with the sign that belongs to the number, an even one cancels
    by_cases hodd : (n + 1) % 2 = 1
    · rw [if_pos hodd, if_pos hodd, hnegated]
      rcases negated with err | e <;> rfl
    · have hnone : uncancelled [(.negate, n + 1)] = [] := by
        rw [uncancelled, List.filterMap_cons_none]
        · rfl
        · exact if_neg hodd
      rw [if_neg hodd, if_neg hodd, hnone]
      rcases operand.expr with err | e <;> rfl

/-! ## Numerals as operands -/

theorem opens_denotes (h : Denotes d v) : Opens d := by
  obtain ⟨ds, rest, rfl, hdigits⟩ := exists_digits_denotes h nil_mem_numeralEnds
  exact (opens_digits hdigits).append rest

/-- A numeral is read as an integer of one of the two kinds where it ends. -/
theorem takes_numeral_end {tail behind : List Char} {P : List Tree → Prop} (h : Denotes d v)
    (htail : tail ∈ numeralEnds)
    (htakes : Takes (.alt (.token .litUint uintLiteral) (.token .litInt intLiteral))
      (d ++ tail) behind P) : Takes Phrase.primary (d ++ tail) behind P := by
  have hdouble := (split?_denotes h htail).2
  obtain ⟨ds, rest, rfl, hdigits⟩ := exists_digits_denotes h htail
  rw [List.append_assoc] at htakes hdouble ⊢
  exact takes_literal_of_digits hdigits ((fails_token hdouble).alt htakes)

/-- A numeral is an integer token. -/
theorem takes_numeral (h : Denotes d v) {P : List Tree → Prop}
    (hP : ∀ span, P [.token .litInt span d]) : Takes Phrase.primary d [] P := by
  have hint := (split?_denotes h nil_mem_numeralEnds).1
  have htakes := takes_numeral_end h nil_mem_numeralEnds
    ((fails_token (not_uint_denotes h)).alt (takes_token hint hP))
  rwa [List.append_nil] at htakes

/-- A numeral with a suffix is an unsigned token. -/
theorem takes_suffixed (h : Denotes d v) {suffix : Char} (hsuffix : suffix ∈ ['u', 'U'])
    {P : List Tree → Prop} (hP : ∀ span, P [.token .litUint span (d ++ [suffix])]) :
    Takes Phrase.primary (d ++ [suffix]) [] P :=
  takes_numeral_end h (suffix_mem_numeralEnds hsuffix)
    (takes_token (uint_denotes h hsuffix) hP).alt

/-- Signs, blanks and digits neither open nor close a bracket or a literal. -/
theorem not_special_signed (h : Denotes d v) (hgaps : Gaps gaps) :
    ∀ c ∈ signed gaps d, c ∉ Brackets.Context.special := by
  induction gaps with
  | nil => exact h.not_mem rfl
  | cons gap gaps ih =>
      have hblanks : ∀ c ∈ blanks, c ∉ Brackets.Context.special := not_special_of_all rfl
      intro c hc
      rcases List.mem_cons.mp hc with rfl | hc
      · decide
      · rcases List.mem_append.mp hc with hc | hc
        · exact hblanks c (hgaps gap List.mem_cons_self c hc)
        · exact ih (fun g hg => hgaps g (List.mem_cons_of_mem _ hg)) c hc

/-! ## Answers -/

/-- The answer to a number: a literal of the value if it fits, and otherwise a refusal with the
cause. -/
def Decides (fits : Prop) (isValue : Value → Prop) (cause : ParseError.Cause)
    (result : Except ParseError Expr) : Prop :=
  ((∃ value, isValue value ∧ IsLiteral value result) ↔ fits)
    ∧ ((∃ err, result = .error err ∧ err.cause = cause) ↔ ¬ fits)

/-- The value is the integer, exactly. -/
def IsInt (n : Int) (value : Value) : Prop := ∃ i : Int64, value = .int i ∧ i.toInt = n

/-- The value is the unsigned integer, exactly. -/
def IsUint (n : Nat) (value : Value) : Prop := ∃ u : UInt64, value = .uint u ∧ u.toNat = n

variable {fits : Prop} {isValue : Value → Prop} {cause : ParseError.Cause}

/-- A number in range is decided by its literal. -/
theorem decides_literal {value : Value} (hfits : fits) (hvalue : isValue value) (span : Span) :
    Decides fits isValue cause (.ok (literalAt span value)) := by
  refine ⟨iff_of_true ⟨value, hvalue, span, rfl⟩ hfits, iff_of_false ?_ (not_not_intro hfits)⟩
  rintro ⟨_, ⟨⟩, -⟩

/-- One out of range is decided by the refusal. -/
theorem decides_fail (hfits : ¬ fits) (span : Span) :
    Decides fits isValue cause (fail span cause) := by
  refine ⟨iff_of_false ?_ hfits, iff_of_true ⟨_, rfl, rfl⟩ hfits⟩
  rintro ⟨_, -, _, ⟨⟩⟩

/-- What is decided is a literal, which is not too deep. -/
theorem bounded_decides : Bounded (Decides fits isValue cause) := by
  rintro e ⟨hliteral, hrefused⟩
  have hfits : fits := by
    by_contra hnot
    obtain ⟨_, ⟨⟩, -⟩ := hrefused.mpr hnot
  obtain ⟨value, -, span, ⟨⟩⟩ := hliteral.mpr hfits
  exact depth_literalAt_le span value

/-- A literal of what a numeral is read as, or a refusal. -/
def answer (span : Span) (text : String) : Option Int64 → Except ParseError Expr
  | some i => .ok (literalAt span (.int i))
  | none => fail span (.intRange text)

/-- An integer without a sign in front of it. -/
theorem meaning_litInt (span : Span) (d : List Char) : meaning (.token .litInt span d)
    = (answer span (String.ofList d) (Numeral.int? false d)).map Piece.operand := by
  rw [meaning, ofToken]
  rcases Numeral.int? false d with _ | i <;> rfl

/-- The integer that belongs to a minus sign. -/
theorem negatedLiteral_litInt (span place inner : Span) (d : List Char) :
    negatedLiteral span (.node .member place [.token .litInt inner d])
      = (answer span ("-" ++ String.ofList d) (Numeral.int? true d)).map some := by
  simp only [negatedLiteral, Tree.children]
  rcases Numeral.int? true d with _ | i <;> rfl

/-- **Integers.** Without a sign the greatest is `2 ^ 63 - 1`, with one it is `2 ^ 63`. -/
theorem decides_answer (h : Denotes d v) (span : Span) (text : String) :
    Decides (v ≤ 2 ^ 63 - 1) (IsInt v) (.intRange text)
        (answer span text (Numeral.int? false d))
      ∧ Decides (v ≤ 2 ^ 63) (IsInt (-v)) (.intRange text)
        (answer span text (Numeral.int? true d)) := by
  have hpow : Nat.pow 2 63 = 2 ^ 63 := rfl
  rw [h.int?_eq, h.int?_neg, hpow]
  constructor
  · by_cases hfits : v ≤ 2 ^ 63 - 1
    · rw [if_pos (by omega)]
      exact decides_literal hfits ⟨_, rfl, Int64.toInt_ofInt_of_le (by omega) (by omega)⟩ span
    · rw [if_neg (by omega)]
      exact decides_fail hfits span
  · -- the sign belongs to the number, so that there is a place for the least integer
    by_cases hfits : v ≤ 2 ^ 63
    · rw [if_pos hfits]
      exact decides_literal hfits ⟨_, rfl, Int64.toInt_ofInt_of_le (by omega) (by omega)⟩ span
    · rw [if_neg hfits]
      exact decides_fail hfits span

/-- **Unsigned integers.** The greatest is `2 ^ 64 - 1`. -/
theorem decides_uint (h : Denotes d v) {suffix : Char} (hsuffix : suffix ∈ ['u', 'U'])
    (span : Span) : ∃ result,
      meaning (.token .litUint span (d ++ [suffix])) = result.map Piece.operand
        ∧ Decides (v ≤ 2 ^ 64 - 1) (IsUint v) (.uintRange (String.ofList (d ++ [suffix])))
          result := by
  have hsize : UInt64.size = 2 ^ 64 := rfl
  rw [meaning, ofToken, h.uint?_eq hsuffix, hsize]
  by_cases hfits : v ≤ 2 ^ 64 - 1
  · rw [if_pos (by omega)]
    refine ⟨.ok (literalAt span (.uint (UInt64.ofNat v))), rfl,
      decides_literal hfits ⟨_, rfl, UInt64.toNat_ofNat_of_lt ?_⟩ span⟩
    omega
  · rw [if_neg (by omega)]
    exact ⟨fail span _, rfl, decides_fail hfits span⟩

/-! ## Parsing -/

/-- What is read of a numeral behind signs is the numeral, with one sign if their number is odd. -/
theorem parse_signed (h : Denotes d v) (hgaps : Gaps gaps) {P : Except ParseError Expr → Prop}
    (hbounded : Bounded P)
    (hP : ∀ span place, P (if gaps.length % 2 = 1
      then answer span ("-" ++ String.ofList d) (Numeral.int? true d)
      else answer place (String.ofList d) (Numeral.int? false d))) :
    P (Expr.parse (String.ofList (signed gaps d))) := by
  have hend : Closed [] := by rintro c ⟨⟩
  have hopens := opens_denotes h
  obtain ⟨hsettled, Q, hsigns, hQ⟩ := repeats_signs hopens hgaps
  have hnumeral : Takes Phrase.primary d [] fun ts => ∃ place, ts = [.token .litInt place d] :=
    takes_numeral h fun place => ⟨place, rfl⟩
  have hmany := hsigns.takes_many rfl (unlaid_of_settled hsettled)
  refine parse_of_takes hbounded hsettled (scan_of_plain (not_special_signed h hgaps)) ?_
  refine (hmany.seq (takes_alone hnumeral hend.follows)).rule fun span ts hts => ?_
  obtain ⟨signs, _, rfl, hsignsQ, place, _, rfl, inner, rfl⟩ := hts
  obtain ⟨hlength, hrules⟩ := hQ signs hsignsQ
  -- the numeral is a member by itself, and means what its token means
  have hmember : meaning (.node .member place [.token .litInt inner d])
      = (answer inner (String.ofList d) (Numeral.int? false d)).map Piece.operand := by
    rw [meaning, meanings, meanings, ofNode, memberOf, expr_of_meaning (meaning_litInt inner d)]
    rcases answer inner _ (Numeral.int? false d) with err | e <;> rfl
  refine ⟨_, _, rfl, (by decide : Rule.unary ∉ operatorRules), ?_, hP span inner⟩
  have hparts : ∀ p ∈ meanings signs, p.tree.rule = .opNeg := by
    rw [meanings_eq_map]
    intro p hp
    obtain ⟨t, ht, rfl⟩ := List.mem_map.mp hp
    exact hrules t ht
  rw [meaning, ofNode, meanings_eq_map, List.map_append, ← meanings_eq_map, List.map_singleton,
    fronted_signs hparts rfl (negatedLiteral_litInt span place inner d), meanings_eq_map,
    List.length_map, hlength, expr_of_meaning hmember]

/-- A numeral with a suffix is read as an unsigned number. -/
theorem parse_suffixed (h : Denotes d v) {suffix : Char} (hsuffix : suffix ∈ ['u', 'U']) :
    Decides (v ≤ 2 ^ 64 - 1) (IsUint v) (.uintRange (String.ofList (d ++ [suffix])))
      (Expr.parse (String.ofList (d ++ [suffix]))) := by
  have hend : Closed [] := by rintro c ⟨⟩
  have hopens := (opens_denotes h).append [suffix]
  -- no character of it opens anything, so the scan lets it pass
  have hplain : ∀ c ∈ d ++ [suffix], c ∉ Brackets.Context.special := by
    have hsuffixes : ∀ c ∈ ['u', 'U'], c ∉ Brackets.Context.special := not_special_of_all rfl
    intro c hc
    rcases List.mem_append.mp hc with hc | hc
    · exact h.not_mem rfl c hc
    · obtain rfl := List.mem_singleton.mp hc
      exact hsuffixes c hsuffix
  have hnumeral : Takes Phrase.primary (d ++ [suffix]) [] (Gives (Decides (v ≤ 2 ^ 64 - 1)
      (IsUint v) (.uintRange (String.ofList (d ++ [suffix]))))) := by
    refine takes_suffixed h hsuffix fun span => ?_
    obtain ⟨result, hmeaning, hresult⟩ := decides_uint h hsuffix span
    exact ⟨_, result, rfl, (by decide : Rule.litUint ∉ operatorRules), hmeaning, hresult⟩
  exact parse_of_takes bounded_decides hopens.settled (scan_of_plain hplain)
    (takes_unary_gives hopens.fails_front hopens.unlaid_eq
      (takes_member_gives hnumeral hend.follows))

/-- **Integers denote exactly their value, or are refused.** A numeral of any length, decimal or
hexadecimal, is the integer that it denotes if this is below `2 ^ 63`, also behind an even number of
minus signs; behind an odd number of them it is the negated integer, a literal as well, if the
number is at most `2 ^ 63`; and with a suffix it is the unsigned integer if it is below `2 ^ 64`. In
every other case it is refused as out of range. -/
theorem parse_numeral (h : Denotes d v) (hgaps : Gaps gaps) {suffix : Char}
    (hsuffix : suffix ∈ ['u', 'U']) :
    (Even gaps.length → Decides (v ≤ 2 ^ 63 - 1) (IsInt v) (.intRange (String.ofList d))
        (Expr.parse (String.ofList (signed gaps d))))
      ∧ (Odd gaps.length → Decides (v ≤ 2 ^ 63) (IsInt (-v)) (.intRange ("-" ++ String.ofList d))
        (Expr.parse (String.ofList (signed gaps d))))
      ∧ Decides (v ≤ 2 ^ 64 - 1) (IsUint v) (.uintRange (String.ofList (d ++ [suffix])))
        (Expr.parse (String.ofList (d ++ [suffix]))) := by
  refine ⟨fun heven => ?_, fun hodd => ?_, parse_suffixed h hsuffix⟩
  · -- an even run of signs leaves the number as it is
    have hnot : ¬ gaps.length % 2 = 1 := by
      rw [Nat.even_iff] at heven
      omega
    refine parse_signed h hgaps bounded_decides fun span place => ?_
    rw [if_neg hnot]
    exact (decides_answer h place _).1
  · refine parse_signed h hgaps bounded_decides fun span place => ?_
    rw [if_pos (Nat.odd_iff.mp hodd)]
    exact (decides_answer h span _).2

/-- The smallest integer in hexadecimal digits of both cases behind three signs with blanks, which
is one too large behind two. -/
theorem parse_numeral_smallest :
    Denotes "0x8000000000000000".toList (2 ^ 63) ∧ Gaps [[], [' ', '\n'], []]
      ∧ Gaps [[], ['\t']] ∧ 'U' ∈ ['u', 'U']
      ∧ (∃ value, IsInt (-(2 ^ 63 : Nat)) value
          ∧ IsLiteral value (Expr.parse "-- \n-0x8000000000000000"))
      ∧ (∃ err, Expr.parse "--\t0x8000000000000000" = .error err
          ∧ err.cause = .intRange "0x8000000000000000")
      ∧ ∃ value, IsUint (2 ^ 63) value ∧ IsLiteral value (Expr.parse "0x8000000000000000U") := by
  have hdenotes : Denotes "0x8000000000000000".toList (2 ^ 63) := by
    have hdigits : List.Forall₂ (Numeral.StandsFor 16) "8000000000000000".toList
        [8, 0, 0, 0, 0, 0, 0, 0, 0, 0, 0, 0, 0, 0, 0, 0] := by decide
    exact Denotes.hexadecimal (x := 'x') (by decide) (by decide) hdigits
  -- three signs with a line break among them, and two with a tab between them
  have hodd : Gaps [[], [' ', '\n'], []] := by simp [Gaps, blanks]
  have heven : Gaps [[], ['\t']] := by simp [Gaps, blanks]
  have hsuffix : 'U' ∈ ['u', 'U'] := by decide
  obtain ⟨-, hsigned, huint⟩ := parse_numeral hdenotes hodd hsuffix
  obtain ⟨hplain, -⟩ := parse_numeral hdenotes heven hsuffix
  exact ⟨hdenotes, hodd, heven, hsuffix, (hsigned (by decide)).1.mpr (by decide),
    (hplain (by decide)).2.mpr (by decide), huint.1.mpr (by decide)⟩

end RowFilter.Expr
