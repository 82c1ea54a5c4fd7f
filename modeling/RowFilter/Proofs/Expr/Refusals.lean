/-
Why a source text is refused.

The builder has errors for trees that are not as their rules promise, and for literals that are
none. The grammar finds no such tree: production by production, what it finds is what the builder
asks for (`finds_expressionBody`), so whatever is made of a program is a value or refused with a
genuine cause. A text is refused for its brackets, by the grammar, or with such a cause, and none of
the messages of the defensive errors is ever seen (`parse_refusals`).
-/
import RowFilter.Proofs.Expr.Justified
import RowFilter.Proofs.Expr.Roundtrip

set_option autoImplicit false

namespace RowFilter

namespace Expr

open Grammar
open Grammar.Phrase (finds_symbol finds_token finds_rule finds_seq finds_behind_mark
  finds_before_mark finds_alt finds_optional finds_many)

variable {nested : Matcher} {p : Phrase} {trees : List Tree}

/-! ## Tokens -/

/-- One name. -/
def IsIdent (trees : List Tree) : Prop := ∃ span w, trees = [.token .ident span w]

/-- An identifier is found as one. -/
theorem finds_ident : Finds (Phrase.ident.matched? nested) IsIdent :=
  finds_token fun _ w _ _ span => ⟨span, w, rfl⟩

/-- **What is found as a literal can be read**, or there is a reason why not. -/
theorem finds_literal : Finds (Phrase.literal.matched? nested) IsPrimary := by
  refine finds_alt ?null <| finds_alt ?boolean <| finds_alt ?bytes <| finds_alt ?string <|
    finds_alt ?double <| finds_alt ?uint ?int
  case null => exact finds_token fun _ w _ _ span => isPrimary_litNull span w
  case boolean => exact finds_token fun _ w _ _ span => isPrimary_litBoolean span w
  case bytes =>
    exact finds_token fun _ _ _ h span =>
      isPrimary_litBytes span (Escape.quoted_of_bytesLiteral h)
  case string =>
    exact finds_token fun _ _ _ h span =>
      isPrimary_litString span (Escape.quoted_of_stringLiteral h)
  -- what the grammar takes for a number is read as one, perhaps out of range
  case double =>
    refine finds_token fun _ _ _ h span => ?_
    obtain ⟨_, hd⟩ := Numeral.double?_of_doubleLiteral h
    exact isPrimary_litDouble span hd
  case uint =>
    refine finds_token fun _ _ _ h span => ?_
    obtain ⟨_, _, suffix, hsuffix, rfl, hv⟩ := denotes_of_uintLiteral h
    exact isPrimary_litUint span hsuffix hv
  case int =>
    refine finds_token fun _ _ _ h span => ?_
    obtain ⟨_, hv⟩ := denotes_of_intLiteral h
    exact isPrimary_litInt span hv

/-- The token of an operator is one of its level. -/
theorem finds_operator (operator : BinaryOperator) (pattern : Pattern) :
    Finds ((Phrase.token operator.rule pattern).matched? nested) (IsOperatorOf operator.level.1) :=
  finds_token fun _ w _ _ span => ⟨operator, span, w, rfl, rfl⟩

/-- On each level an operator of the level is found. -/
theorem finds_operators : ∀ l ∈ levels, Finds (l.2.matched? nested) (IsOperatorOf l.1) := by
  simp only [levels, List.forall_mem_cons, List.not_mem_nil, false_implies, implies_true, and_true]
  refine ⟨?_, ?_, ?_, ?_, ?_⟩
  · exact finds_alt (finds_operator .multiply _)
      (finds_alt (finds_operator .divide _) (finds_operator .modulo _))
  · exact finds_alt (finds_operator .add _) (finds_operator .subtract _)
  · exact finds_alt (finds_operator .equal _) <| finds_alt (finds_operator .notEqual _) <|
      finds_alt (finds_operator .lessOrEqual _) <| finds_alt (finds_operator .greaterOrEqual _) <|
      finds_alt (finds_operator .lessThan _) <| finds_alt (finds_operator .greaterThan _)
        (finds_operator .isIn _)
  · exact finds_operator .and _
  · exact finds_operator .or _

/-! ## Productions -/

/-- An expression in brackets is an operand. -/
theorem GivesInside.gives {P : Except ParseError Expr → Prop} (h : GivesInside P trees) :
    Gives P trees := by
  obtain ⟨t, result, rfl, ht, hmeaning, hresult⟩ := h
  exact ⟨t, result, rfl, by rw [ht]; decide, hmeaning, hresult⟩

/-- An expression in brackets is no number. -/
theorem GivesInside.isPrimary (h : GivesInside Justified trees) : IsPrimary trees where
  gives := h.gives
  signable place span := by
    obtain ⟨t, -, rfl, ht, -, -⟩ := h
    cases t with
    | node => exact justified_ok none
    | token =>
        obtain rfl := ht
        exact justified_ok none

section
variable (h : Finds (Phrase.expression.matched? nested) (GivesInside Justified))
include h

/-- Expressions with commas between them. -/
theorem finds_separated : Finds
    ((Phrase.many (.seq (Phrase.mark ',') .expression)).matched? nested) AreOperands :=
  (finds_many (finds_behind_mark h)).mono fun _ hts =>
    hts.collect areOperands_nil fun _ _ hleft hright => hleft.gives.areOperands.append hright

/-- Arguments are operands. -/
theorem finds_arguments : Finds
    ((Phrase.optional Phrase.arguments).matched? nested) AreOperands := by
  refine finds_optional ((finds_seq h (finds_separated h)).mono fun ts hts => ?_) areOperands_nil
  obtain ⟨_, _, rfl, hfirst, hmore⟩ := hts
  exact hfirst.gives.areOperands.append hmore

/-- A name and arguments in brackets. -/
theorem finds_invocation : Finds ((Phrase.seq Phrase.ident (.seq (Phrase.mark '(')
    (.seq (.optional Phrase.arguments) (Phrase.mark ')')))).matched? nested)
    fun ts => ∃ name arguments, ts = name :: arguments ∧ AreOperands arguments := by
  refine (finds_seq finds_ident (finds_behind_mark (finds_before_mark (finds_arguments h)))).mono
    fun ts hts => ?_
  obtain ⟨_, arguments, rfl, ⟨span, w, rfl⟩, harguments⟩ := hts
  exact ⟨_, arguments, rfl, harguments⟩

/-- A suffix is a call or a selection. -/
theorem finds_suffix : Finds (suffix.matched? nested) IsSuffix := by
  refine finds_alt (finds_rule (finds_behind_mark (finds_invocation h)) fun span ts hts => ?_)
    (finds_rule (finds_behind_mark finds_ident) fun span ts hts => ?_)
  · obtain ⟨name, arguments, rfl, harguments⟩ := hts
    exact isSuffix_memberCall name span harguments
  · obtain ⟨place, w, rfl⟩ := hts
    exact isSuffix_fieldSelect _ span

/-- A call is found as a primary. -/
theorem finds_globalCall : Finds (Phrase.globalCall.matched? nested) IsPrimary := by
  refine finds_rule (finds_invocation h) fun span ts hts => ?_
  obtain ⟨name, arguments, rfl, harguments⟩ := hts
  exact (gives_globalCall name span harguments).isPrimary_node

/-- So is a list. -/
theorem finds_listLiteral : Finds (Phrase.listLiteral.matched? nested) IsPrimary := by
  have helements : Finds ((Phrase.optional (Phrase.parts .expression
      [.many (.seq (Phrase.mark ',') .expression), .optional (Phrase.mark ',')])).matched? nested)
        AreOperands := by
    refine finds_optional ((finds_seq h (finds_seq (finds_separated h)
      (finds_optional finds_symbol rfl))).mono fun ts hts => ?_) areOperands_nil
    obtain ⟨_, _, rfl, hfirst, more, _, rfl, hmore, rfl⟩ := hts
    rw [List.append_nil]
    exact hfirst.gives.areOperands.append hmore
  exact finds_rule (finds_behind_mark (finds_before_mark helements)) fun span _ hts =>
    (gives_listLiteral span hts).isPrimary_node

/-- A primary of any kind is found. -/
theorem finds_primary : Finds (Phrase.primary.matched? nested) IsPrimary := by
  refine finds_alt (finds_globalCall h) <| finds_alt (finds_listLiteral h) <|
    finds_alt ?round <| finds_alt finds_literal ?name
  case round => exact finds_behind_mark (finds_before_mark (h.mono fun _ hts => hts.isPrimary))
  case name =>
    refine finds_ident.mono fun ts hts => ?_
    obtain ⟨span, w, rfl⟩ := hts
    exact isPrimary_ident span w

/-- Operators in front of a member make an operand. -/
theorem finds_unary : Finds (Phrase.unary.matched? nested) (Gives Justified) := by
  have hmember : Finds (Phrase.member.matched? nested) fun ts =>
      Gives Justified ts ∧ ∀ t ∈ ts, Signable t := by
    refine finds_rule (finds_seq (finds_primary h) (finds_many (finds_suffix h)))
      fun span ts hts => ?_
    obtain ⟨operand, behind, rfl, hoperand, hbehind⟩ := hts
    refine ⟨gives_member span hoperand.gives hbehind, List.forall_mem_singleton.mpr ?_⟩
    exact hoperand.signable_member span hbehind
  -- the builder counts the operators in front and asks for nothing of theirs
  have hfronts : Finds ((Phrase.many Phrase.frontOperator).matched? nested) fun _ => True :=
    fun _ _ _ _ => trivial
  refine finds_rule (finds_seq hfronts hmember) fun span ts hts => ?_
  obtain ⟨fronts, operand, rfl, -, hoperand, hsign⟩ := hts
  exact gives_unary span hoperand hsign

omit h in
/-- On every level operands with operators between them are operands. -/
theorem finds_chains {ls : List (Rule × Phrase)} (hls : ∀ l ∈ ls, l ∈ levels)
    (hp : Finds (p.matched? nested) (Gives Justified)) :
    Finds ((chains p ls).matched? nested) (Gives Justified) := by
  induction ls generalizing p with
  | nil => exact hp
  | cons l ls ih =>
      obtain ⟨hl, hmore⟩ := List.forall_mem_cons.mp hls
      refine ih hmore (finds_rule (finds_seq hp (finds_many (finds_seq (finds_operators l hl) hp)))
        fun span ts hts => ?_)
      obtain ⟨first, rest, rfl, hfirst, hrest⟩ := hts
      exact gives_chain (levels_name hl) span hfirst hrest

/-- **What is found as an expression is what the builder asks for**, if this holds of the
expressions inside it. -/
theorem finds_expressionBody :
    Finds (Phrase.expressionBody.matched? nested) (GivesInside Justified) :=
  finds_rule (finds_chains (fun _ hl => hl) (finds_unary h)) fun span _ hts => hts.inside span

end

/-- Whatever the grammar accepts is a value, or refused with a genuine cause. -/
theorem justified_of_readProgram {text : List Char} {tree : Tree}
    (h : readProgram text = .ok tree) : Justified (ofTree tree) := by
  obtain ⟨span, inner, last, rfl, hinner⟩ :=
    finds_readProgram (finds_expression? fun _ => finds_expressionBody) h
  exact hinner.ofTree span last

end Expr

/-! ## Messages -/

namespace ParseError

/-- How the messages of the defensive errors begin. -/
def defensiveTexts : List String :=
  ["Unterminated quoted literal", "Dangling escape at end of literal",
   "String literal is not valid UTF-8", "Invalid double literal", "Unexpected rule",
   "Unknown operator", "Missing ", "Empty "]

/-- How all other messages begin. -/
def reasonTexts : List String :=
  ["Expression nesting exceeds ", "expected ", "unknown parsing error",
   "Integer literal out of range: ", "Unsigned literal out of range: ",
   "Invalid escape sequence '", "Escape needs ", "Invalid hex escape '", "Invalid code point 0x",
   "Escape '"]

/-- The message begins with one of the texts. -/
def StartsWith (starts : List String) (message : String) : Prop :=
  ∃ start ∈ starts, start.toList <+: message.toList

/-- The errors for trees and literals that the grammar does not find. -/
def Cause.Defensive : Cause → Prop
  | .malformed _ | .escape .dangling | .escape .unterminated | .escape .notUtf8 => True
  | _ => False

variable {starts : List String} {message : String}

/-- What a message goes on with plays no part. -/
theorem StartsWith.append (h : StartsWith starts message) (rest : String) :
    StartsWith starts (message ++ rest) := by
  obtain ⟨start, hmem, hprefix⟩ := h
  refine ⟨start, hmem, ?_⟩
  rw [String.toList_append]
  exact hprefix.trans (List.prefix_append _ _)

/-- How a message begins can be computed. -/
theorem startsWith_of_any
    (h : (starts.any fun start => start.toList.isPrefixOf message.toList) = true) :
    StartsWith starts message := by
  obtain ⟨start, hmem, hprefix⟩ := List.any_eq_true.mp h
  exact ⟨start, hmem, List.isPrefixOf_iff_prefix.mp hprefix⟩

/-- No defensive message begins like another one, nor the other way round. -/
theorem not_startsWith_both (h : StartsWith reasonTexts message) :
    ¬ StartsWith defensiveTexts message := by
  -- no text of one list is the beginning of one in the other
  have hapart : (reasonTexts.all fun reason => defensiveTexts.all fun start =>
      !reason.toList.isPrefixOf start.toList && !start.toList.isPrefixOf reason.toList) = true := by
    decide +kernel
  rintro ⟨start, hstart, hprefix⟩
  obtain ⟨reason, hreason, hprefix'⟩ := h
  have hboth := List.all_eq_true.mp (List.all_eq_true.mp hapart reason hreason) start hstart
  rw [Bool.and_eq_true, Bool.not_eq_true', Bool.not_eq_true'] at hboth
  -- of two beginnings of one message one begins the other
  rcases List.prefix_or_prefix_of_prefix hprefix hprefix' with hstarts | hstarts
  · rw [List.isPrefixOf_iff_prefix.mpr hstarts] at hboth
    cases hboth.2
  · rw [List.isPrefixOf_iff_prefix.mpr hstarts] at hboth
    cases hboth.1

/-- What the grammar expected is a reason. -/
theorem startsWith_expectation (attempts : List Grammar.Rule) :
    StartsWith reasonTexts (Grammar.Rule.expectation attempts) := by
  have hexpected : StartsWith reasonTexts "expected " := startsWith_of_any (by decide)
  unfold Grammar.Rule.expectation
  split
  · exact startsWith_of_any (by decide)
  · exact hexpected.append _
  · exact ((hexpected.append _).append _).append _
  · exact ((hexpected.append _).append _).append _

/-- A malformed tree is a defensive error. -/
theorem startsWith_malformed (what : Malformation) :
    StartsWith defensiveTexts what.message := by
  cases what with
  | emptyInput | emptyExpression | missingOperand | missingLeftOperand | missingFieldName
  | missingFunctionName => exact startsWith_of_any (by decide)
  | missingOperands | missingOperandAfter =>
      exact ((startsWith_of_any (by decide)).append _).append _
  | unknownOperator | unexpectedRule | unexpectedSuffix | invalidDouble =>
      exact (startsWith_of_any (by decide)).append _

/-- **The messages tell the defensive errors from the others.** -/
theorem Cause.defensive_iff (cause : Cause) :
    cause.Defensive ↔ StartsWith defensiveTexts cause.message := by
  -- what is not defensive has a message that begins like that of a reason
  have hreason : ∀ {c : Cause}, ¬ c.Defensive → StartsWith reasonTexts c.message →
      (c.Defensive ↔ StartsWith defensiveTexts c.message) :=
    fun hnot hstarts => iff_of_false hnot (not_startsWith_both hstarts)
  cases cause with
  | malformed what => exact iff_of_true trivial (startsWith_malformed what)
  | tooDeep => exact hreason id (((startsWith_of_any (by decide)).append _).append _)
  | grammar attempts => exact hreason id (startsWith_expectation attempts)
  | intRange | uintRange => exact hreason id ((startsWith_of_any (by decide)).append _)
  | escape fault =>
      cases fault with
      | dangling | unterminated | notUtf8 =>
          exact iff_of_true trivial (startsWith_of_any (by decide))
      | notScalar => exact hreason id ((startsWith_of_any (by decide)).append _)
      | unknown | tooShort | notHex | notInBytes =>
          exact hreason id (((startsWith_of_any (by decide)).append _).append _)

/-- The causes that occur are not defensive. -/
theorem Cause.Genuine.not_defensive {cause : Cause} (h : cause.Genuine) : ¬ cause.Defensive := by
  cases h with
  | escape h => cases h <;> exact id
  | _ => exact id

end ParseError

/-! ## Refusals -/

namespace Expr

/-- **Why a text is refused**: its brackets nest too deep, the grammar does not accept it, or what
the grammar has found is refused with a genuine cause. -/
inductive Refusal (text : List Char) : ParseError → Prop
  | brackets {place : Brackets.TooDeep} (h : Brackets.scan text = .error place) :
      Refusal text ⟨.tooDeep Brackets.maxNesting, place.line, place.column⟩
  | grammar {failure : Grammar.Failure} (hscan : Brackets.scan text = .ok ())
      (h : Grammar.readProgram text = .error failure) :
      Refusal text
        ⟨.grammar failure.attempts, failure.position.line, failure.position.column⟩
  | tree {tree : Grammar.Tree} {err : ParseError} (hscan : Brackets.scan text = .ok ())
      (h : Grammar.readProgram text = .ok tree) (herr : ofTree tree = .error err)
      (hcause : err.cause.Genuine) : Refusal text err

/-- Every refusal is one of the brackets, of the grammar or of the tree. -/
theorem refusal_of_parse {source : String} {err : ParseError}
    (h : Expr.parse source = .error err) : Refusal source.toList err := by
  unfold Expr.parse at h
  dsimp only at h
  -- the three stages, each reached if the ones before it have come to something
  split at h
  · next hscan =>
      obtain rfl := Except.error.inj h
      exact .brackets hscan
  · next hscan =>
      split at h
      · next hread =>
          obtain rfl := Except.error.inj h
          exact .grammar hscan hread
      · next hread => exact .tree hscan hread h (justified_of_readProgram hread err h)

/-- No refusal is a defensive one. -/
theorem Refusal.not_defensive {text : List Char} {err : ParseError} (h : Refusal text err) :
    ¬ err.cause.Defensive := by
  cases h with
  | brackets => exact id
  | grammar => exact id
  | tree _ _ _ hcause => exact hcause.not_defensive

/-- **The defensive errors are never seen.** Whatever text is refused is refused for its brackets,
by the grammar, or because its tree is too deep, an integer is out of range or an escape is none;
none of the messages is one of a defensive error. A string literal is decoded to UTF-8, whatever
stands in it. -/
theorem parse_refusals :
    (∀ source err, Expr.parse source = .error err → Refusal source.toList err
        ∧ ∀ start ∈ ParseError.defensiveTexts, ¬ start.toList <+: err.message.toList)
      ∧ ∀ text bytes, Escape.literal .string text = .ok bytes →
        ∃ s : String, String.fromUTF8? ⟨bytes.toArray⟩ = some s := by
  refine ⟨fun source err h => ?_, fun text bytes h => ?_⟩
  · have hrefusal := refusal_of_parse h
    refine ⟨hrefusal, fun start hstart hprefix => hrefusal.not_defensive ?_⟩
    exact err.cause.defensive_iff.mpr ⟨start, hstart, hprefix⟩
  · obtain ⟨s, rfl⟩ := Escape.exists_text_of_literal h
    exact ⟨_, Escape.fromUTF8?_flatMap s⟩

end Expr

end RowFilter
