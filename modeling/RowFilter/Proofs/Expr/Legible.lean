/-
Printed expressions are read as operands.

An expression is legible if its printed text, in front of whatever does not go on with an operand,
is read as an operand that means the expression. Each kind of node is legible if its parts are:
in brackets a legible expression is read as an expression again, and there is nothing else around
it that the grammar could take for something different.
-/
import RowFilter.Proofs.Expr.Alternatives

set_option autoImplicit false

namespace RowFilter.Expr

open Grammar
open Grammar.Phrase (Takes Fails Joined Repeats takes_token fails_token takes_mark)

/-- The printed text of the expression is read as an operand. -/
structure Legible (e : Expr) : Prop where
  settled : ∀ rest, (Pattern.alt blank comment).split? (e.print ++ rest) = none
  bounded : e.depth ≤ maxTreeDepth
  takes : ∀ {tail behind : List Char}, Follows tail behind →
    Takes Phrase.unary (e.print ++ tail) behind (Means e)

variable {text tail behind : List Char} {e operand left right : Expr} {es : List Expr}

/-- Read as a member, an expression that opens one can be read wherever operands stand. -/
theorem legible_of_opens (hopens : Opens e.print) (hbounded : e.depth ≤ maxTreeDepth)
    (h : ∀ {tail behind}, Follows tail behind →
      Takes Phrase.member (e.print ++ tail) behind (Means e)) : Legible e where
  settled rest := (hopens.append rest).settled
  bounded := hbounded
  takes {tail _} hf :=
    takes_unary (hopens.append tail).fails_front (hopens.append tail).unlaid_eq (h hf)

/-- A text that is read as an operand by itself, up to where a token ends. -/
theorem legible_of_primary (hopens : Opens e.print) (hbounded : e.depth ≤ maxTreeDepth)
    (h : ∀ {tail}, Stopped tail → Takes Phrase.primary (e.print ++ tail) (unlaid tail) (Means e)) :
    Legible e := by
  refine legible_of_opens hopens hbounded fun {tail behind} hf => takes_member ?_ hf
  rw [← hf.unlaid_eq]
  exact h hf.stopped

/-! ## Expressions in brackets -/

/-- An operand by itself is an expression that gives the same. -/
theorem Gives.inside {P : Except ParseError Expr → Prop} {trees : List Tree} (h : Gives P trees)
    (span : Span) : GivesInside P [.node .expression span trees] := by
  obtain ⟨t, result, rfl, -, hmeaning, hresult⟩ := h
  refine ⟨_, result, rfl, rfl, ?_, hresult⟩
  rw [meaning, meanings, ofNode]
  exact hmeaning

/-- The loosest level is all there is to an expression in brackets. -/
theorem takes_inside_gives {P : Except ParseError Expr → Prop}
    (h : Takes Phrase.logicalOr text tail (Gives P)) :
    Takes .expression text tail (GivesInside P) :=
  Takes.expression (h.rule fun span _ hts => hts.inside span)

theorem takes_inside (h : Takes Phrase.logicalOr text tail (Means e)) :
    Takes .expression text tail (MeansInside e) :=
  (takes_inside_gives (h.mono fun _ => means_iff_gives.mp)).mono
    fun _ => meansInside_iff_givesInside.mpr

/-- Where an expression closes, an operand is read on the loosest level. -/
theorem takes_loosest_gives {P : Except ParseError Expr → Prop}
    (h : Takes Phrase.unary text tail (Gives P)) (htail : Closed tail) (hP : Bounded P) :
    Takes Phrase.logicalOr text tail (Gives P) :=
  takes_chains_gives (fun _ => levels_name) htail.fails htail.unlaid_eq hP h

theorem takes_loosest (h : Takes Phrase.unary text tail (Means e)) (htail : Closed tail)
    (hdepth : e.depth ≤ maxTreeDepth) : Takes Phrase.logicalOr text tail (Means e) :=
  takes_chains (fun _ => levels_name) htail.fails htail.unlaid_eq hdepth h

/-- A legible expression is read as a whole where an expression closes. -/
theorem Legible.takes_inside (h : Legible e) (htail : Closed tail) :
    Takes .expression (e.print ++ tail) tail (MeansInside e) :=
  Expr.takes_inside (takes_loosest (h.takes htail.follows) htail h.bounded)

/-- What follows a text in brackets follows its closing bracket. -/
theorem enclosed_append (text tail : List Char) :
    enclosed text ++ tail = '(' :: (text ++ ')' :: tail) := by
  rw [enclosed, List.cons_append, List.append_assoc]
  rfl

/-- Brackets make an operand of the expression in them. -/
theorem takes_enclosed (hsettled : unlaid (text ++ ')' :: tail) = text ++ ')' :: tail)
    (h : Takes .expression (text ++ ')' :: tail) (')' :: tail) (MeansInside e)) :
    Takes Phrase.primary (enclosed text ++ tail) (unlaid tail) (MeansInside e) := by
  have hopen := takes_mark '(' (text ++ ')' :: tail)
  rw [hsettled] at hopen
  rw [enclosed_append]
  refine (Phrase.fails_of_rejects rfl _).alt ((Phrase.fails_of_rejects rfl _).alt (Takes.alt ?_))
  refine (hopen.seq (h.seq (takes_mark ')' tail))).mono fun ts hts => ?_
  obtain ⟨_, _, rfl, rfl, inner, _, rfl, hinner, rfl⟩ := hts
  rw [List.nil_append, List.append_nil]
  exact hinner

/-- So a legible expression in brackets is read in front of everything. -/
theorem Legible.takes_enclosed (h : Legible e) (tail : List Char) :
    Takes Phrase.primary (enclosed e.print ++ tail) (unlaid tail) (MeansInside e) :=
  Expr.takes_enclosed (unlaid_of_settled (h.settled _))
    (h.takes_inside (closed_cons (by decide) tail))

/-- An expression that is printed in brackets of its own. -/
theorem legible_enclosed (hprint : e.print = enclosed text) (hbounded : e.depth ≤ maxTreeDepth)
    (hsettled : ∀ rest, unlaid (text ++ rest) = text ++ rest)
    (h : ∀ {tail}, Closed tail → Takes Phrase.logicalOr (text ++ tail) tail (Means e)) :
    Legible e := by
  refine legible_of_primary (hprint ▸ opens_enclosed text) hbounded fun {tail} _ => ?_
  rw [hprint]
  have hclosed : Closed (')' :: tail) := closed_cons (by decide) tail
  have hinside := Expr.takes_inside (h hclosed)
  exact (Expr.takes_enclosed (hsettled _) hinside).mono fun _ => MeansInside.means

/-! ## Literals and names -/

/-- **Literals.** All are legible but doubles, which are not printed so that they could be. -/
theorem legible_literal (span : Span) {value : Value} (hvalue : value.kind ≠ .double) :
    Legible (literalAt span value) := by
  have hbounded : (literalAt span value).depth ≤ maxTreeDepth := (by decide : 1 ≤ maxTreeDepth)
  cases value with
  | null => exact legible_of_primary ⟨'n', _, rfl, rfl, rfl⟩ hbounded (takes_null span)
  | boolean b =>
      refine legible_of_primary ?_ hbounded (takes_boolean span b)
      cases b <;> exact ⟨_, _, rfl, rfl, rfl⟩
  | int v =>
      rcases Int.lt_or_le v.toInt 0 with hv | hv
      · -- a negative number is read with the sign in front of it
        refine ⟨fun rest => ?_, hbounded, takes_negative span hv⟩
        rw [literalAt, print, escaped_negative hv]
        exact Pattern.split?_of_rejects rfl _
      · refine legible_of_primary ?_ hbounded (takes_int span hv)
        rw [literalAt, print, escaped_int hv]
        exact opens_toDigits _
  | uint v =>
      refine legible_of_primary ?_ hbounded fun _ => takes_uint span v _
      rw [literalAt, print, escaped_uint]
      exact (opens_toDigits _).append _
  | float v => exact absurd rfl hvalue
  | string v =>
      exact legible_of_primary ⟨'\x22', _, rfl, rfl, rfl⟩ hbounded fun _ => takes_string span v _
  | bytes v =>
      exact legible_of_primary ⟨'b', _, rfl, rfl, rfl⟩ hbounded fun _ => takes_bytes span v _

/-- A name is read as an identifier where it ends. -/
theorem takes_name {name : String} (hname : IsName name.toList) (htail : Ended tail) :
    Takes Phrase.ident (name.toList ++ tail) (unlaid tail)
      fun ts => ∃ span, ts = [.token .ident span name.toList] :=
  takes_token (hname.split?_eq htail) fun span => ⟨span, rfl⟩

/-- A name without a bracket behind it is neither a call nor a literal. -/
theorem takes_primary_name {name : String} (hname : IsName name.toList) (htail : Ended tail)
    (hbracket : Fails (Phrase.mark '(') (unlaid tail)) :
    Takes Phrase.primary (name.toList ++ tail) (unlaid tail)
      fun ts => ∃ span, ts = [.token .ident span name.toList] := by
  have hstops : ∀ c ∈ wordStops, c ∉ ['\x22', '\x27'] := by
    simp [wordStops, stops]
  exact takes_primary_of_name (hname.split?_eq htail) (fun c hc => hstops c (htail c hc)) hbracket
    fun span => ⟨span, rfl⟩

/-- The token of a name means the name. -/
theorem meaning_ident (span : Span) (name : String) :
    meaning (.token .ident span name.toList) = .ok (.operand (identAt span name)) := by
  rw [meaning, ofToken, String.ofList_toList]

/-- An identifier means its name. -/
theorem means_ident (place span : Span) (name : String) :
    Means (identAt place name) [.token .ident span name.toList] :=
  ⟨_, identAt span name, rfl, (by decide : Rule.ident ∉ operatorRules), meaning_ident span name,
    rfl⟩

/-- **Identifiers.** -/
theorem legible_ident (span : Span) {name : String} (hname : IsName name.toList) :
    Legible (identAt span name) := by
  have hbounded : (identAt span name).depth ≤ maxTreeDepth := (by decide : 1 ≤ maxTreeDepth)
  refine legible_of_opens (opens_name hname) hbounded fun {tail behind} hf => takes_member ?_ hf
  have hbracket := hf.fails_bracket
  rw [← hf.unlaid_eq] at hbracket ⊢
  refine (takes_primary_name hname hf.stopped.ended hbracket).mono fun ts hts => ?_
  obtain ⟨place, rfl⟩ := hts
  exact means_ident span place name

/-! ## Operators -/

/-- **Binary operations.** The operands are in brackets, so no precedence comes in. -/
theorem legible_binary (span : Span) (operator : BinaryOperator) (hleft : Legible left)
    (hright : Legible right) (hbounded : (binaryAt span operator left right).depth ≤ maxTreeDepth) :
    Legible (binaryAt span operator left right) := by
  refine legible_enclosed rfl hbounded (fun rest => ?_) fun {tail} htail => ?_
  · rw [List.append_assoc]
    exact unlaid_of_settled (hleft.settled _)
  · have htext : left.print ++ ' ' :: (operator.symbol.toList ++ ' ' :: right.print) ++ tail
        = left.print ++ ' ' :: operator.spaced (right.print ++ tail) := by
      rw [BinaryOperator.spaced, List.append_assoc, List.cons_append, List.append_assoc,
        List.cons_append]
    rw [htext]
    exact takes_pair operator span (hleft.takes (follows_spaced operator _))
      (unlaid_blank (hright.settled tail)) (hright.takes htail.follows) htail hbounded

/-- **Unary operations.** The operand is in brackets, so no sign can belong to a number in it. -/
theorem legible_unary (span : Span) (operator : UnaryOperator) (h : Legible operand)
    (hbounded : (unaryAt span operator operand).depth ≤ maxTreeDepth) :
    Legible (unaryAt span operator operand) := by
  refine legible_enclosed rfl hbounded (fun rest => ?_) fun {tail} htail => ?_
  · cases operator <;> exact unlaid_of_rejects rfl _
  · have hopens := (opens_enclosed operand.print).append tail
    have hprimary := h.takes_enclosed tail
    rw [htail.unlaid_eq] at hprimary
    rw [List.append_assoc]
    refine takes_loosest ?_ htail hbounded
    exact takes_unary_front operator span hopens.unlaid_eq hopens.fails_front
      (hprimary.mono fun _ hts => ⟨hts.means, hts.not_number⟩) htail.follows hbounded

/-! ## Expressions with commas between them -/

/-- The trees mean the expressions, one each. -/
def MeansAll (es : List Expr) (trees : List Tree) : Prop :=
  ∃ es', exprs (meanings trees) = .ok es' ∧ AllAlike es' es

theorem meansAll_nil : MeansAll [] [] := ⟨[], rfl, rfl⟩

/-- An element in front of others. -/
theorem MeansInside.cons {first more : List Tree} (h : MeansInside e first)
    (hmore : MeansAll es more) : MeansAll (e :: es) (first ++ more) := by
  obtain ⟨t, e', rfl, -, hmeaning, halike⟩ := h
  obtain ⟨es', hexprs, hall⟩ := hmore
  refine ⟨e' :: es', ?_, halike.cons hall⟩
  rw [List.singleton_append, meanings, exprs, part_expr hmeaning]
  dsimp only
  rw [hexprs]
  rfl

/-- What closes brackets, behind any expressions. -/
theorem closed_printMore {close : List Char} (hclose : Closed close) (es : List Expr) :
    Closed (printMore es ++ close) := by
  cases es with
  | nil => exact hclose
  | cons e es => exact closed_cons (by decide) _

/-- An expression in brackets between commas. -/
theorem Legible.takes_element (h : Legible e) (htail : Closed tail) :
    Takes .expression (enclosed e.print ++ tail) tail (MeansInside e) := by
  have hopens := (opens_enclosed e.print).append tail
  have hprimary := h.takes_enclosed tail
  rw [htail.unlaid_eq] at hprimary
  have hmember := takes_member (hprimary.mono fun _ => MeansInside.means) htail.follows
  exact Expr.takes_inside (takes_loosest
    (takes_unary hopens.fails_front hopens.unlaid_eq hmember) htail h.bounded)

/-- What closes brackets ends a list of expressions. -/
def Closing (c : Char) : Prop := c = ')' ∨ c = ']'

/-- A bracket that closes ends an expression. -/
theorem Closing.closed {c : Char} (hc : Closing c) (tail : List Char) : Closed (c :: tail) := by
  rcases hc with rfl | rfl <;> exact closed_cons (by decide) tail

theorem Closing.fails_comma {c : Char} (hc : Closing c) (tail : List Char) :
    Fails (Phrase.mark ',') (c :: tail) := by
  rcases hc with rfl | rfl <;> exact Phrase.fails_of_rejects rfl tail

/-- Where no operand stands no chain of operators does. -/
theorem fails_chains {ls : List (Rule × Phrase)} {p : Phrase} (h : Fails p text) :
    Fails (chains p ls) text := by
  induction ls generalizing p with
  | nil => exact h
  | cons l ls ih => exact ih h.seq.rule

/-- No expression begins with what closes brackets. -/
theorem Closing.fails_expression {c : Char} (hc : Closing c) (tail : List Char) :
    Fails .expression (c :: tail) := by
  have hfront : Fails Phrase.frontOperator (c :: tail) := by
    rcases hc with rfl | rfl <;> exact Phrase.fails_of_rejects rfl tail
  have hmember : Fails Phrase.member (c :: tail) := by
    rcases hc with rfl | rfl <;> exact Phrase.fails_of_rejects rfl tail
  have hunary : Fails Phrase.unary (c :: tail) :=
    ((hfront.many (hc.closed tail).unlaid_eq).seq_fails hmember).rule
  have hloosest : Fails Phrase.logicalOr (c :: tail) := by
    rw [← chains_levels]
    exact fails_chains hunary
  exact Fails.expression hloosest.rule

/-- A comma and an expression. -/
def nextElement : Phrase := .seq (Phrase.mark ',') .expression

/-- Expressions with a comma in front of each are read one by one. -/
theorem repeats_nextElement {c : Char} (hc : Closing c) (h : ∀ e ∈ es, Legible e)
    (tail : List Char) : ∃ P, Repeats nextElement (printMore es ++ c :: tail) (c :: tail) P
      ∧ ∀ ts, P ts → MeansAll es ts := by
  induction es with
  | nil =>
      refine ⟨_, .done (hc.fails_comma tail).seq, ?_⟩
      rintro _ rfl
      exact meansAll_nil
  | cons e es ih =>
      obtain ⟨P, hmore, hP⟩ := ih fun e he => h e (List.mem_cons_of_mem _ he)
      have hclosed := closed_printMore (hc.closed tail) es
      -- a comma, a blank and an element in brackets
      have hcomma := takes_mark ',' (' ' :: (enclosed e.print ++ (printMore es ++ c :: tail)))
      rw [unlaid_blank ((opens_enclosed e.print).append _).settled] at hcomma
      have hitem := hcomma.seq ((h e List.mem_cons_self).takes_element hclosed)
      have htext : printMore (e :: es) ++ c :: tail
          = ',' :: ' ' :: (enclosed e.print ++ (printMore es ++ c :: tail)) := by
        rw [printMore, List.cons_append, List.cons_append, List.append_assoc]
      rw [htext]
      refine ⟨_, .more hitem hmore, fun ts hts => ?_⟩
      obtain ⟨_, more, rfl, ⟨_, first, rfl, rfl, hfirst⟩, hts⟩ := hts
      exact hfirst.cons (hP more hts)

/-- Further elements are read up to the bracket that closes. -/
theorem takes_more {c : Char} (hc : Closing c) (h : ∀ e ∈ es, Legible e) (tail : List Char) :
    Takes (.many nextElement) (printMore es ++ c :: tail) (c :: tail) (MeansAll es) := by
  obtain ⟨P, hmore, hP⟩ := repeats_nextElement hc h tail
  exact (hmore.takes_many rfl (closed_printMore (hc.closed tail) es).unlaid_eq).mono hP

/-- The expressions between brackets, if there are any. -/
theorem takes_elements {c : Char} (hc : Closing c) {more : Phrase} (tail : List Char)
    (hmore : ∀ es : List Expr, (∀ e ∈ es, Legible e) →
      Takes more (printMore es ++ c :: tail) (c :: tail) (MeansAll es))
    (h : ∀ e ∈ es, Legible e) : Takes (.optional (.seq .expression more))
      (printAll es ++ c :: tail) (c :: tail) (MeansAll es) := by
  -- without elements there is nothing between the brackets
  cases es with
  | nil =>
      refine ((hc.fails_expression tail).seq.optional (hc.closed tail).unlaid_eq).mono ?_
      rintro _ rfl
      exact meansAll_nil
  | cons e es =>
      have hrest := hmore es fun e he => h e (List.mem_cons_of_mem _ he)
      have hfirst := (h e List.mem_cons_self).takes_element (closed_printMore (hc.closed tail) es)
      rw [printAll, List.append_assoc]
      refine ((hfirst.seq hrest).optional).mono fun ts hts => ?_
      obtain ⟨_, _, rfl, hmeans, hall⟩ := hts
      exact hmeans.cons hall

/-- No layout stands at the front of printed elements. -/
theorem unlaid_printAll {c : Char} (hc : Closing c) (es : List Expr) (tail : List Char) :
    unlaid (printAll es ++ c :: tail) = printAll es ++ c :: tail := by
  cases es with
  | nil => exact (hc.closed tail).unlaid_eq
  | cons e es =>
      rw [printAll, List.append_assoc]
      exact ((opens_enclosed e.print).append _).unlaid_eq

/-! ## Calls and lists -/

/-- A name with arguments in brackets. -/
theorem takes_named {name : String} (hname : IsName name.toList) (h : ∀ e ∈ es, Legible e)
    (tail : List Char) :
    Takes (Phrase.parts Phrase.ident [Phrase.mark '(', .optional Phrase.arguments, Phrase.mark ')'])
      (name.toList ++ (enclosed (printAll es) ++ tail)) (unlaid tail)
      fun ts => ∃ span more, ts = .token .ident span name.toList :: more ∧ MeansAll es more := by
  have hstopped : Stopped (enclosed (printAll es) ++ tail) := stopped_cons (by decide) _
  have hident := takes_name hname hstopped.ended
  rw [((opens_enclosed _).append tail).unlaid_eq, enclosed_append] at hident
  -- the bracket follows the name at once, and the first argument the bracket
  have hopen := takes_mark '(' (printAll es ++ ')' :: tail)
  rw [unlaid_printAll (.inl rfl)] at hopen
  have harguments := takes_elements (.inl rfl) tail (fun es hes => takes_more (.inl rfl) hes tail) h
  rw [enclosed_append]
  refine (hident.seq (hopen.seq (harguments.seq (takes_mark ')' tail)))).mono fun ts hts => ?_
  obtain ⟨_, _, rfl, ⟨span, rfl⟩, _, _, rfl, rfl, more, _, rfl, hmore, rfl⟩ := hts
  refine ⟨span, more, ?_, hmore⟩
  rw [List.nil_append, List.append_nil, List.singleton_append]

/-- A name and arguments, as the trees of a call have them. -/
theorem MeansAll.nameAndArguments_eq {name : String} {more : List Tree} {es' : List Expr}
    (h : exprs (meanings more) = .ok es') (span place : Span) :
    nameAndArguments span (meanings (.token .ident place name.toList :: more))
      = .ok (name, es') := by
  rw [meanings, nameAndArguments, h]
  dsimp only [Except.map, Tree.text]
  rw [String.ofList_toList]

/-- **Calls.** -/
theorem legible_call (span : Span) {function : String} (hfunction : IsName function.toList)
    (h : ∀ e ∈ es, Legible e) (hbounded : (callAt span function es).depth ≤ maxTreeDepth) :
    Legible (callAt span function es) := by
  refine legible_of_primary ((opens_name hfunction).append _) hbounded fun {tail} _ => ?_
  rw [callAt, print, List.append_assoc]
  refine Takes.alt ((takes_named hfunction h tail).rule fun place ts hts => ?_)
  obtain ⟨placen, more, rfl, es', hexprs, hall⟩ := hts
  refine ⟨_, callAt place function es', rfl, (by decide : Rule.globalCall ∉ operatorRules), ?_,
    hall.callAt function⟩
  rw [meaning, ofNode, MeansAll.nameAndArguments_eq hexprs]
  dsimp only
  rw [(hall.callAt function).bounded_eq hbounded]
  rfl

/-- **Lists.** -/
theorem legible_list (span : Span) (h : ∀ e ∈ es, Legible e)
    (hbounded : (listAt span es).depth ≤ maxTreeDepth) : Legible (listAt span es) := by
  refine legible_of_primary ⟨'[', _, rfl, rfl, rfl⟩ hbounded fun {tail} _ => ?_
  -- unlike the arguments of a call the elements may end with a comma, and no comma is printed there
  have hclosing : Closing ']' := .inr rfl
  have hopen := takes_mark '[' (printAll es ++ ']' :: tail)
  rw [unlaid_printAll hclosing] at hopen
  have hmore : ∀ es : List Expr, (∀ e ∈ es, Legible e) →
      Takes (.seq (.many nextElement) (.optional (Phrase.mark ',')))
        (printMore es ++ ']' :: tail) (']' :: tail) (MeansAll es) := by
    intro es hes
    have hcomma := (hclosing.fails_comma tail).optional (hclosing.closed tail).unlaid_eq
    refine ((takes_more hclosing hes tail).seq hcomma).mono fun ts hts => ?_
    obtain ⟨more, _, rfl, hall, rfl⟩ := hts
    rwa [List.append_nil]
  have helements := takes_elements hclosing tail hmore h
  have htext : print (listAt span es) ++ tail = '[' :: (printAll es ++ ']' :: tail) := by
    rw [listAt, print, List.cons_append, List.append_assoc]
    rfl
  rw [htext]
  refine (Phrase.fails_of_rejects rfl _).alt (Takes.alt ?_)
  refine (hopen.seq (helements.seq (takes_mark ']' tail))).rule fun place ts hts => ?_
  obtain ⟨_, _, rfl, rfl, trees, _, rfl, ⟨es', hexprs, hall⟩, rfl⟩ := hts
  refine ⟨_, listAt place es', rfl, (by decide : Rule.listLiteral ∉ operatorRules), ?_,
    AllAlike.listAt hall⟩
  rw [List.nil_append, List.append_nil, meaning, ofNode, hexprs]
  dsimp only
  rw [(AllAlike.listAt hall).bounded_eq hbounded]
  rfl

/-! ## Selections and calls on receivers -/

/-- A field behind a dot, where no bracket makes a call of it. -/
theorem takes_field {field : String} (hfield : IsName field.toList) (htail : Ended tail)
    (hbracket : Fails (Phrase.mark '(') (unlaid tail)) :
    Takes suffix ('.' :: (field.toList ++ tail)) (unlaid tail)
      fun ts => ∃ t, ts = [t] ∧ meaning t = .ok (.selection field) := by
  have hdot := takes_mark '.' (field.toList ++ tail)
  rw [((opens_name hfield).append tail).unlaid_eq] at hdot
  have hident := takes_name hfield htail
  -- what is tried first is a call, but no bracket follows the field
  have hcall : Fails Phrase.memberCall ('.' :: (field.toList ++ tail)) :=
    (hdot.seq_fails (hident.seq_fails hbracket.seq)).rule
  refine hcall.alt ((hdot.seq hident).rule fun span ts hts => ?_)
  obtain ⟨_, _, rfl, rfl, place, rfl⟩ := hts
  refine ⟨_, rfl, ?_⟩
  rw [List.nil_append, meaning, meanings, ofNode]
  dsimp only [Tree.text]
  rw [String.ofList_toList]

/-- A field behind a dot makes a selection. -/
theorem suffixed_field {t : Tree} {field : String} (h : meaning t = .ok (.selection field))
    (operand : Expr) : suffixed operand ⟨t, meaning t⟩ = bounded (operand.span.merge t.span)
      (selectAt (operand.span.merge t.span) operand field) := by
  rw [suffixed, h]

/-- **Selections.** The operand is in brackets, and the field is behind a dot. -/
theorem legible_select (span : Span) {field : String} (h : Legible operand)
    (hfield : IsName field.toList)
    (hbounded : (selectAt span operand field).depth ≤ maxTreeDepth) :
    Legible (selectAt span operand field) := by
  refine legible_of_opens ((opens_enclosed operand.print).append _) hbounded
    fun {tail behind} hf => ?_
  have hprimary := (h.takes_enclosed ('.' :: (field.toList ++ tail))).mono
    fun _ => MeansInside.means
  have hsettled : unlaid ('.' :: (field.toList ++ tail)) = '.' :: (field.toList ++ tail) :=
    unlaid_of_rejects rfl _
  rw [hsettled] at hprimary
  -- the grammar tries a call first, and a field is one until the bracket is missing
  have hbracket := hf.fails_bracket
  rw [← hf.unlaid_eq] at hbracket
  have hfieldSelect := takes_field hfield hf.stopped.ended hbracket
  rw [hf.unlaid_eq] at hfieldSelect
  have hsuffix : Takes suffix ('.' :: (field.toList ++ tail)) behind
      (MeansSuffix operand (selectAt span operand field)) := by
    refine hfieldSelect.mono fun ts hts => ?_
    obtain ⟨t, rfl, ht⟩ := hts
    refine ⟨t, rfl, fun operand' halike =>
      ⟨selectAt (operand'.span.merge t.span) operand' field, ?_, halike.selectAt field⟩⟩
    rw [suffixed_field ht, (halike.selectAt field).bounded_eq hbounded]
  rw [selectAt, print, List.append_assoc, List.cons_append]
  exact takes_member_suffix hprimary hsuffix hsettled hf

/-- **Calls on receivers.** -/
theorem legible_method (span : Span) {function : String} (h : Legible operand)
    (hfunction : IsName function.toList) (hall : ∀ e ∈ es, Legible e)
    (hbounded : (methodAt span operand function es).depth ≤ maxTreeDepth) :
    Legible (methodAt span operand function es) := by
  refine legible_of_opens ((opens_enclosed operand.print).append _) hbounded
    fun {tail behind} hf => ?_
  have hprimary := (h.takes_enclosed
    ('.' :: (function.toList ++ (enclosed (printAll es) ++ tail)))).mono fun _ => MeansInside.means
  have hsettled : unlaid ('.' :: (function.toList ++ (enclosed (printAll es) ++ tail)))
      = '.' :: (function.toList ++ (enclosed (printAll es) ++ tail)) := unlaid_of_rejects rfl _
  rw [hsettled] at hprimary
  have hdot := takes_mark '.' (function.toList ++ (enclosed (printAll es) ++ tail))
  rw [((opens_name hfunction).append _).unlaid_eq] at hdot
  have hnamed := takes_named hfunction hall tail
  rw [hf.unlaid_eq] at hnamed
  -- the call is a suffix of the receiver in its brackets
  have hsuffix : Takes suffix ('.' :: (function.toList ++ (enclosed (printAll es) ++ tail))) behind
      (MeansSuffix operand (methodAt span operand function es)) := by
    refine Takes.alt ((hdot.seq hnamed).rule fun place ts hts => ?_)
    obtain ⟨_, _, rfl, rfl, placen, more, rfl, es', hexprs, hes⟩ := hts
    refine ⟨_, rfl, fun operand' halike =>
      ⟨methodAt (operand'.span.merge place) operand' function es', ?_,
        halike.methodAt hes function⟩⟩
    rw [List.nil_append, suffixed, meaning, ofNode, MeansAll.nameAndArguments_eq hexprs]
    dsimp only [Except.map, Tree.span]
    rw [(halike.methodAt hes function).bounded_eq hbounded]
  have htext : print (methodAt span operand function es) ++ tail = enclosed operand.print
      ++ '.' :: (function.toList ++ (enclosed (printAll es) ++ tail)) := by
    rw [methodAt, print, List.append_assoc, List.cons_append, List.append_assoc]
  rw [htext]
  exact takes_member_suffix hprimary hsuffix hsettled hf

end RowFilter.Expr
