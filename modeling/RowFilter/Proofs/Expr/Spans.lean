/-
Where the nodes of an expression lie.

The span of a node comes from one of three places: from the tree of a token, a call, a list or an
operand with operators in front of it; from both operands of a binary operator; or from an operand
and what follows it behind a dot. In each case it lies in the text and holds the children in order:
the trees of a parse do (`Tree.Fits`), what a tree means lies inside of the tree, brackets around it
being dropped, and the smallest span over two that stand in order begins as the first and ends as
the second. So whatever is parsed is `Placed`.
-/
import RowFilter.Proofs.Expr.Making
import RowFilter.Proofs.Expr.Levels
import RowFilter.Proofs.Grammar.Spans
import RowFilter.Proofs.Typing.Elaboration

set_option autoImplicit false

namespace RowFilter

/-! ## Spans over two -/

/-- Two spans in order are merged from the start of the one to the end of the other. -/
theorem Span.merge_eq {a b : Span} (hstart : a.start ≤ b.start) (hstop : a.stop ≤ b.stop) :
    a.merge b = ⟨a.start, b.stop, a.line, a.column⟩ := by
  rw [Span.merge, if_pos hstart, Nat.max_eq_right hstop]

namespace Expr

open Grammar (Rule Tree fits_of_readProgram)

variable {text : List Char} {span : Span} {parts : List Part} {e : Expr} {first last : Nat}

/-- Every node of the expression lies in the text, and its children stand in order inside of it. -/
def Placed (text : List Char) (e : Expr) : Prop :=
  ∀ n, SubExpr n e → n.span.Lies text ∧ InOrder n.span.start n.span.stop (n.children.map Expr.span)

theorem Placed.lies (h : Placed text e) : e.span.Lies text := (h e (SubExpr.root e)).1

/-- A node is placed if it lies in the text, its children lie within it in order, and they are
placed. -/
theorem placed_of_children (hlies : e.span.Lies text)
    (horder : InOrder e.span.start e.span.stop (e.children.map Expr.span))
    (h : ∀ c ∈ e.children, Placed text c) : Placed text e := by
  intro n hn
  -- a node within is the node itself, or it is within one of the children
  cases hn with
  | root => exact ⟨hlies, horder⟩
  | inside hc hn => exact h _ hc n hn

/-- A literal has no children. -/
theorem placed_literalAt (h : span.Lies text) (value : Value) :
    Placed text (literalAt span value) :=
  placed_of_children h h.start_le_stop (by rintro c ⟨⟩)

theorem placed_identAt (h : span.Lies text) (name : String) : Placed text (identAt span name) :=
  placed_of_children h h.start_le_stop (by rintro c ⟨⟩)

/-- The expressions are placed, in order between two offsets. -/
structure AllPlaced (text : List Char) (first last : Nat) (es : List Expr) : Prop where
  placed : ∀ e ∈ es, Placed text e
  order : InOrder first last (es.map Expr.span)

/-- An expression that is placed between two offsets. -/
abbrev PlacedIn (text : List Char) (first last : Nat) (e : Expr) : Prop :=
  AllPlaced text first last [e]

/-- An expression within bounds, in parts. -/
theorem placedIn_iff : PlacedIn text first last e ↔
    Placed text e ∧ first ≤ e.span.start ∧ e.span.stop ≤ last := by
  constructor
  · rintro ⟨hplaced, hstart, -, hstop⟩
    exact ⟨hplaced e List.mem_cons_self, hstart, hstop⟩
  · rintro ⟨hplaced, hstart, hstop⟩
    refine ⟨fun e' he => ?_, hstart, hplaced.lies.start_le_stop, hstop⟩
    obtain rfl := List.mem_singleton.mp he
    exact hplaced

theorem AllPlaced.mono {first' last' : Nat} {es : List Expr} (hfirst : first' ≤ first)
    (hlast : last ≤ last') (h : AllPlaced text first last es) : AllPlaced text first' last' es :=
  ⟨h.placed, h.order.mono hfirst hlast⟩

/-- What a piece has in it is placed inside of a span. -/
def Piece.Placed (text : List Char) (span : Span) : Piece → Prop
  | .operand e => PlacedIn text span.start span.stop e
  | .invocation _ arguments => AllPlaced text span.start span.stop arguments
  | _ => True

/-- The tree of the part lies in the text, and what it means is placed inside of it. -/
structure Part.Placed (text : List Char) (p : Part) : Prop where
  lies : p.tree.span.Lies text
  piece : ∀ piece, p.meaning = .ok piece → piece.Placed text p.tree.span

/-- The parts are placed, in order between two offsets. -/
structure PartsPlaced (text : List Char) (first last : Nat) (parts : List Part) : Prop where
  placed : ∀ p ∈ parts, p.Placed text
  order : InOrder first last (parts.map fun p => p.tree.span)

theorem Part.Placed.expr {p : Part} (h : p.Placed text) (he : p.expr = .ok e) :
    PlacedIn text p.tree.span.start p.tree.span.stop e :=
  h.piece _ (Part.expr_eq_ok_iff.mp he)

namespace PartsPlaced

variable {p : Part} {rest : List Part}

theorem mono {first' last' : Nat} (hfirst : first' ≤ first) (hlast : last ≤ last')
    (h : PartsPlaced text first last parts) : PartsPlaced text first' last' parts :=
  ⟨h.placed, h.order.mono hfirst hlast⟩

/-- Behind the first part the others begin where it ends. -/
theorem head (h : PartsPlaced text first last (p :: rest)) :
    p.Placed text ∧ first ≤ p.tree.span.start ∧ PartsPlaced text p.tree.span.stop last rest :=
  ⟨h.placed p List.mem_cons_self, h.order.1,
    fun q hq => h.placed q (List.mem_cons_of_mem _ hq), h.order.2.2⟩

/-- Some of the parts are placed if all are. -/
theorem sublist {more : List Part} (hsub : parts.Sublist more)
    (h : PartsPlaced text first last more) : PartsPlaced text first last parts :=
  ⟨fun p hp => h.placed p (hsub.subset hp), h.order.sublist (hsub.map _)⟩

/-- What a part means is placed between the offsets, too. -/
theorem expr_of_mem (h : PartsPlaced text first last parts) (hp : p ∈ parts)
    (he : p.expr = .ok e) : PlacedIn text first last e := by
  have hbounds := h.order.bounds (List.mem_map_of_mem hp)
  exact ((h.placed p hp).expr he).mono hbounds.1 hbounds.2.2

/-- So the expressions of placed parts are placed, in their order. -/
theorem exprs {es : List Expr} (h : PartsPlaced text first last parts)
    (hes : Expr.exprs parts = .ok es) : AllPlaced text first last es := by
  induction parts generalizing es first with
  | nil =>
      obtain rfl := Except.ok.inj hes
      exact ⟨by simp, h.order⟩
  | cons p rest ih =>
      obtain ⟨hp, hstart, hrest⟩ := h.head
      obtain ⟨e, more, he, hmore, rfl⟩ := exprs_cons_eq_ok_iff.mp hes
      obtain ⟨hplaced, hfirst, hlast⟩ := placedIn_iff.mp (hp.expr he)
      have hall := ih hrest hmore
      exact ⟨List.forall_mem_cons.mpr ⟨hplaced, hall.placed⟩, hstart.trans hfirst,
        hplaced.lies.start_le_stop, hall.order.mono hlast (Nat.le_refl last)⟩

end PartsPlaced

/-! ## Chains -/

/-- Two placed expressions in order make a placed node that begins as the first one and ends as
the second one. -/
theorem placed_joined (operator : BinaryOperator) {left right : Expr} (hleft : Placed text left)
    (hright : Placed text right) (hle : left.span.stop ≤ right.span.start) :
    Placed text (joined operator left right)
      ∧ (joined operator left right).span.start = left.span.start
      ∧ (joined operator left right).span.stop = right.span.stop := by
  have hl := hleft.lies
  have hr := hright.lies
  have hstart := hl.start_le_stop.trans hle
  -- the join goes from the start of the left operand to the end of the right one
  have hspan : (joined operator left right).span
      = ⟨left.span.start, right.span.stop, left.span.line, left.span.column⟩ :=
    Span.merge_eq hstart (hle.trans hr.start_le_stop)
  have horder : InOrder left.span.start right.span.stop [left.span, right.span] :=
    ⟨Nat.le_refl _, hl.start_le_stop, hle, hr.start_le_stop, Nat.le_refl _⟩
  refine ⟨placed_of_children ?_ ?_ ?_, by rw [hspan], by rw [hspan]⟩
  · rw [hspan]
    exact ⟨hl.begins, hr.ends, hstart.trans hr.start_le_stop⟩
  · rw [hspan]
    exact horder
  · intro c hc
    rcases List.mem_cons.mp hc with rfl | hc
    · exact hleft
    · obtain rfl := List.mem_singleton.mp hc
      exact hright

/-- Brackets over terms in order are placed where the terms are. -/
theorem placed_fold (operator : BinaryOperator) {b : Bracketing Expr}
    (h : AllPlaced text first last b.terms) :
    PlacedIn text first last (b.fold (joined operator)) := by
  induction b generalizing first last with
  | term e => exact h
  | join left right ihl ihr =>
      obtain ⟨hplaced, horder⟩ := h
      rw [Bracketing.terms, List.map_append] at horder
      -- the terms are parted where the left half ends
      obtain ⟨middle, hleftOrder, hrightOrder⟩ := horder.split
      obtain ⟨hleft, hstart, hmiddle⟩ := placedIn_iff.mp
        (ihl ⟨fun e he => hplaced e (List.mem_append_left _ he), hleftOrder⟩)
      obtain ⟨hright, hmiddle', hstop⟩ := placedIn_iff.mp
        (ihr ⟨fun e he => hplaced e (List.mem_append_right _ he), hrightOrder⟩)
      obtain ⟨hjoined, hbegin, hend⟩ :=
        placed_joined operator hleft hright (hmiddle.trans hmiddle')
      exact placedIn_iff.mpr ⟨hjoined, hbegin ▸ hstart, hend ▸ hstop⟩

/-- A chain of connectives lies within the bounds of its parts. -/
theorem placed_logicalChain {operator : BinaryOperator} {rule : Rule}
    (hparts : PartsPlaced text first last parts)
    (he : logicalChain span operator rule parts = .ok e) : PlacedIn text first last e := by
  have hterms : PartsPlaced text first last (terms rule parts) :=
    hparts.sublist List.filter_sublist
  obtain ⟨head, rest, hexprs, rfl, -⟩ := logicalChain_cases he
  rw [balance_eq_fold]
  refine placed_fold operator ?_
  rw [Bracketing.terms_halved]
  exact hterms.exprs hexprs

/-- What has been joined so far ends where its last operand does, in front of the next operator. -/
theorem placed_leaning {left : Expr} (hleft : Placed text left) (hfirst : first ≤ left.span.start)
    (hparts : PartsPlaced text left.span.stop last parts) (he : Leaning left parts e) :
    PlacedIn text first last e := by
  induction he with
  | done left => exact placedIn_iff.mpr ⟨hleft, hfirst, hparts.order⟩
  | @more left right e operatorPart rightPart rest operator hmeaning _ _ ih =>
      obtain ⟨hoperatorPart, hstart, hmore⟩ := hparts.head
      obtain ⟨hrightPart, hstart', hrest⟩ := hmore.head
      obtain ⟨hright, hfirst', hlast'⟩ := placedIn_iff.mp (hrightPart.expr hmeaning)
      -- the operator stands between the operands
      have hle : left.span.stop ≤ right.span.start :=
        (hstart.trans hoperatorPart.lies.start_le_stop).trans (hstart'.trans hfirst')
      obtain ⟨hplaced, hbegin, hend⟩ := placed_joined operator hleft hright hle
      refine ih hplaced (hbegin ▸ hfirst) ?_
      exact hrest.mono (hend ▸ hlast') (Nat.le_refl last)

theorem placed_arithmeticChain (hparts : PartsPlaced text first last parts)
    (he : arithmeticChain span parts = .ok e) : PlacedIn text first last e := by
  obtain ⟨head, rest, left, rfl, hleft, hleaning⟩ := arithmeticChain_cases he
  obtain ⟨hhead, hstart, hrest⟩ := hparts.head
  obtain ⟨hplaced, hfirst, hlast⟩ := placedIn_iff.mp (hhead.expr hleft)
  exact placed_leaning hplaced (hstart.trans hfirst) (hrest.mono hlast (Nat.le_refl last)) hleaning

/-! ## Operators in front -/

/-- An operator in front of an operand within a span takes all of the span. -/
theorem placed_unaryAt (operator : UnaryOperator) (hspan : span.Lies text)
    (h : PlacedIn text span.start span.stop e) :
    PlacedIn text span.start span.stop (unaryAt span operator e) :=
  placedIn_iff.mpr ⟨placed_of_children hspan h.order h.placed, Nat.le_refl _, Nat.le_refl _⟩

/-- So do several, each of which takes the same span. -/
theorem placed_applyAll {operators : List UnaryOperator} {operand : Expr} (hspan : span.Lies text)
    (h : PlacedIn text span.start span.stop operand)
    (he : applyAll span operators operand = .ok e) : PlacedIn text span.start span.stop e := by
  induction operators generalizing operand with
  | nil =>
      obtain rfl := Except.ok.inj he
      exact h
  | cons operator rest ih =>
      exact ih (placed_unaryAt operator hspan h) (applyAll_cons_cases he).2

/-- An operand with its operators lies within the span of its tree. -/
theorem placed_fronted (hspan : span.Lies text)
    (hparts : PartsPlaced text span.start span.stop parts) (he : fronted span parts = .ok e) :
    PlacedIn text span.start span.stop e := by
  cases fronted_cases he with
  | operand hlast _ hinner happlied =>
      exact placed_applyAll hspan (hparts.expr_of_mem (mem_of_operand hlast) hinner) happlied
  | number _ hsigned happlied =>
      -- a number takes the span of its sign
      obtain ⟨_, _, -, -, hnumber⟩ := of_signedNumber hsigned
      obtain ⟨value, rfl⟩ := literal_of_negatedLiteral hnumber
      refine placed_applyAll hspan ?_ happlied
      exact placedIn_iff.mpr ⟨placed_literalAt hspan value, Nat.le_refl _, Nat.le_refl _⟩

/-! ## Members -/

/-- A node over an operand and what stands behind it in the suffix. -/
theorem placed_behind {operand : Expr} {place : Span} {behind : List Expr}
    (hoperand : Placed text operand) (hplace : place.Lies text)
    (hle : operand.span.stop ≤ place.start)
    (hbehind : AllPlaced text place.start place.stop behind)
    (hspan : e.span = operand.span.merge place) (hchildren : e.children = operand :: behind) :
    Placed text e ∧ e.span.start = operand.span.start ∧ e.span.stop = place.stop := by
  have ho := hoperand.lies
  have hstart := ho.start_le_stop.trans hle
  have hstop := hle.trans hplace.start_le_stop
  rw [Span.merge_eq hstart hstop] at hspan
  -- from the start of the operand to the end of what is behind it
  refine ⟨placed_of_children ?_ ?_ ?_, by rw [hspan], by rw [hspan]⟩
  · rw [hspan]
    exact ⟨ho.begins, hplace.ends, hstart.trans hplace.start_le_stop⟩
  · rw [hspan, hchildren]
    exact ⟨Nat.le_refl _, ho.start_le_stop, hbehind.order.mono hle (Nat.le_refl _)⟩
  · rw [hchildren]
    exact List.forall_mem_cons.mpr ⟨hoperand, hbehind.placed⟩

/-- A selection or a call goes from its operand to the end of its suffix. -/
theorem placed_suffixed {operand : Expr} {p : Part} (hoperand : Placed text operand)
    (hp : p.Placed text) (hle : operand.span.stop ≤ p.tree.span.start)
    (he : Suffixed operand p e) :
    Placed text e ∧ e.span.start = operand.span.start ∧ e.span.stop = p.tree.span.stop := by
  cases he with
  | selection =>
      have hnone : AllPlaced text p.tree.span.start p.tree.span.stop [] :=
        ⟨by simp, hp.lies.start_le_stop⟩
      exact placed_behind hoperand hp.lies hle hnone rfl rfl
  | invocation hmeaning =>
      exact placed_behind hoperand hp.lies hle (hp.piece _ hmeaning) rfl rfl

/-- So a chain of suffixes is placed. -/
theorem placed_suffixes {operand : Expr} (hoperand : Placed text operand)
    (hfirst : first ≤ operand.span.start) (hparts : PartsPlaced text operand.span.stop last parts)
    (he : suffixes operand parts = .ok e) : PlacedIn text first last e := by
  induction parts generalizing operand with
  | nil =>
      obtain rfl := Except.ok.inj he
      exact placedIn_iff.mpr ⟨hoperand, hfirst, hparts.order⟩
  | cons p rest ih =>
      obtain ⟨hp, hle, hrest⟩ := hparts.head
      obtain ⟨node, hnode, hmore⟩ := suffixes_cons_cases he
      obtain ⟨hplaced, hbegin, hend⟩ := placed_suffixed hoperand hp hle hnode
      exact ih hplaced (hbegin ▸ hfirst) (hend ▸ hrest) hmore

theorem placed_memberOf (hparts : PartsPlaced text first last parts)
    (he : memberOf span parts = .ok e) : PlacedIn text first last e := by
  obtain ⟨head, rest, operand, rfl, hoperand, hsuffixes⟩ := memberOf_cases he
  obtain ⟨hhead, hstart, hrest⟩ := hparts.head
  obtain ⟨hplaced, hfirst, hlast⟩ := placedIn_iff.mp (hhead.expr hoperand)
  exact placed_suffixes hplaced (hstart.trans hfirst) (hrest.mono hlast (Nat.le_refl last))
    hsuffixes

/-! ## Trees -/

/-- The arguments of a call lie within the bounds of its parts. -/
theorem arguments_placed {name : String} {es : List Expr}
    (hparts : PartsPlaced text first last parts)
    (hes : nameAndArguments span parts = .ok (name, es)) : AllPlaced text first last es := by
  obtain ⟨head, arguments, rfl, hexprs⟩ := nameAndArguments_cases hes
  exact (hparts.sublist (List.sublist_cons_self _ _)).exprs hexprs

/-- A node over expressions in order inside of a span. -/
theorem placed_over {es : List Expr} (hspan : span.Lies text)
    (h : AllPlaced text span.start span.stop es) (he : e.span = span)
    (hchildren : e.children = es) :
    PlacedIn text span.start span.stop e := by
  subst he hchildren
  exact placedIn_iff.mpr ⟨placed_of_children hspan h.order h.placed, Nat.le_refl _, Nat.le_refl _⟩

/-- What a node means is placed inside of it, if this holds of its children. -/
theorem placed_ofNode {rule : Rule} (hspan : span.Lies text)
    (hparts : PartsPlaced text span.start span.stop parts) {piece : Piece}
    (hpiece : ofNode rule span parts = .ok piece) : piece.Placed text span := by
  cases ofNode_cases hpiece with
  | @passed p _ hp hmeaning =>
      -- what lies inside of a child lies inside of the node
      have hplaced := (hparts.placed p hp).piece piece hmeaning
      obtain ⟨hstart, -, hstop⟩ := hparts.order.bounds (List.mem_map_of_mem hp)
      cases piece with
      | operand e => exact hplaced.mono hstart hstop
      | invocation name arguments => exact hplaced.mono hstart hstop
      | between | before | selection | theEnd => trivial
  | logical he => exact placed_logicalChain hparts he
  | arithmetic he => exact placed_arithmeticChain hparts he
  | signed he => exact placed_fronted hspan hparts he
  | member he => exact placed_memberOf hparts he
  | selection => trivial
  | invocation hnamed => exact arguments_placed hparts hnamed
  | call hnamed _ => exact placed_over hspan (arguments_placed hparts hnamed) rfl rfl
  | list hexprs _ => exact placed_over hspan (hparts.exprs hexprs) rfl rfl

/-- What a token means has the place of the token. -/
theorem placed_ofToken {rule : Rule} {taken : List Char} (hspan : span.Lies text) {piece : Piece}
    (hpiece : ofToken rule span taken = .ok piece) : piece.Placed text span := by
  cases piece with
  | operand e =>
      rcases leaf_of_ofToken hpiece with ⟨value, rfl⟩ | ⟨name, rfl⟩
      · exact placedIn_iff.mpr ⟨placed_literalAt hspan value, Nat.le_refl _, Nat.le_refl _⟩
      · exact placedIn_iff.mpr ⟨placed_identAt hspan name, Nat.le_refl _, Nat.le_refl _⟩
  | between | before | selection | theEnd => trivial
  | invocation function arguments => exact absurd hpiece (ofToken_ne_invocation function arguments)

mutual

/-- What a tree means is placed inside of it, if the tree fits the text. -/
theorem placed_meaning {t : Tree} (h : t.Fits text) : (Part.mk t (meaning t)).Placed text := by
  refine ⟨h.lies, fun piece hpiece => ?_⟩
  cases t with
  | token rule span taken => exact placed_ofToken h.lies hpiece
  | node rule span children =>
      rw [meaning] at hpiece
      cases h with
      | node hspan horder hchildren =>
          refine placed_ofNode hspan ⟨placed_meanings hchildren, ?_⟩ hpiece
          rw [meanings_eq_map, List.map_map]
          exact horder
termination_by structural t

/-- All parts below a tree are placed. -/
theorem placed_meanings {ts : List Tree} (h : ∀ t ∈ ts, t.Fits text) :
    ∀ p ∈ meanings ts, p.Placed text := by
  cases ts with
  | nil => simp [meanings]
  | cons t rest =>
      obtain ⟨ht, hrest⟩ := List.forall_mem_cons.mp h
      rw [meanings]
      exact List.forall_mem_cons.mpr ⟨placed_meaning ht, placed_meanings hrest⟩
termination_by structural ts

end

/-- What is parsed is placed in its text. -/
theorem placed_of_parse {source : String} (he : Expr.parse source = .ok e) :
    Placed source.toList e := by
  obtain ⟨-, tree, htree, hmeaning⟩ := parse_eq_ok_iff.mp he
  exact (placedIn_iff.mp ((placed_meaning (fits_of_readProgram htree)).expr hmeaning)).1

/-! ## Spans of what is parsed -/

/-- What the span of a node says of its source: a stretch between two character boundaries, the line
and the column of its beginning, and the children inside of it one behind the other. -/
structure WellPlaced (source : String) (n : Expr) : Prop where
  start_le_stop : n.span.start ≤ n.span.stop
  stop_le_size : n.span.stop ≤ source.utf8ByteSize
  start_valid : String.Pos.Raw.IsValid source ⟨n.span.start⟩
  stop_valid : String.Pos.Raw.IsValid source ⟨n.span.stop⟩
  place : ∃ before behind, source = before ++ behind ∧ before.utf8ByteSize = n.span.start
    ∧ n.span.line = 1 + before.toList.count '\n'
    ∧ n.span.column = 1 + sinceLineFeed before.toList
  inside : ∀ c ∈ n.children, n.span.start ≤ c.span.start ∧ c.span.stop ≤ n.span.stop
  disjoint : n.children.Pairwise fun a b => a.span.stop ≤ b.span.start

/-- A place in a text by what stands in front of it. -/
theorem exists_before {source : String} {p : Position} (h : p.Within source.toList) :
    ∃ before behind, source = before ++ behind ∧ before.utf8ByteSize = p.offset
      ∧ p.line = 1 + before.toList.count '\n' ∧ p.column = 1 + sinceLineFeed before.toList := by
  obtain ⟨before, behind, htext, rfl⟩ := h
  refine ⟨String.ofList before, String.ofList behind, ?_, ?_⟩
  · rw [← String.ofList_append, ← htext, String.ofList_toList]
  · rw [Position.start_advanceBy, String.toList_ofList]
    exact ⟨rfl, rfl, rfl⟩

/-- A position within a text is one between two of its characters. -/
theorem isValid_of_within {source : String} {p : Position} (h : p.Within source.toList) :
    String.Pos.Raw.IsValid source ⟨p.offset⟩ := by
  obtain ⟨before, behind, rfl, hsize, -⟩ := exists_before h
  refine String.Pos.Raw.isValid_iff_exists_append.mpr ⟨before, behind, rfl, ?_⟩
  rw [← hsize]
  rfl

/-- **Spans are well formed.** Every node of what is parsed lies between two character boundaries
of the source, with the line and the column of its beginning, and holds its children, the receiver
first, in their order without overlap. -/
theorem spans_of_parse {source : String} (h : Expr.parse source = .ok e) :
    ∀ n, SubExpr n e → WellPlaced source n := by
  intro n hn
  obtain ⟨⟨hbegins, ⟨p, hstop, hends⟩, hle⟩, horder⟩ := placed_of_parse h n hn
  have hvalid := isValid_of_within hends
  rw [hstop] at hvalid
  refine ⟨hle, hvalid.le_rawEndPos, isValid_of_within hbegins, hvalid, exists_before hbegins,
    fun c hc => ?_, List.pairwise_map.mp horder.pairwise⟩
  obtain ⟨hstart, -, hend⟩ := horder.bounds (List.mem_map_of_mem hc)
  exact ⟨hstart, hend⟩

/-- A comparison over two lines with a comment between them, a character of two bytes in front. -/
theorem spans_of_parse_lines :
    ∃ e, Expr.parse "'é' == // x\n  a.f(-1, b)" = .ok e
      ∧ e.children.map Expr.span = [⟨0, 4, 1, 1⟩, ⟨15, 25, 2, 3⟩]
      ∧ ∀ n, SubExpr n e → WellPlaced "'é' == // x\n  a.f(-1, b)" n := by
  have hspans : (Expr.parse "'é' == // x\n  a.f(-1, b)").toOption.map
      (fun e => e.children.map Expr.span) = some [⟨0, 4, 1, 1⟩, ⟨15, 25, 2, 3⟩] := by
    decide +kernel
  rcases hparse : Expr.parse "'é' == // x\n  a.f(-1, b)" with err | e
  · rw [hparse] at hspans
    cases hspans
  · rw [hparse] at hspans
    exact ⟨e, rfl, Option.some.inj hspans, spans_of_parse hparse⟩

end Expr

end RowFilter
