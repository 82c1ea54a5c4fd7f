/-
What is printed is parsed.

A printed expression passes the first stage, since every bracket in it is one that the scan sees,
and the literals show it none (`Printable.sees`); it is derived by the grammar, as it is legible
all the way down (`Printable.legible`); and its tree means the expression.
-/
import RowFilter.Expr.Parse
import RowFilter.Proofs.Expr.Legible
import RowFilter.Proofs.Grammar.Scanning

set_option autoImplicit false

namespace RowFilter.Expr

open Grammar
open Brackets (Context isBracket)
open Brackets.Context (Code special)
open Grammar.Phrase (Takes)

variable {e : Expr} {text first second : List Char} {I J K : Context → Prop}

/-! ## Legible all the way down -/

/-- What is printed is legible, if it is not too deep. -/
theorem Printable.legible (h : Printable e) (hdepth : e.depth ≤ maxTreeDepth) : Legible e := by
  -- the parts of a node are less deep than the node
  have hparts : ∀ {es : List Expr}, depthOver es ≤ maxTreeDepth →
      ∀ a ∈ es, a.depth ≤ maxTreeDepth := by
    intro es hes a ha
    have hless := depth_lt_depthOver ha
    omega
  induction h with
  | literal span hvalue => exact legible_literal span hvalue
  | ident span hname => exact legible_ident span hname
  | select span _ hfield ih =>
      exact legible_select span (ih (hparts hdepth _ (by simp))) hfield hdepth
  | binary span operator _ _ ihleft ihright =>
      exact legible_binary span operator (ihleft (hparts hdepth _ (by simp)))
        (ihright (hparts hdepth _ (by simp))) hdepth
  | unary span operator _ ih =>
      exact legible_unary span operator (ih (hparts hdepth _ (by simp))) hdepth
  | call span hfunction _ ih =>
      exact legible_call span hfunction (fun a ha => ih a ha (hparts hdepth a ha)) hdepth
  | method span _ hfunction _ ihreceiver ih =>
      exact legible_method span (ihreceiver (hparts hdepth _ (by simp))) hfunction
        (fun a ha => ih a ha (hparts hdepth a (List.mem_cons_of_mem _ ha))) hdepth
  | list span _ ih =>
      exact legible_list span (fun a ha => ih a ha (hparts hdepth a ha)) hdepth

/-! ## Brackets that are seen -/

/-- From contexts of one kind to contexts of another, the scan sees every bracket of the text. -/
def Sees (I J : Context → Prop) (text : List Char) : Prop :=
  ∀ k, I k → J (k.after text) ∧ k.seen text = text.filter isBracket

/-- What is seen in two texts is seen in both together. -/
theorem Sees.append (hfirst : Sees I J first) (hsecond : Sees J K second) :
    Sees I K (first ++ second) := by
  intro k hk
  obtain ⟨hmiddle, hseen⟩ := hfirst k hk
  obtain ⟨hlast, hseen'⟩ := hsecond _ hmiddle
  rw [Context.after_append, Context.seen_append, hseen, hseen', List.filter_append]
  exact ⟨hlast, rfl⟩

/-- A text may be asked to start where no literal letter stands. -/
theorem Sees.tighten (h : Sees (Code false) J text) : Sees (Code true) J text :=
  fun k hk => h k hk.loosen

theorem Sees.loosen (h : Sees I (Code true) text) : Sees I (Code false) text := by
  intro k hk
  obtain ⟨hlast, hseen⟩ := h k hk
  exact ⟨hlast.loosen, hseen⟩

/-- A bracket is seen, and no letter stands behind it. -/
theorem sees_bracket {c : Char} (hc : c ∈ ['(', ')', '[', ']']) :
    Sees (Code false) (Code true) [c] := by
  rintro ⟨mode, rawMark⟩ hk
  obtain rfl : mode = .code := hk.mode_eq
  simp only [List.mem_cons, List.not_mem_nil, or_false] at hc
  rcases hc with rfl | rfl | rfl | rfl <;> exact ⟨⟨rfl, fun _ => rfl⟩, rfl⟩

/-- What opens neither brackets nor literals is no bracket. -/
theorem isBracket_eq_false {c : Char} (h : c ∉ special) : isBracket c = false := by
  rw [Bool.eq_false_iff]
  intro hbracket
  have hspecial : isBracket c = true → c ∈ special := by
    simp only [isBracket, Brackets.isOpening, Brackets.isClosing, special, Bool.or_eq_true,
      beq_iff_eq, List.mem_cons, List.not_mem_nil, or_false]
    rintro ((rfl | rfl) | (rfl | rfl)) <;> simp
  exact h (hspecial hbracket)

/-- A text without such characters has nothing to see. -/
theorem sees_plain (h : ∀ c ∈ text, c ∉ special) : Sees (Code false) (Code false) text := by
  intro k hk
  obtain ⟨hlast, hseen⟩ := hk.after_plain h
  refine ⟨hlast, ?_⟩
  rw [hseen, eq_comm, List.filter_eq_nil_iff]
  exact fun c hc => Bool.eq_false_iff.mp (isBracket_eq_false (h c hc))

/-- That a text has none can be computed. -/
theorem not_special_of_all (h : (text.all fun c => !special.contains c) = true) :
    ∀ c ∈ text, c ∉ special := by
  intro c hc
  have hplain := List.all_eq_true.mp h c hc
  simpa using hplain

theorem sees_of_all (h : (text.all fun c => !special.contains c) = true) :
    Sees (Code false) (Code false) text :=
  sees_plain (not_special_of_all h)

/-- In brackets a text is seen, and the brackets are. -/
theorem sees_enclosed (h : Sees (Code true) (Code false) text) :
    Sees (Code false) (Code true) (enclosed text) :=
  (sees_bracket (by decide)).append (h.append (sees_bracket (by decide)))

theorem sees_name {name : List Char} (h : IsName name) : Sees (Code false) (Code false) name :=
  sees_plain (Pattern.not_mem_of_avoids rfl h)

/-! ### Literals show none -/

/-- A token that leads the scan along and has no brackets in it. -/
theorem sees_token {p : Pattern} (hleads : p.Leads I J) (hsplit : p.split? text = some (text, []))
    (hplain : ∀ c ∈ text, isBracket c = false) : Sees I J text := by
  intro k hk
  obtain ⟨hlast, hseen⟩ := hleads text text [] k hsplit hk
  refine ⟨hlast, ?_⟩
  rw [hseen, eq_comm, List.filter_eq_nil_iff]
  exact fun c hc => Bool.eq_false_iff.mp (hplain c hc)

/-- There is no bracket in an escape. -/
theorem IsHexEscape.not_isBracket {w : List Char} (h : IsHexEscape w) :
    ∀ c ∈ w, isBracket c = false := by
  obtain ⟨x, hx, width, n, rfl⟩ := h
  intro c hc
  rcases List.mem_cons.mp hc with rfl | hc
  · rfl
  · rcases List.mem_cons.mp hc with rfl | hc
    · simp only [List.mem_cons, List.not_mem_nil, or_false] at hx
      rcases hx with rfl | rfl <;> rfl
    · exact Bool.not_inj (Text.of_mem_hexPadded (fun c => !isBracket c) rfl hc)

/-- Nor is there one in a quoted literal of escapes. -/
theorem not_isBracket_of_escapes {pieces : List (List Char)} (h : ∀ w ∈ pieces, IsHexEscape w) :
    ∀ c ∈ '\x22' :: (pieces.flatten ++ ['\x22']), isBracket c = false := by
  intro c hc
  rcases List.mem_cons.mp hc with rfl | hc
  · rfl
  · rcases List.mem_append.mp hc with hc | hc
    · obtain ⟨w, hw, hc⟩ := List.mem_flatten.mp hc
      exact (h w hw).not_isBracket c hc
    · obtain rfl := List.mem_singleton.mp hc
      rfl

/-- A digit opens nothing. -/
theorem not_special_of_isDigit {c : Char} (hc : c.isDigit = true) : c ∉ special :=
  of_decide_eq_true (of_isDigit (fun d => d ∉ special) rfl hc)

/-- Literals that are not quoted have no characters of a special meaning. -/
theorem not_special_escaped {value : Value} (hvalue : value.kind ∉ [.double, .string, .bytes]) :
    ∀ c ∈ value.escaped, c ∉ special := by
  have hdigits : ∀ n, ∀ c ∈ Nat.toDigits 10 n, c ∉ special := fun n c hc =>
    not_special_of_isDigit (Numeral.isDigit_of_mem_toDigits hc)
  -- a word, or digits with a sign or a suffix
  cases value with
  | null => exact not_special_of_all rfl
  | boolean b => cases b <;> exact not_special_of_all rfl
  | int v =>
      rcases Int.lt_or_le v.toInt 0 with hv | hv
      · rw [escaped_negative hv]
        intro c hc
        rcases List.mem_append.mp hc with hc | hc
        · obtain rfl := List.mem_singleton.mp hc
          decide
        · exact hdigits _ c hc
      · rw [escaped_int hv]
        exact hdigits _
  | uint v =>
      rw [escaped_uint]
      intro c hc
      rcases List.mem_append.mp hc with hc | hc
      · exact hdigits _ c hc
      · obtain rfl := List.mem_singleton.mp hc
        decide
  | float v => exact absurd (List.mem_cons_self) hvalue
  | string v => exact absurd (by simp [Value.kind]) hvalue
  | bytes v => exact absurd (by simp [Value.kind]) hvalue

/-- Literals with an escape for every character have no brackets. -/
theorem not_isBracket_escaped {value : Value} (hvalue : value.kind ≠ .double) :
    ∀ c ∈ value.escaped, isBracket c = false := by
  -- the quoted literals consist of escapes
  by_cases hquoted : value.kind ∈ [ValueType.double, .string, .bytes]
  · cases value with
    | string v =>
        obtain ⟨pieces, hpieces, htext⟩ := escaped_string v
        rw [htext]
        exact not_isBracket_of_escapes hpieces
    | bytes v =>
        obtain ⟨pieces, hpieces, htext⟩ := escaped_bytes v
        rw [htext]
        intro c hc
        rcases List.mem_cons.mp hc with rfl | hc
        · rfl
        · exact not_isBracket_of_escapes hpieces c hc
    | float v => exact absurd rfl hvalue
    | null | boolean | int | uint => exact absurd hquoted (by simp [Value.kind])
  · exact fun c hc => isBracket_eq_false (not_special_escaped hquoted c hc)

/-- **Literals.** No bracket is in a printed literal, and the scan knows where a quoted one ends. -/
theorem sees_literal {value : Value} (hvalue : value.kind ≠ .double) :
    Sees (Code true) (Code false) value.escaped := by
  have hbrackets := not_isBracket_escaped hvalue
  -- only the quoted ones open something
  by_cases hquoted : value.kind ∈ [ValueType.double, .string, .bytes]
  · cases value with
    | string v =>
        obtain ⟨pieces, hpieces, htext⟩ := escaped_string v
        rw [htext] at hbrackets ⊢
        exact sees_token Pattern.leads_stringLiteral
          (string_pieces (fun w hw => (hpieces w hw).isPiece) []) hbrackets
    | bytes v =>
        obtain ⟨pieces, hpieces, htext⟩ := escaped_bytes v
        rw [htext] at hbrackets ⊢
        exact Sees.tighten (sees_token Pattern.leads_bytesLiteral
          (bytes_pieces (fun w hw => (hpieces w hw).isPiece) []) hbrackets)
    | float v => exact absurd rfl hvalue
    | null | boolean | int | uint => exact absurd hquoted (by simp [Value.kind])
  · exact (sees_plain (not_special_escaped hquoted)).tighten

/-! ### Nodes show their own -/

/-- Elements with commas between them are seen, and so are those behind a first one. -/
theorem sees_elements {es : List Expr} (h : ∀ e ∈ es, Sees (Code true) (Code false) e.print) :
    Sees (Code false) (Code false) (printAll es)
      ∧ Sees (Code false) (Code false) (printMore es) := by
  induction es with
  | nil => exact ⟨fun k hk => ⟨hk, rfl⟩, fun k hk => ⟨hk, rfl⟩⟩
  | cons e es ih =>
      have hfirst := (sees_enclosed (h e List.mem_cons_self)).loosen
      have hmore := hfirst.append (ih fun e he => h e (List.mem_cons_of_mem _ he)).2
      have hcomma : Sees (Code false) (Code false) [',', ' '] := sees_of_all rfl
      exact ⟨hmore, hcomma.append hmore⟩

/-- Every bracket of a printed expression is one that counts. -/
theorem Printable.sees (h : Printable e) : Sees (Code true) (Code false) e.print := by
  induction h with
  | literal span hvalue => exact sees_literal hvalue
  | ident span hname => exact (sees_name hname).tighten
  | select span _ hfield ih =>
      have hdot : Sees (Code false) (Code false) ['.'] := sees_of_all rfl
      exact ((sees_enclosed ih).loosen.append (hdot.append (sees_name hfield))).tighten
  | binary span operator _ _ ihleft ihright =>
      have hoperator : Sees (Code false) (Code true)
          (' ' :: (operator.symbol.toList ++ [' '])) := by
        rintro ⟨mode, rawMark⟩ hk
        -- blanks around it, so no letter stands in front of what follows
        obtain rfl : mode = .code := hk.mode_eq
        cases operator <;> exact ⟨⟨rfl, fun _ => rfl⟩, rfl⟩
      have hinside := ihleft.append (hoperator.append ihright)
      rw [List.cons_append, List.append_assoc] at hinside
      exact (sees_enclosed hinside).loosen.tighten
  | unary span operator _ ih =>
      have hoperator : Sees (Code true) (Code false) operator.symbol.toList := by
        refine (sees_of_all ?_).tighten
        cases operator <;> rfl
      exact (sees_enclosed (hoperator.append (sees_enclosed ih).loosen)).loosen.tighten
  | call span hfunction _ ih =>
      have harguments := sees_enclosed (sees_elements ih).1.tighten
      exact ((sees_name hfunction).append harguments.loosen).tighten
  | method span _ hfunction _ ihreceiver ih =>
      have hdot : Sees (Code false) (Code false) ['.'] := sees_of_all rfl
      have harguments := sees_enclosed (sees_elements ih).1.tighten
      exact ((sees_enclosed ihreceiver).loosen.append
        (hdot.append ((sees_name hfunction).append harguments.loosen))).tighten
  | list span _ ih =>
      have hopen : Sees (Code false) (Code true) ['['] := sees_bracket (by decide)
      have hclose : Sees (Code false) (Code true) [']'] := sees_bracket (by decide)
      exact (hopen.append ((sees_elements ih).1.tighten.append hclose)).loosen.tighten

/-! ### Texts without brackets that count -/

theorem scan_of_seen (h : Context.start.seen text = []) :
    Brackets.scan text = .ok () := by
  rw [Brackets.scan_eq_ok_iff, h]
  decide

/-- A text starts as code, with no letter in front. -/
theorem code_start : Code true Context.start := ⟨rfl, fun _ => rfl⟩

/-- A text of characters that open nothing passes the scan. -/
theorem scan_of_plain (h : ∀ c ∈ text, c ∉ special) :
    Brackets.scan text = .ok () :=
  scan_of_seen (code_start.loosen.after_plain h).2

/-! ## Programs -/

/-- A program gives what the expression in it gives. -/
theorem GivesInside.ofTree {P : Except ParseError Expr → Prop} {trees : List Tree}
    (h : GivesInside P trees) (span last : Span) :
    P (ofTree (.node .program span (trees ++ [.token .endOfInput last []]))) := by
  obtain ⟨t, result, rfl, ht, hmeaning, hresult⟩ := h
  have hfound : (meanings ([t] ++ [.token .endOfInput last []])).find?
      (fun p => p.tree.rule = .expression) = some ⟨t, meaning t⟩ :=
    List.find?_cons_of_pos (by simpa using ht)
  have hnode : meaning (.node .program span ([t] ++ [.token .endOfInput last []]))
      = result.map Piece.operand := by
    rw [meaning, ofNode, hfound]
    exact hmeaning
  rw [Expr.ofTree, expr_of_meaning hnode]
  exact hresult

/-- A text that is read as an expression to its end is a program that gives the same. -/
theorem readProgram_of_takes {P : Except ParseError Expr → Prop}
    (hsettled : (Pattern.alt blank comment).split? text = none)
    (h : Takes .expression text [] (GivesInside P)) :
    ∃ tree, readProgram text = .ok tree ∧ P (ofTree tree) := by
  rw [← unlaid_of_settled hsettled] at h
  obtain ⟨span, inner, last, htree, hinner⟩ := h.readProgram
  exact ⟨_, htree, hinner.ofTree span last⟩

/-- **Parsing an operand.** A text that is read as an operand to its end, and does not nest
brackets too deep, is parsed with the result that the operand gives. -/
theorem parse_of_takes {P : Except ParseError Expr → Prop} (hP : Bounded P)
    (hsettled : (Pattern.alt blank comment).split? text = none)
    (hscan : Brackets.scan text = .ok ()) (h : Takes Phrase.unary text [] (Gives P)) :
    P (Expr.parse (String.ofList text)) := by
  have hend : Closed [] := by rintro c ⟨⟩
  obtain ⟨tree, htree, hresult⟩ :=
    readProgram_of_takes hsettled (takes_inside_gives (takes_loosest_gives h hend hP))
  rw [Expr.parse, String.toList_ofList, hscan]
  dsimp only
  rw [htree]
  exact hresult

/-- An operand that is all of a text is the expression that is parsed. -/
theorem parse_of_means (hdepth : e.depth ≤ maxTreeDepth)
    (hsettled : (Pattern.alt blank comment).split? text = none)
    (hscan : Brackets.scan text = .ok ()) (h : Takes Phrase.unary text [] (Means e)) :
    IsLike e (Expr.parse (String.ofList text)) :=
  parse_of_takes (bounded_isLike hdepth) hsettled hscan (h.mono fun _ => means_iff_gives.mp)

/-- A legible expression is parsed from its text, if the brackets allow it. -/
theorem Legible.parse (h : Legible e) (hscan : Brackets.scan e.print = .ok ()) :
    IsLike e (Expr.parse (String.ofList e.print)) := by
  have hend : Closed [] := by rintro c ⟨⟩
  have hsettled := h.settled []
  have htakes := h.takes hend.follows
  rw [List.append_nil] at hsettled htakes
  exact parse_of_means h.bounded hsettled hscan htakes

/-- **What is printed is parsed.** An expression that is not too deep, and whose printed text does
not nest brackets too deep, is read back from that text, at other places perhaps. -/
theorem parse_print (h : Printable e) (hdepth : e.depth ≤ maxTreeDepth)
    (hnesting : Brackets.deepest (e.print.filter isBracket) ≤ Brackets.maxNesting) :
    ∃ e', Expr.parse (String.ofList e.print) = .ok e' ∧ Alike e' e := by
  refine (h.legible hdepth).parse ?_
  rw [Brackets.scan_eq_ok_iff, (h.sees Context.start code_start).2]
  exact hnesting

/-- A call on a selection next to a negated call, with a list, a signed number and a string among
the arguments. -/
def sample : Expr :=
  binaryAt default .equal
    (methodAt default (selectAt default (identAt default "user") "name") "join"
      [literalAt default (.int (-7)), literalAt default (.string "x")])
    (unaryAt default .not
      (callAt default "size"
        [listAt default [literalAt default .null, literalAt default (.uint 3)]]))

/-- Its names are names, and it has no double. -/
theorem printable_sample : Printable sample := by
  refine .binary _ _ (.method _ (.select _ (.ident _ rfl) rfl) rfl ?_) (.unary _ _ (.call _ rfl ?_))
  · intro a ha
    simp only [List.mem_cons, List.not_mem_nil, or_false] at ha
    rcases ha with rfl | rfl <;> exact .literal _ (by decide)
  · intro a ha
    obtain rfl := List.mem_singleton.mp ha
    refine .list _ fun b hb => ?_
    simp only [List.mem_cons, List.not_mem_nil, or_false] at hb
    rcases hb with rfl | rfl <;> exact .literal _ (by decide)

/-- The bounds hold of the sample, and so it is read back. -/
theorem parse_print_sample : Printable sample ∧ sample.depth ≤ maxTreeDepth
    ∧ Brackets.deepest (sample.print.filter isBracket) ≤ Brackets.maxNesting
    ∧ ∃ e', Expr.parse (String.ofList sample.print) = .ok e' ∧ Alike e' sample := by
  have hdepth : sample.depth ≤ maxTreeDepth := by decide
  have hnesting : Brackets.deepest (sample.print.filter isBracket) ≤ Brackets.maxNesting := by
    decide
  exact ⟨printable_sample, hdepth, hnesting, parse_print printable_sample hdepth hnesting⟩

end RowFilter.Expr
