/-
Literals, names and brackets.

The alternatives for an operand without suffixes are tried in their order: a call, a list, an
expression in brackets, a literal, a name. For each kind of text that the printer writes it is
shown that the alternatives in front of the right one fail, and what the right one finds. Of the
texts inside brackets all that is needed is that they are read as expressions (`Legible`).
-/
import RowFilter.Proofs.Expr.Operands

set_option autoImplicit false

namespace RowFilter.Expr

open Grammar
open Grammar.Phrase (Takes Fails Joined Repeats takes_token fails_token takes_mark)

variable {text tail behind : List Char} {e : Expr}

/-! ## How texts begin -/

/-- The text begins with neither layout nor an operator. -/
def Opens (text : List Char) : Prop :=
  ∃ c rest, text = c :: rest ∧ (Pattern.alt blank comment).rejects c = true
    ∧ Phrase.frontOperator.rejects c = true

theorem Opens.settled (h : Opens text) : (Pattern.alt blank comment).split? text = none := by
  obtain ⟨c, rest, rfl, hlayout, -⟩ := h
  exact Pattern.split?_of_rejects hlayout rest

theorem Opens.unlaid_eq (h : Opens text) : unlaid text = text := unlaid_of_settled h.settled

/-- No operator stands there. -/
theorem Opens.fails_front (h : Opens text) : Fails Phrase.frontOperator text := by
  obtain ⟨c, rest, rfl, -, hfront⟩ := h
  exact Phrase.fails_of_rejects hfront rest

theorem Opens.append (h : Opens text) (rest : List Char) : Opens (text ++ rest) := by
  obtain ⟨c, more, rfl, hc⟩ := h
  exact ⟨c, more ++ rest, rfl, hc⟩

theorem opens_enclosed (text : List Char) : Opens (enclosed text) :=
  ⟨'(', _, rfl, rfl, rfl⟩

/-- So does a name. -/
theorem opens_name {name : List Char} (h : IsName name) : Opens name := by
  obtain ⟨-, c, more, rfl, hc, -⟩ := h.cases
  refine ⟨c, more, rfl, ?_⟩
  have hne : ∀ d : Char, (d.isAlpha || d == '_') = false → d ≠ c := fun d => ne_of_isNameStart hc
  have hblank := (hne ' ' rfl).symm
  have htab := (hne '\t' rfl).symm
  have hreturn := (hne '\r' rfl).symm
  have hline := (hne '\n' rfl).symm
  constructor
  · simp [blank, comment, Pattern.rejects, hblank, htab, hreturn, hline, hne '/' rfl]
  · simp [Phrase.frontOperator, Phrase.first, Phrase.operator, Phrase.rejects, Pattern.rejects,
      hne '!' rfl, hne '-' rfl]

theorem opens_digits {ds rest : List Char} (h : Digits ds rest) : Opens ds := by
  obtain ⟨d, more, rfl⟩ := List.exists_cons_of_ne_nil h.nonempty
  have hd : d.isDigit = true := h.all d List.mem_cons_self
  exact ⟨d, more, rfl, of_isDigit (Pattern.alt blank comment).rejects rfl hd,
    of_isDigit Phrase.frontOperator.rejects rfl hd⟩

/-! ## Literals -/

/-- What is no name is no call. -/
theorem fails_call (h : identifier.split? text = none) : Fails Phrase.globalCall text :=
  (fails_token h).seq.rule

/-- A text that is no call, no list and no expression in brackets is read as a literal. -/
theorem takes_literal {c : Char} {rest : List Char} {P : List Tree → Prop}
    (hcall : Fails Phrase.globalCall (c :: rest)) (hlist : Phrase.listLiteral.rejects c = true)
    (hround : (Phrase.mark '(').rejects c = true)
    (h : Takes Phrase.literal (c :: rest) behind P) : Takes Phrase.primary (c :: rest) behind P :=
  hcall.alt ((Phrase.fails_of_rejects hlist rest).alt
    ((Phrase.fails_of_rejects hround rest).seq.alt h.alt))

/-- A token means the literal that it is read as. -/
theorem means_token {rule : Rule} {taken : List Char} {value : Value} (place : Span)
    (hrule : rule ∉ operatorRules)
    (h : ∀ span, ofToken rule span taken = .ok (.operand (literalAt span value))) (span : Span) :
    Means (literalAt place value) [.token rule span taken] :=
  ⟨_, literalAt span value, rfl, hrule, h span, rfl⟩

/-- **Null.** -/
theorem takes_null (place : Span) (htail : Stopped tail) :
    Takes Phrase.primary ("null".toList ++ tail) (unlaid tail) (Means (literalAt place .null)) := by
  have hname : identifier.split? ("null".toList ++ tail) = none := by
    rw [split?_stopped rfl rfl htail]
    rfl
  have hnull : (word "null").split? ("null".toList ++ tail) = some ("null".toList, tail) := by
    rw [split?_stopped rfl rfl htail]
    rfl
  refine takes_literal (fails_call hname) rfl rfl ?_
  exact (takes_token hnull (means_token place (by decide) fun _ => rfl)).alt

/-- **Booleans.** Both words are reserved, so neither is read as a name. -/
theorem takes_boolean (place : Span) (b : Bool) (htail : Stopped tail) :
    Takes Phrase.primary ((Value.boolean b).escaped ++ tail) (unlaid tail)
      (Means (literalAt place (.boolean b))) := by
  have hname : identifier.split? ((Value.boolean b).escaped ++ tail) = none := by
    rw [split?_stopped rfl rfl htail]
    cases b <;> rfl
  have hboolean : booleanLiteral.split? ((Value.boolean b).escaped ++ tail)
      = some ((Value.boolean b).escaped, tail) := by
    rw [split?_stopped rfl rfl htail]
    cases b <;> rfl
  have hmeans : ∀ span, Means (literalAt place (.boolean b))
      [.token .litBoolean span (Value.boolean b).escaped] := by
    refine means_token place (by decide) fun _ => ?_
    cases b <;> rfl
  have htoken := takes_token hboolean hmeans
  -- the two words are tried one after the other
  cases b with
  | false => exact takes_literal (fails_call hname) rfl rfl ((fails_token rfl).alt htoken.alt)
  | true => exact takes_literal (fails_call hname) rfl rfl ((fails_token rfl).alt htoken.alt)

/-! ### Numbers -/

/-- A printed number is a run of digits where no further digit follows. -/
theorem digits_toDigits {n : Nat} (hstop : ∀ c ∈ tail.head?, c.isDigit = false) :
    Digits (Nat.toDigits 10 n) tail where
  nonempty h := by
    have hlength := Nat.length_toDigits_pos (b := 10) (n := n)
    rw [h] at hlength
    cases hlength
  all c hc := Numeral.isDigit_of_mem_toDigits hc
  stop := hstop

theorem opens_toDigits (n : Nat) : Opens (Nat.toDigits 10 n) := by
  have hdigits : Digits (Nat.toDigits 10 n) [] := digits_toDigits (by rintro c ⟨⟩)
  exact opens_digits hdigits

/-- An unsigned integer is printed with its suffix. -/
theorem escaped_uint (v : UInt64) : (Value.uint v).escaped = Nat.toDigits 10 v.toNat ++ ['u'] :=
  congrArg (· ++ ['u']) Nat.toList_repr

/-- An integer that is not negative is printed as digits. -/
theorem escaped_int {v : Int64} (hv : 0 ≤ v.toInt) :
    (Value.int v).escaped = Nat.toDigits 10 v.toInt.natAbs := by
  show (Text.decimal v.toInt).toList = _
  rw [Text.decimal, if_neg (by omega), Nat.toList_repr]

/-- A negative one is printed with a sign in front of its digits. -/
theorem escaped_negative {v : Int64} (hv : v.toInt < 0) : (Value.int v).escaped
    = UnaryOperator.negate.symbol.toList ++ Nat.toDigits 10 v.toInt.natAbs := by
  show (Text.decimal v.toInt).toList = _
  rw [Text.decimal, if_pos hv, String.toList_append, Nat.toList_repr]
  rfl

/-- What begins with digits is a number, of one kind or another. -/
theorem takes_literal_of_digits {ds rest : List Char} {P : List Tree → Prop} (h : Digits ds rest)
    (htakes : Takes (.alt (.token .litDouble doubleLiteral) (.alt (.token .litUint uintLiteral)
      (.token .litInt intLiteral))) (ds ++ rest) behind P) :
    Takes Phrase.primary (ds ++ rest) behind P := by
  have hliteral : Takes Phrase.literal (ds ++ rest) behind P :=
    (fails_token (h.rejected (by decide))).alt ((fails_token (h.rejected (by decide))).alt
      ((fails_token (h.rejected (by decide))).alt ((fails_token (h.rejected (by decide))).alt
        htakes)))
  have hname : identifier.split? (ds ++ rest) = none := h.rejected (by decide)
  obtain ⟨d, more, rfl⟩ := List.exists_cons_of_ne_nil h.nonempty
  have hd : d.isDigit = true := h.all d List.mem_cons_self
  exact takes_literal (fails_call hname) (of_isDigit Phrase.listLiteral.rejects rfl hd)
    (of_isDigit (Phrase.mark '(').rejects rfl hd) hliteral

/-- Digits where a token ends are an integer, and nothing before it. -/
theorem takes_digits {n : Nat} {P : List Tree → Prop} (htail : Stopped tail)
    (hP : ∀ span, P [.token .litInt span (Nat.toDigits 10 n)]) :
    Takes Phrase.primary (Nat.toDigits 10 n ++ tail) (unlaid tail) P := by
  have hdigits : Digits (Nat.toDigits 10 n) tail :=
    digits_toDigits fun c hc => Bool.not_inj (of_stopped htail (fun c => !c.isDigit) rfl c hc)
  have hletter : ∀ c ∈ tail.head?, (letter 'x' 'X').rejects c = true :=
    of_stopped htail (letter 'x' 'X').rejects rfl
  have hdouble := hdigits.not_double (of_stopped htail (Pattern.char '.').rejects rfl)
    (of_stopped htail exponent.rejects rfl)
  have huint := hdigits.not_uint hletter (of_stopped htail (letter 'u' 'U').rejects rfl)
  exact takes_literal_of_digits hdigits ((fails_token hdouble).alt ((fails_token huint).alt
    (takes_token (hdigits.int hletter) hP)))

/-- **Unsigned integers.** -/
theorem takes_uint (place : Span) (v : UInt64) (tail : List Char) :
    Takes Phrase.primary ((Value.uint v).escaped ++ tail) (unlaid tail)
      (Means (literalAt place (.uint v))) := by
  have hdigits : Digits (Nat.toDigits 10 v.toNat) ('u' :: tail) :=
    digits_toDigits (by rintro c ⟨⟩; rfl)
  -- the suffix keeps it from being a double
  have hdouble := hdigits.not_double (by rintro c ⟨⟩; rfl) (by rintro c ⟨⟩; rfl)
  have hvalue : Numeral.uint? (Nat.toDigits 10 v.toNat ++ ['u']) = some v := by
    rw [Numeral.uint?_toDigits v.toNat_lt, UInt64.ofNat_toNat]
  have hmeans : ∀ span, Means (literalAt place (.uint v))
      [.token .litUint span (Nat.toDigits 10 v.toNat ++ ['u'])] :=
    means_token place (by decide) fun span => congrArg (literalPiece span .uint _) hvalue
  rw [escaped_uint, List.append_assoc]
  exact takes_literal_of_digits hdigits ((fails_token hdouble).alt
    (takes_token hdigits.uint hmeans).alt)

/-- An integer that is not negative is digits. -/
theorem takes_int (place : Span) {v : Int64} (hv : 0 ≤ v.toInt) (htail : Stopped tail) :
    Takes Phrase.primary ((Value.int v).escaped ++ tail) (unlaid tail)
      (Means (literalAt place (.int v))) := by
  have hvalue : Numeral.int? false (Nat.toDigits 10 v.toInt.natAbs) = some v := by
    have hlt := v.toInt_lt
    have hbound : v.toInt.natAbs < Nat.pow 2 63 := by
      show v.toInt.natAbs < 9223372036854775808
      omega
    rw [Numeral.int?_toDigits hbound, Int.natAbs_of_nonneg hv, Int64.ofInt_toInt]
  rw [escaped_int hv]
  exact takes_digits htail (means_token place (by decide) fun span =>
    congrArg (literalPiece span .int _) hvalue)

/-- A number behind a minus sign, which joins it. -/
theorem takes_signed {rule : Rule} {taken : List Char} {value : Value} (place : Span)
    (hopens : Opens text) (hf : Follows tail behind)
    (h : Takes Phrase.primary (text ++ tail) behind fun ts => ∃ span, ts = [.token rule span taken])
    (hvalue : ∀ span placem placet, negatedLiteral span
      (.node .member placem [.token rule placet taken]) = .ok (some (literalAt span value))) :
    Takes Phrase.unary (UnaryOperator.negate.symbol.toList ++ (text ++ tail)) behind
      (Means (literalAt place value)) := by
  have hstart := hopens.append tail
  refine (takes_front_member .negate hstart.unlaid_eq hstart.fails_front (takes_alone h hf)).rule
    fun span ts hts => ?_
  obtain ⟨placeo, _, rfl, placem, _, rfl, placet, rfl⟩ := hts
  refine ⟨_, literalAt span value, rfl, (by decide : Rule.unary ∉ operatorRules), ?_, rfl⟩
  -- the sign belongs to the number, so no operator is applied
  rw [meaning, meanings, meanings, meanings, ofNode, frontRule,
    fronted_number (hvalue span placem placet)]
  rfl

/-- A negative integer is digits behind a minus sign. -/
theorem takes_negative (place : Span) {v : Int64} (hv : v.toInt < 0) (hf : Follows tail behind) :
    Takes Phrase.unary ((Value.int v).escaped ++ tail) behind
      (Means (literalAt place (.int v))) := by
  have hvalue : Numeral.int? true (Nat.toDigits 10 v.toInt.natAbs) = some v := by
    -- the smallest integer has no positive of its size, and needs its sign to be in range
    have hle := v.le_toInt
    have hbound : v.toInt.natAbs ≤ Nat.pow 2 63 := by
      show v.toInt.natAbs ≤ 9223372036854775808
      omega
    have hneg : -(v.toInt.natAbs : Int) = v.toInt := by omega
    rw [Numeral.int?_neg_toDigits hbound, hneg, Int64.ofInt_toInt]
  have hdigits : Takes Phrase.primary (Nat.toDigits 10 v.toInt.natAbs ++ tail) behind
      fun ts => ∃ span, ts = [.token .litInt span (Nat.toDigits 10 v.toInt.natAbs)] := by
    rw [← hf.unlaid_eq]
    exact takes_digits hf.stopped fun span => ⟨span, rfl⟩
  rw [escaped_negative hv, List.append_assoc]
  refine takes_signed place (opens_toDigits v.toInt.natAbs) hf hdigits fun span placem placet => ?_
  simp only [negatedLiteral, Tree.children, hvalue]

/-! ### Quoted literals -/

/-- The escapes in which quoted literals are printed. -/
def IsHexEscape (w : List Char) : Prop :=
  ∃ x ∈ ['U', 'x'], ∃ width n, w = '\\' :: x :: (Text.hexPadded width n).toList

/-- A hexadecimal escape is a piece of a quoted literal. -/
theorem IsHexEscape.isPiece {w : List Char} (h : IsHexEscape w) : IsPiece w := by
  obtain ⟨x, -, width, n, rfl⟩ := h
  refine .escape fun d hd => ?_
  exact of_decide_eq_true (Text.of_mem_hexPadded (fun d => d ∉ ['\x22', '\\', '\n']) rfl hd)

theorem escaped_string (v : String) : ∃ pieces : List (List Char), (∀ w ∈ pieces, IsHexEscape w)
    ∧ (Value.string v).escaped = '\x22' :: (pieces.flatten ++ ['\x22']) := by
  refine ⟨v.toList.map Escape.codePoint, ?_, by rw [← List.flatMap_def]; rfl⟩
  intro w hw
  obtain ⟨c, -, rfl⟩ := List.mem_map.mp hw
  exact ⟨'U', by decide, 8, c.toNat, rfl⟩

theorem escaped_bytes (v : List UInt8) : ∃ pieces : List (List Char), (∀ w ∈ pieces, IsHexEscape w)
    ∧ (Value.bytes v).escaped = 'b' :: '\x22' :: (pieces.flatten ++ ['\x22']) := by
  refine ⟨v.map fun b => (Value.byteEscape b).toList, ?_, by rw [← List.flatMap_def]; rfl⟩
  intro w hw
  obtain ⟨b, -, rfl⟩ := List.mem_map.mp hw
  exact ⟨'x', by decide, 2, b.toNat, String.toList_append⟩

/-- A quoted text is read as a string token. -/
theorem takes_quoted {pieces : List (List Char)} {P : List Tree → Prop}
    (h : ∀ w ∈ pieces, IsPiece w) (tail : List Char)
    (hP : ∀ span, P [.token .litString span ('\x22' :: (pieces.flatten ++ ['\x22']))]) :
    Takes Phrase.primary ('\x22' :: (pieces.flatten ++ ['\x22']) ++ tail) (unlaid tail) P := by
  have htoken := takes_token (string_pieces h tail) hP
  rw [List.cons_append, List.append_assoc]
  refine takes_literal (fails_call (Pattern.split?_of_rejects rfl _)) rfl rfl ?_
  exact (fails_token (Pattern.split?_of_rejects rfl _)).alt
    ((fails_token (Pattern.split?_of_rejects rfl _)).alt
      ((fails_token (Pattern.split?_of_rejects rfl _)).alt htoken.alt))

/-- **Strings.** -/
theorem takes_string (place : Span) (v : String) (tail : List Char) :
    Takes Phrase.primary ((Value.string v).escaped ++ tail) (unlaid tail)
      (Means (literalAt place (.string v))) := by
  have hmeans : ∀ span, Means (literalAt place (.string v))
      [.token .litString span (Value.string v).escaped] :=
    means_token place (by decide) fun span =>
      congrArg (quotedPiece span .string) (Escape.string_codePoints _)
  obtain ⟨pieces, hpieces, htext⟩ := escaped_string v
  rw [htext] at hmeans ⊢
  exact takes_quoted (fun w hw => (hpieces w hw).isPiece) tail hmeans

/-- The letter in front of bytes is a name, but no bracket follows it. -/
theorem fails_call_bytes (rest : List Char) :
    Fails Phrase.globalCall ('b' :: '\x22' :: rest) := by
  have hsplit : identifier.split? ('b' :: '\x22' :: rest) = some (['b'], '\x22' :: rest) := rfl
  have hname : Takes Phrase.ident ('b' :: '\x22' :: rest) (unlaid ('\x22' :: rest)) fun _ => True :=
    takes_token hsplit fun _ => trivial
  rw [unlaid_of_rejects rfl] at hname
  exact (hname.seq_fails (Phrase.fails_of_rejects rfl rest).seq).rule

/-- **Bytes.** The words are tried before them, and fail on their letter. -/
theorem takes_bytes (place : Span) (v : List UInt8) (tail : List Char) :
    Takes Phrase.primary ((Value.bytes v).escaped ++ tail) (unlaid tail)
      (Means (literalAt place (.bytes v))) := by
  have hmeans : ∀ span, Means (literalAt place (.bytes v))
      [.token .litBytes span (Value.bytes v).escaped] :=
    means_token place (by decide) fun span =>
      congrArg (quotedPiece span .bytes) (Escape.bytes_byteEscapes _)
  obtain ⟨pieces, hpieces, htext⟩ := escaped_bytes v
  rw [htext] at hmeans ⊢
  have htoken := takes_token (bytes_pieces (fun w hw => (hpieces w hw).isPiece) tail) hmeans
  rw [List.cons_append, List.cons_append, List.append_assoc]
  refine takes_literal (fails_call_bytes _) rfl rfl ?_
  exact (fails_token (Pattern.split?_of_rejects rfl _)).alt
    ((fails_token (Pattern.split?_of_rejects rfl _)).alt htoken.alt)

end RowFilter.Expr
