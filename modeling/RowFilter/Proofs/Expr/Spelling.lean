/-
Which values are read back from their text.

The text of a value in diagnostics is close to the expression language and not always in it.
Numbers are, byte strings are, since they are all escapes, and so is the text of most strings. What
the quoted form of a string has for a character without a mark of its own is an escape in braces,
and the language knows no braces; nor does it know the escape for the null character. Such a string
has a token for its text, but the token means nothing. Doubles that are not finite have names for
their text, and names are read as names.

So there is an exact condition (`Value.ReadsBack`), and both halves of it are followed through the
parser by the same road: whatever an operand gives is what parsing the text gives
(`parse_of_takes`), be it a literal or an error.
-/
import RowFilter.Proofs.Double.Sign
import RowFilter.Proofs.Expr.Doubles
import RowFilter.Proofs.Expr.Roundtrip

set_option autoImplicit false

namespace RowFilter

/-! ## Quoted characters -/

/-- A character whose quoted form stands for it in the expression language. -/
def Text.Restored (c : Char) : Prop := isPrintable c = true ∨ c ∈ ['\n', '\r', '\t']

namespace Escape

open Text (quotedChar Restored)

variable {c : Char} {s : List Char}

/-- One character is decoded from its quoted form. -/
theorem decodeFrom_quotedChar (h : Restored c) (rest : List Char) :
    decodeFrom .string .plain (quotedChar c ++ rest)
      = (decodeFrom .string .plain rest).map (String.utf8EncodeChar c ++ ·) := by
  unfold quotedChar
  split
  · rfl
  · rfl
  · rfl
  · rfl
  · rfl
  · -- the null character is written with an escape that is none here
    exact absurd h (by rw [Restored]; decide)
  · next hquote hslash hline hreturn htab hnull =>
      -- all other characters are restored only if they are written as they are
      have hprintable : Text.isPrintable c = true := by
        rcases h with h | h
        · exact h
        · simp only [List.mem_cons, List.not_mem_nil, or_false] at h
          rcases h with rfl | rfl | rfl
          · exact absurd rfl hline
          · exact absurd rfl hreturn
          · exact absurd rfl htab
      rw [if_pos hprintable, List.singleton_append, decodeFrom, if_neg fun h => hslash h]

/-- An escape in braces is no escape of the language, whatever follows it. -/
theorem decodeFrom_brace (more : List Char) :
    ∃ fault, decodeFrom .string (.digits 4 []) ('\x7b' :: more) = .error fault := by
  rcases more with _ | ⟨a, _ | ⟨b, _ | ⟨c, more⟩⟩⟩ <;> exact ⟨_, rfl⟩

/-- The other characters have quoted forms that are refused. -/
theorem decodeFrom_quotedChar_error (h : ¬ Restored c) (rest : List Char) :
    ∃ fault, decodeFrom .string .plain (quotedChar c ++ rest) = .error fault := by
  unfold quotedChar
  split
  · exact absurd (by rw [Restored]; decide) h
  · exact absurd (by rw [Restored]; decide) h
  · exact absurd (by rw [Restored]; decide) h
  · exact absurd (by rw [Restored]; decide) h
  · exact absurd (by rw [Restored]; decide) h
  · exact ⟨.unknown '0', rfl⟩
  · have hhidden : ¬ Text.isPrintable c = true := fun hprintable => h (.inl hprintable)
    rw [if_neg hhidden]
    exact decodeFrom_brace _

/-- A string of characters that are restored is restored. -/
theorem decode_quoted (h : ∀ c ∈ s, Restored c) :
    decode .string (s.flatMap quotedChar) = .ok (s.flatMap String.utf8EncodeChar) := by
  induction s with
  | nil => rfl
  | cons c s ih =>
      have hmore := ih fun d hd => h d (List.mem_cons_of_mem _ hd)
      rw [decode] at hmore
      rw [decode, List.flatMap_cons, decodeFrom_quotedChar (h c List.mem_cons_self), hmore]
      rfl

/-- The first character that is not restored is a fault. -/
theorem decode_quoted_error (h : ∃ c ∈ s, ¬ Restored c) :
    ∃ fault, decode .string (s.flatMap quotedChar) = .error fault := by
  induction s with
  | nil =>
      obtain ⟨c, hc, -⟩ := h
      cases hc
  | cons c s ih =>
      rw [decode, List.flatMap_cons]
      -- the first character that is not restored makes the decoding fail
      by_cases hc : Restored c
      · have hmore : ∃ d ∈ s, ¬ Restored d := by
          obtain ⟨d, hd, hlost⟩ := h
          rcases List.mem_cons.mp hd with rfl | hd
          · exact absurd hc hlost
          · exact ⟨d, hd, hlost⟩
        obtain ⟨fault, hfault⟩ := ih hmore
        rw [decode] at hfault
        refine ⟨fault, ?_⟩
        rw [decodeFrom_quotedChar hc, hfault]
        rfl
      · exact decodeFrom_quotedChar_error hc _

/-- A string is read back from its quoted form if all its characters are. -/
theorem string_quoted {v : String} (h : ∀ c ∈ v.toList, Restored c) :
    string ('\x22' :: (v.toList.flatMap quotedChar ++ ['\x22'])) = .ok v := by
  rw [string, literal_quoted, decode_quoted h]
  dsimp only
  rw [fromUTF8?_flatMap, String.ofList_toList]

/-- With such a character the literal is refused. -/
theorem string_quoted_error {v : String} (h : ∃ c ∈ v.toList, ¬ Restored c) :
    ∃ fault, string ('\x22' :: (v.toList.flatMap quotedChar ++ ['\x22'])) = .error fault := by
  obtain ⟨fault, hfault⟩ := decode_quoted_error h
  refine ⟨fault, ?_⟩
  rw [string, literal_quoted, hfault]

end Escape

/-! ## Values -/

/-- A value whose text denotes it. -/
def Value.ReadsBack : Value → Prop
  | .float v => ∃ significand exponent, v.magnitude = .finite significand exponent
  | .string v => ∀ c ∈ v.toList, Text.Restored c
  | _ => True

namespace Expr

open Grammar
open Brackets (Context isBracket)
open Brackets.Context (Code special)
open Grammar.Phrase (Takes Fails takes_token)

/-- The result is the literal. -/
def IsLiteral (value : Value) (result : Except ParseError Expr) : Prop :=
  ∃ span, result = .ok (literalAt span value)

/-- A literal at another place is still the literal. -/
theorem IsLike.isLiteral {place : Span} {value : Value} {result : Except ParseError Expr}
    (h : IsLike (literalAt place value) result) : IsLiteral value result := by
  obtain ⟨e, rfl, halike⟩ := h
  cases e with
  | literal info v =>
      obtain ⟨span, depth⟩ := info
      obtain ⟨hinfo, rfl⟩ := Expr.literal.inj halike
      obtain ⟨-, rfl⟩ := NodeInfo.mk.inj hinfo
      exact ⟨span, rfl⟩
  | _ => cases halike

/-- What is like another kind of node is no literal. -/
theorem IsLike.not_isLiteral {e : Expr} {value : Value} {result : Except ParseError Expr}
    (h : IsLike e result) (he : ∀ span, ¬ Alike (literalAt span value) e) :
    ¬ IsLiteral value result := by
  rintro ⟨span, rfl⟩
  obtain ⟨_, ⟨⟩, halike⟩ := h
  exact he span halike

/-! ### Literals without brackets -/

/-- The text of a value that is no string is that of its literal. -/
theorem toList_toText {value : Value} (h : value.kind ≠ .string) :
    value.toText.toList = value.escaped := by
  cases value with
  | null | int | float => rfl
  | boolean b => cases b <;> rfl
  | uint v => exact String.toList_append
  | string v => exact absurd rfl h
  | bytes v =>
      have hjoin : (String.join (v.map Value.byteEscape)).toList
          = v.flatMap fun b => (Value.byteEscape b).toList := by
        rw [String.toList_join, List.flatMap_map]
      rw [Value.toText, String.toList_append, String.toList_append, hjoin]
      rfl

/-- Values of all kinds but two are spelled in a way that is read back. -/
theorem parse_toText_of_kind {value : Value} (h : value.kind ∉ [.double, .string]) :
    IsLiteral value (Expr.parse value.toText) := by
  have hdouble : value.kind ≠ .double := fun hkind => h (by simp [hkind])
  have hstring : value.kind ≠ .string := fun hkind => h (by simp [hkind])
  have hscan : Brackets.scan value.escaped = .ok () := by
    refine scan_of_seen ?_
    rw [(sees_literal hdouble Context.start code_start).2, List.filter_eq_nil_iff]
    exact fun c hc => Bool.eq_false_iff.mp (not_isBracket_escaped hdouble c hc)
  have hparse := (legible_literal default hdouble).parse hscan
  rw [literalAt, print, ← toList_toText hstring, String.ofList_toList] at hparse
  exact hparse.isLiteral

/-! ### Strings -/

/-- Every character is written as a piece of a quoted literal, restored or not. -/
theorem isPiece_quotedChar (c : Char) : IsPiece (Text.quotedChar c) := by
  have hnone : ∀ d ∈ ([] : List Char), d ∉ ['\x22', '\\', '\n'] := by simp
  unfold Text.quotedChar
  split
  · exact .escape hnone
  · exact .escape hnone
  · exact .escape hnone
  · exact .escape hnone
  · exact .escape hnone
  · exact .escape hnone
  · next hquote hslash hline hreturn htab hnull =>
      split
      · refine .plain fun d hd => ?_
        obtain rfl := List.mem_singleton.mp hd
        simpa using ⟨fun h => hquote h, fun h => hslash h, fun h => hline h⟩
      · refine .escape fun d hd => ?_
        have hall : '\x7b' ∉ ['\x22', '\\', '\n'] ∧ '\x7d' ∉ ['\x22', '\\', '\n'] := by decide
        -- the digits of the escape and the brackets around them
        rcases List.mem_cons.mp hd with rfl | hd
        · exact hall.1
        · rcases List.mem_append.mp hd with hd | hd
          · obtain ⟨n, hn, rfl⟩ := Text.exists_digitChar_of_mem_toDigits (by omega) hd
            exact (by decide : ∀ n : Fin 16, n.val.digitChar ∉ ['\x22', '\\', '\n']) ⟨n, hn⟩
          · obtain rfl := List.mem_singleton.mp hd
            exact hall.2

/-- A quoted string gives what its token does. -/
theorem parse_quoted {P : Except ParseError Expr → Prop} (v : String) (hP : Bounded P)
    (h : ∀ span, Gives P [.token .litString span
      ('\x22' :: (v.toList.flatMap Text.quotedChar ++ ['\x22']))]) :
    P (Expr.parse (Value.string v).toText) := by
  have hpieces : ∀ w ∈ v.toList.map Text.quotedChar, IsPiece w := by
    intro w hw
    obtain ⟨c, -, rfl⟩ := List.mem_map.mp hw
    exact isPiece_quotedChar c
  have hend : Closed [] := by rintro c ⟨⟩
  rw [List.flatMap_def] at h
  have hopens : Opens ('\x22' :: ((v.toList.map Text.quotedChar).flatten ++ ['\x22'])) :=
    ⟨'\x22', _, rfl, rfl, rfl⟩
  have hprimary := takes_quoted hpieces [] h
  rw [List.append_nil] at hprimary
  have hunary := takes_unary_gives hopens.fails_front hopens.unlaid_eq
    (takes_member_gives hprimary hend.follows)
  -- the scan passes the literal from quote to quote
  have hscan := (Pattern.leads_stringLiteral _ _ _ _ (string_pieces hpieces []) code_start).2
  have hparse := parse_of_takes hP hopens.settled (scan_of_seen hscan) hunary
  rwa [← List.flatMap_def] at hparse

/-- **A string is read back exactly if its characters are.** -/
theorem parse_toText_string (v : String) :
    IsLiteral (.string v) (Expr.parse (Value.string v).toText) ↔ (Value.string v).ReadsBack := by
  by_cases h : ∀ c ∈ v.toList, Text.Restored c
  · refine iff_of_true ?_ h
    refine parse_quoted v ?_ fun span => ?_
    · rintro _ ⟨span, ⟨⟩⟩
      exact (by decide : 1 ≤ maxTreeDepth)
    · refine ⟨_, .ok (literalAt span (.string v)), rfl,
        (by decide : Rule.litString ∉ operatorRules), ?_, span, rfl⟩
      exact congrArg (quotedPiece span .string) (Escape.string_quoted h)
  · refine iff_of_false ?_ h
    have hlost : ∃ c ∈ v.toList, ¬ Text.Restored c := by
      simpa using h
    obtain ⟨fault, hfault⟩ := Escape.string_quoted_error hlost
    -- the token is read all the same, it is its meaning that fails
    have herror : ∃ err, Expr.parse (Value.string v).toText = .error err := by
      refine parse_quoted v (P := fun result => ∃ err, result = .error err) ?_ fun span => ?_
      · rintro e ⟨_, ⟨⟩⟩
      · refine ⟨_, fail span (.escape fault), rfl,
          (by decide : Rule.litString ∉ operatorRules), ?_, _, rfl⟩
        exact congrArg (quotedPiece span .string) hfault
    rintro ⟨span, hspan⟩
    obtain ⟨err, herr⟩ := herror
    rw [herr] at hspan
    cases hspan

/-! ### Doubles -/

open Numeral (Parts)

variable {p : Parts} {tail : List Char}

/-- The characters of an exponent. -/
theorem mem_exponentText {c : Char} {exponent : Option Int} (hc : c ∈ Parts.exponentText exponent) :
    c.isDigit = true ∨ c ∈ ['.', 'e', '-'] := by
  cases exponent with
  | none => cases hc
  | some n =>
      rcases List.mem_cons.mp hc with rfl | hc
      · exact .inr (by simp)
      · rw [Parts.exponentDigits] at hc
        split at hc
        · rcases List.mem_cons.mp hc with rfl | hc
          · exact .inr (by simp)
          · exact .inl (Numeral.isDigit_of_mem_toDigits hc)
        · exact .inl (Numeral.isDigit_of_mem_toDigits hc)

/-- The characters of a decimal. -/
theorem mem_text {c : Char} (h : p.Written) (hc : c ∈ p.text) :
    c.isDigit = true ∨ c ∈ ['.', 'e', '-'] := by
  rcases List.mem_append.mp hc with hc | hc
  · exact .inl (h.whole_digits c hc)
  · rcases List.mem_append.mp hc with hc | hc
    · split at hc
      · cases hc
      · rcases List.mem_cons.mp hc with rfl | hc
        · exact .inr (by simp)
        · exact .inl (h.fraction_digits c hc)
    · exact mem_exponentText hc

/-- None of them opens anything. -/
theorem not_special_text (h : p.Written) : ∀ c ∈ p.text, c ∉ special := by
  intro c hc
  rcases mem_text h hc with hdigit | hmark
  · exact not_special_of_isDigit hdigit
  · simp only [List.mem_cons, List.not_mem_nil, or_false] at hmark
    rcases hmark with rfl | rfl | rfl <;> decide

/-- In front of its point or its exponent a decimal is a run of digits. -/
theorem digits_whole (h : p.Written) (htail : Stopped tail) : Digits p.whole (p.behind ++ tail) :=
  ⟨h.whole_ne_nil, h.whole_digits, p.behind_head fun c hc =>
    Bool.not_inj (of_stopped htail (fun c => !c.isDigit) rfl c hc)⟩

theorem opens_text (h : p.Written) : Opens p.text := by
  have hend : Stopped [] := by rintro c ⟨⟩
  exact (opens_digits (digits_whole h hend)).append _

/-- A decimal where a token ends is a double, and nothing before it. -/
theorem takes_double {P : List Tree → Prop} (h : p.Written) (htail : Stopped tail)
    (hP : ∀ span, P [.token .litDouble span p.text]) :
    Takes Phrase.primary (p.text ++ tail) (unlaid tail) P := by
  have htoken := takes_token (Parts.split?_doubleLiteral h htail) hP
  have hdigits := digits_whole h htail
  have htext : p.text ++ tail = p.whole ++ (p.behind ++ tail) := List.append_assoc ..
  rw [htext] at htoken ⊢
  exact takes_literal_of_digits hdigits htoken.alt

variable {d : Double}

/-- A literal is not too deep. -/
theorem depth_literalAt_le (span : Span) (value : Value) :
    (literalAt span value).depth ≤ maxTreeDepth := (by decide : 1 ≤ maxTreeDepth)

/-- **Decimals.** A decimal is parsed as the double that it is read as. -/
theorem parse_decimal (h : p.Written) (hvalue : Numeral.double? p.text = some d) :
    IsLiteral (.float d) (Expr.parse (String.ofList p.text)) := by
  have hend : Closed [] := by rintro c ⟨⟩
  have hopens := opens_text h
  have hprimary : Takes Phrase.primary (p.text ++ []) (unlaid [])
      (Means (literalAt default (.float d))) :=
    takes_double h hend.follows.stopped (means_token default (by decide) fun span =>
      congrArg (literalPiece span .float _) hvalue)
  rw [List.append_nil, hend.unlaid_eq] at hprimary
  have hmember := takes_member hprimary hend.follows
  have hunary := takes_unary hopens.fails_front hopens.unlaid_eq hmember
  exact (parse_of_means (depth_literalAt_le default _) hopens.settled
    (scan_of_plain (not_special_text h)) hunary).isLiteral

/-- A minus sign in front of a decimal joins it. -/
theorem parse_negated (h : p.Written) (hvalue : Numeral.double? p.text = some d) :
    IsLiteral (.float d.negate) (Expr.parse (String.ofList ('-' :: p.text))) := by
  have hend : Closed [] := by rintro c ⟨⟩
  have hprimary : Takes Phrase.primary (p.text ++ []) []
      fun ts => ∃ span, ts = [.token .litDouble span p.text] := by
    rw [← hend.unlaid_eq]
    exact takes_double h hend.follows.stopped fun span => ⟨span, rfl⟩
  -- the sign belongs to the number
  have hnumber : ∀ span placem placet, negatedLiteral span
      (.node .member placem [.token .litDouble placet p.text])
        = .ok (some (literalAt span (.float d.negate))) := by
    intro span placem placet
    simp only [negatedLiteral, Tree.children, hvalue]
  have hunary := takes_signed default (opens_text h) hend.follows hprimary hnumber
  rw [List.append_nil] at hunary
  have hplain : ∀ c ∈ '-' :: p.text, c ∉ special :=
    List.forall_mem_cons.mpr ⟨by decide, not_special_text h⟩
  exact (parse_of_means (depth_literalAt_le default _) (Pattern.split?_of_rejects rfl _)
    (scan_of_plain hplain) hunary).isLiteral

/-- **A finite double is read back.** -/
theorem parse_toText_finite {significand : Nat} {exponent : Int}
    (h : d.magnitude = .finite significand exponent) :
    IsLiteral (.float d) (Expr.parse (Value.float d).toText) := by
  obtain ⟨p, hwritten, htext, hvalue⟩ := Double.exists_written h
  have hself := Double.ofBits_self d
  have hspelled : (Value.float d).toText = String.ofList (d.sign ++ p.text) := by
    rw [Value.toText, Double.spelled, h]
    dsimp only
    rw [htext]
  rw [hspelled, Double.sign]
  -- the sign is in front of the decimal, and the value is that of the negated one
  cases hnegative : d.isNegative with
  | false =>
      rw [hnegative] at hself
      rw [hself] at hvalue
      exact parse_decimal hwritten hvalue
  | true =>
      have hparse := parse_negated hwritten hvalue
      rw [Double.negate_ofBits d.magnitudeBits_lt, ← hnegative, hself] at hparse
      exact hparse

/-- What stands for a double that is not finite is a name, with a sign perhaps. -/
theorem parse_name {name : String} (hname : IsName name.toList) (value : Value) :
    ¬ IsLiteral value (Expr.parse name) := by
  have hscan : Brackets.scan name.toList = .ok () :=
    scan_of_plain (Pattern.not_mem_of_avoids rfl hname)
  have hparse := (legible_ident default hname).parse hscan
  rw [identAt, print, String.ofList_toList] at hparse
  exact hparse.not_isLiteral fun place h => by cases h

/-- A sign in front of a name is no literal. -/
theorem parse_negated_name {name : String} (hname : IsName name.toList) (value : Value) :
    ¬ IsLiteral value (Expr.parse (String.ofList ('-' :: name.toList))) := by
  have hend : Closed [] := by rintro c ⟨⟩
  have hopens := opens_name hname
  have hbracket : Fails (Phrase.mark '(') (unlaid []) := by
    rw [hend.unlaid_eq]
    exact hend.follows.fails_bracket
  have hprimary := takes_primary_name hname hend.follows.stopped.ended hbracket
  rw [List.append_nil, hend.unlaid_eq] at hprimary
  have hdepth : (unaryAt default .negate (identAt default name)).depth ≤ maxTreeDepth := by
    exact (by decide : 2 ≤ maxTreeDepth)
  have hoperand : Takes Phrase.primary name.toList [] fun ts => Means (identAt default name) ts
      ∧ ∀ span place, negatedLiteral span (.node .member place ts) = .ok none := by
    refine hprimary.mono fun ts hts => ?_
    obtain ⟨span, rfl⟩ := hts
    -- the sign joins numbers only, so here it remains an operator
    exact ⟨means_ident default span name, fun _ _ => rfl⟩
  have hunary := takes_unary_front .negate default hopens.unlaid_eq hopens.fails_front hoperand
    hend.follows hdepth
  have hplain : ∀ c ∈ '-' :: name.toList, c ∉ special :=
    List.forall_mem_cons.mpr ⟨by decide, Pattern.not_mem_of_avoids rfl hname⟩
  have hparse :=
    parse_of_means hdepth (Pattern.split?_of_rejects rfl _) (scan_of_plain hplain) hunary
  exact hparse.not_isLiteral fun place h => by cases h

/-- **The doubles that are read back are the finite ones.** -/
theorem parse_toText_double (d : Double) :
    IsLiteral (.float d) (Expr.parse (Value.float d).toText) ↔ (Value.float d).ReadsBack := by
  cases hmagnitude : d.magnitude with
  | finite significand exponent =>
      exact iff_of_true (parse_toText_finite hmagnitude) ⟨significand, exponent, hmagnitude⟩
  -- the other two are spelled as names, which are no literals
  | notANumber =>
      refine iff_of_false ?_ (by rw [Value.ReadsBack, hmagnitude]; rintro ⟨_, _, ⟨⟩⟩)
      rw [Value.toText, Double.spelled, hmagnitude]
      exact parse_name (show IsName "NaN".toList from rfl) _
  | infinite =>
      refine iff_of_false ?_ (by rw [Value.ReadsBack, hmagnitude]; rintro ⟨_, _, ⟨⟩⟩)
      rw [Value.toText, Double.spelled, hmagnitude, Double.sign]
      cases d.isNegative with
      | false => exact parse_name (show IsName "inf".toList from rfl) _
      | true => exact parse_negated_name (show IsName "inf".toList from rfl) _

/-! ### All values -/

/-- **The text of a value is an expression that denotes it, exactly if the value is read back.**
All values are but doubles that are not finite, and strings with a character whose escape the
language does not have. -/
theorem parse_toText_iff (value : Value) :
    IsLiteral value (Expr.parse value.toText) ↔ value.ReadsBack := by
  cases value with
  | float d => exact parse_toText_double d
  | string v => exact parse_toText_string v
  | null => exact iff_of_true (parse_toText_of_kind (by decide)) trivial
  | boolean b => exact iff_of_true (parse_toText_of_kind (by simp [Value.kind])) trivial
  | int v => exact iff_of_true (parse_toText_of_kind (by simp [Value.kind])) trivial
  | uint v => exact iff_of_true (parse_toText_of_kind (by simp [Value.kind])) trivial
  | bytes v => exact iff_of_true (parse_toText_of_kind (by simp [Value.kind])) trivial

/-- The null character is written as an escape that no string of the language may have. -/
theorem null_character_not_read_back :
    ¬ IsLiteral (.string "\x00") (Expr.parse (Value.string "\x00").toText) := by
  rw [parse_toText_string]
  intro h
  exact absurd (h '\x00' (by decide)) (by rw [Text.Restored]; decide)

end Expr

end RowFilter
