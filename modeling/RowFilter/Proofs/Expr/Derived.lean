/-
Derived expressions are read.

The grammar of expressions is followed from its tokens up to whole expressions, and back into
brackets: where a derivation stands in front of what may follow it, the parser finds this
derivation (`predicted_expression`). What may follow is said by first characters: behind an
expression stands what closes or parts brackets (`Closed`), and each level of operators adds the
first characters of its own to what may follow the next tighter one.
-/
import RowFilter.Proofs.Expr.Legible
import RowFilter.Proofs.Grammar.Prediction

set_option autoImplicit false

namespace RowFilter.Expr

open Grammar
open Grammar.Phrase (Takes Fails Occurs Predicted Begins predicted_mark begins_mark takes_mark)

variable {n : Nat} {text rest tail w : List Char} {trees : List Tree} {Q : List Char → Prop}

/-! ## First characters -/

/-- The text is empty or begins with one of the characters. -/
def StartsIn (cs : List Char) (text : List Char) : Prop := ∀ c ∈ text.head?, c ∈ cs

/-- The text does not begin with the character. -/
def StartsWithout (x : Char) (text : List Char) : Prop := ∀ c ∈ text.head?, c ≠ x

/-- A text with such a character at its front starts so. -/
theorem startsIn_cons {cs : List Char} {c : Char} (hc : c ∈ cs) (rest : List Char) :
    StartsIn cs (c :: rest) := by
  rintro _ ⟨⟩
  exact hc

theorem StartsIn.mono {cs ds : List Char} (h : StartsIn cs text) (hsubset : cs ⊆ ds) :
    StartsIn ds text := fun c hc => hsubset (h c hc)

/-- What starts with one of some characters does not start with another. -/
theorem StartsIn.without {cs : List Char} {x : Char} (h : StartsIn cs text) (hx : x ∉ cs) :
    StartsWithout x text := by
  rintro c hc rfl
  exact hx (h c hc)

/-- A mark that is not there is not read. -/
theorem StartsWithout.fails_mark {x : Char} (h : StartsWithout x text) :
    Fails (Phrase.mark x) text := by
  cases text with
  | nil => exact Phrase.fails_nil rfl
  | cons c rest =>
      have hne : x ≠ c := (h c rfl).symm
      exact Phrase.fails_of_rejects (by simp [Phrase.mark, Phrase.rejects, hne]) rest

/-- What rejects all of the characters fails on a text that starts in them. -/
theorem StartsIn.fails {cs : List Char} {p : Phrase} (h : StartsIn cs text)
    (htakes : p.takes = true) (hp : cs.all p.rejects = true) : Fails p text := by
  cases text with
  | nil => exact Phrase.fails_nil htakes
  | cons c rest => exact Phrase.fails_of_rejects (List.all_eq_true.mp hp c (h c rfl)) rest

/-- Behind layout a text begins as it does where there is none. -/
theorem StartsWithout.of_unlaid {x : Char} (hx : (Pattern.alt blank comment).rejects x = true)
    (h : StartsWithout x (unlaid rest)) : StartsWithout x rest := by
  cases rest with
  | nil => rintro c ⟨⟩
  | cons d more =>
      rintro _ ⟨⟩ rfl
      rw [unlaid_of_rejects hx] at h
      exact h d rfl rfl

/-- What starts with characters that end operands ends one, unless it starts with a dot. -/
theorem StartsIn.endsOperand {cs : List Char} (h : StartsIn cs text) (hcs : cs ⊆ operandEnds)
    (hdot : '.' ∉ cs) : EndsOperand text where
  head := h.mono hcs
  fraction := by
    refine Pattern.Barred.misses rfl fun c hc => ?_
    have hne := h.without hdot c hc
    simp [fraction, Pattern.char, Pattern.rejects, hne]

/-- If an operand ends in front of a text, it ends in front of layout that this text is behind. -/
theorem endsOperand_of_unlaid (h : EndsOperand (unlaid rest)) : EndsOperand rest := by
  cases rest with
  | nil => exact h
  | cons d more =>
      by_cases hd : (Pattern.alt blank comment).rejects d = true
      · rwa [unlaid_of_rejects hd] at h
      · -- the first character of layout may follow an operand as well
        have hlayout : d ∈ [' ', '\t', '\r', '\n', '/'] := by
          by_contra hnot
          simp only [List.mem_cons, List.not_mem_nil, or_false, not_or] at hnot
          refine hd ?_
          simp [blank, comment, Pattern.rejects, hnot, Ne.symm hnot.2.2.2.2]
        exact (startsIn_cons hlayout more).endsOperand (by simp [operandEnds]) (by simp)

/-! ## Brackets -/

/-- Brackets close here. -/
def Closes (text : List Char) : Prop := ∃ c rest, Closing c ∧ text = c :: rest

/-- A closing bracket closes an expression. -/
theorem Closes.closed (h : Closes text) : Closed text := by
  obtain ⟨c, rest, hc, rfl⟩ := h
  exact hc.closed rest

/-- The elements between brackets end here, perhaps with a comma that no element follows. -/
def ElementsEnd (text : List Char) : Prop :=
  Closes text ∨ ∃ rest, text = ',' :: rest ∧ Closes (unlaid rest)

theorem ElementsEnd.closed (h : ElementsEnd text) : Closed text := by
  rcases h with h | ⟨rest, rfl, -⟩
  · exact h.closed
  · exact closed_cons (by simp) rest

/-- There no further element begins. -/
theorem ElementsEnd.fails_next (h : ElementsEnd text) : Fails nextElement text := by
  rcases h with ⟨c, rest, hc, rfl⟩ | ⟨rest, rfl, c, last, hc, hrest⟩
  · exact (hc.fails_comma rest).seq
  · have hcomma := takes_mark ',' rest
    rw [hrest] at hcomma
    exact hcomma.seq_fails (hc.fails_expression last)

section Brackets

variable {c : Char} {more : Phrase}

/-- A further element begins with its comma. -/
theorem begins_nextElement : Begins n Closed Q nextElement :=
  (begins_mark fun rest => closed_cons (by simp) rest).seq (Phrase.begins_anyhow (Q := Q))

/-- Behind the first element a comma follows or the list ends. -/
theorem begins_more : Begins n Closed ElementsEnd (.many nextElement) :=
  begins_nextElement.many ElementsEnd.closed

/-- Further elements are read to where the list ends. -/
theorem predicted_more (h : Predicted n Closed .expression) :
    Predicted n ElementsEnd (.many nextElement) :=
  (h.seq_mark.of_le (Nat.le_succ n)).many begins_nextElement ElementsEnd.closed rfl
    ElementsEnd.fails_next

/-- The elements between brackets, if there are any, and the bracket behind them. -/
theorem predicted_enclosed (hc : Closing c) (h : Predicted n Closed .expression)
    (hmore : Predicted n Closes more) (hbegins : Begins n Closed Closes more) :
    Predicted n Q (.seq (.optional (.seq .expression more)) (Phrase.mark c)) := by
  have helements : Predicted n Closes (.optional (.seq .expression more)) := by
    refine (h.seq hmore hbegins).optional fun hcloses => ?_
    obtain ⟨d, rest, hd, rfl⟩ := hcloses
    exact (hd.fails_expression rest).seq
  exact helements.seq predicted_mark (begins_mark fun rest => ⟨c, rest, hc, rfl⟩)

/-- An identifier is read as the one token that it is. -/
theorem predicted_ident : Predicted n Q Phrase.ident := by
  refine ⟨fun {trees text tail} hoccurs _ => ?_⟩
  obtain ⟨w, rest, hname, rfl, rfl, hends, rfl⟩ := hoccurs.token
  have hbarred := barred_of_ends (isWord_of_name hname) hends
  exact Phrase.takes_token (firm_identifier.again hname hbarred) fun _ => rfl

/-- A name with arguments in brackets. -/
theorem predicted_named (h : Predicted n Closed .expression) :
    Predicted (n + 1) Q (Phrase.parts Phrase.ident
      [Phrase.mark '(', .optional Phrase.arguments, Phrase.mark ')']) := by
  have harguments : Predicted n Q (.seq (.optional Phrase.arguments) (Phrase.mark ')')) :=
    predicted_enclosed (.inl rfl) h ((predicted_more h).mono (Nat.le_refl n) .inl)
      (begins_more.mono .inl)
  exact predicted_ident.seq harguments.seq_mark Phrase.begins_anyhow

/-- **Lists.** A list literal is read if the expressions in it are. -/
theorem predicted_list (h : Predicted n Closed .expression) :
    Predicted (n + 1) Q Phrase.listLiteral := by
  have hcomma : Predicted n Closes (.optional (Phrase.mark ',')) := by
    refine predicted_mark.optional fun hcloses => ?_
    obtain ⟨c, rest, hc, rfl⟩ := hcloses
    exact hc.fails_comma rest
  -- what is behind the last element: a comma and then the bracket, or the bracket at once
  have hlast : Begins n ElementsEnd Closes (.optional (Phrase.mark ',')) := by
    refine ⟨fun {trees text tail} hoccurs htail => ?_⟩
    rcases hoccurs.optional with ⟨-, rfl⟩ | hmark
    · exact .inl htail
    · obtain ⟨-, rest, rfl, rfl⟩ := hmark.mark
      exact .inr ⟨rest, rfl, htail⟩
  exact (predicted_enclosed (.inr rfl) h ((predicted_more h).seq hcomma hlast)
    (begins_more.seq hlast)).seq_mark.rule

/-- **Brackets.** An expression in brackets is read if the one within is. -/
theorem predicted_round (h : Predicted n Closed .expression) :
    Predicted (n + 1) Q (Phrase.parts (Phrase.mark '(') [.expression, Phrase.mark ')']) :=
  (h.seq predicted_mark (begins_mark fun rest => closed_cons (by simp) rest)).seq_mark

end Brackets

/-! ## Operands -/

/-- An operand without suffixes. -/
theorem predicted_primary (h : Predicted n Closed .expression) :
    Predicted (n + 1) EndsOperand Phrase.primary := by
  refine ⟨fun {trees text tail} hoccurs htail => ?_⟩
  rcases hoccurs.alt with hcall | hoccurs
  · exact ((predicted_named h).rule.takes hcall htail).alt
  rcases hoccurs.alt with hlist | hoccurs
  · have htakes := (predicted_list h).takes hlist htail
    obtain ⟨_, -, hinner⟩ := hlist.rule
    obtain ⟨rest, rfl, -⟩ := hinner.seq_mark
    exact (Phrase.fails_of_rejects rfl rest).alt htakes.alt
  rcases hoccurs.alt with hround | hoccurs
  · have htakes := (predicted_round h).takes hround htail
    obtain ⟨rest, rfl, -⟩ := hround.seq_mark
    exact (Phrase.fails_of_rejects rfl rest).alt ((Phrase.fails_of_rejects rfl rest).alt htakes.alt)
  -- what single tokens are shows in their own text, so the layout behind them stays
  rcases hoccurs.alt with hliteral | hident
  · obtain ⟨tokens, -, hderives, hspaced⟩ := hliteral.derives
    obtain ⟨w, rfl, htakes⟩ := takes_literal_token hderives
    obtain ⟨rest, rfl, hends, rfl⟩ := hspaced.singleton
    exact htakes hends (endsOperand_of_unlaid htail)
  · obtain ⟨w, rest, hname, rfl, rfl, hends, rfl⟩ := hident.token
    have hbarred := barred_of_ends (isWord_of_name hname) hends
    have hquotes : ∀ c ∈ operandEnds, c ∉ ['\x22', '\x27'] := by simp [operandEnds]
    have hhead : StartsIn operandEnds (unlaid rest) := htail.head
    have hbracket : Fails (Phrase.mark '(') (unlaid rest) := hhead.fails rfl rfl
    exact takes_primary_of_name (firm_identifier.again hname hbarred)
      (fun c hc => hquotes c ((endsOperand_of_unlaid htail).head c hc)) hbracket fun _ => rfl

/-- What begins with a name. -/
def StartsWithName (text : List Char) : Prop := ∃ w rest, IsName w ∧ text = w ++ rest

/-- An identifier begins with the first character of a name. -/
theorem begins_ident : Begins n StartsWithName Q Phrase.ident := by
  refine ⟨fun {trees text tail} hoccurs _ => ?_⟩
  obtain ⟨w, rest, hname, -, rfl, -, -⟩ := hoccurs.token
  exact ⟨w, rest, hname, rfl⟩

/-- A dot in front of a name is not the point of a number. -/
theorem endsOperand_dot (h : StartsWithName (unlaid rest)) : EndsOperand ('.' :: rest) where
  head := by
    rintro _ ⟨⟩
    simp [operandEnds]
  fraction := by
    have hdigit : digit.Barred rest := by
      intro d hd
      rw [digit, Pattern.rejects, Bool.not_eq_true']
      by_contra hdigit
      rw [Bool.not_eq_false] at hdigit
      -- a digit is no layout, so the name would begin with it
      obtain ⟨more, rfl⟩ : ∃ more, rest = d :: more := List.head?_eq_some_iff.mp hd
      rw [unlaid_of_rejects (of_isDigit (Pattern.alt blank comment).rejects rfl hdigit)] at h
      obtain ⟨w, last, hname, htext⟩ := h
      obtain ⟨-, c, _, rfl, hc, -⟩ := hname.cases
      obtain ⟨rfl, -⟩ := List.cons.inj htext
      rw [isDigit_eq_false hc] at hdigit
      cases hdigit
    have hdigits : digits.Misses rest :=
      Pattern.Barred.misses rfl fun c hc => Pattern.seq_rejects (hdigit c hc)
    refine Pattern.misses_seq Pattern.split?_one_cons ?_
    rw [Pattern.Misses, Pattern.split?_seq, hdigits]

/-- A dot and a name begin what follows an operand. -/
theorem begins_suffix : Begins n EndsOperand Q suffix :=
  ((begins_ident.seq Phrase.begins_anyhow).seq_mark endsOperand_dot).rule.alt
    (begins_ident.seq_mark endsOperand_dot).rule

/-- A selection is told from a call by the bracket that does not follow it. -/
theorem predicted_suffix (h : Predicted n Closed .expression) :
    Predicted (n + 1) (StartsWithout '(') suffix := by
  refine ⟨fun {trees text tail} hoccurs htail => ?_⟩
  rcases hoccurs.alt with hcall | hfield
  · have hmethod : Predicted (n + 2) (StartsWithout '(') Phrase.memberCall :=
      (predicted_named h).seq_mark.rule
    exact ((hmethod.of_le (Nat.le_succ _)).takes hcall htail).alt
  · -- a call is tried first, and goes as far as the name
    have hselect : Predicted (n + 1) (StartsWithout '(') Phrase.fieldSelect :=
      predicted_ident.seq_mark.rule
    have htakes := hselect.takes hfield htail
    obtain ⟨_, -, hinner⟩ := hfield.rule
    obtain ⟨rest, rfl, hname⟩ := hinner.seq_mark
    have hident : Takes Phrase.ident (unlaid rest) tail _ := predicted_ident.takes hname htail
    have hbracket : Fails (Phrase.mark '(') tail := htail.fails_mark
    exact ((takes_mark '.' rest).seq_fails (hident.seq_fails hbracket.seq)).rule.alt htakes

/-- The first characters of the operators of a level. -/
def operatorHeads : Rule → List Char
  | .multiplication => ['*', '/', '%']
  | .addition => ['+', '-']
  | .relation => ['=', '!', '<', '>', 'i']
  | .logicalAnd => ['&']
  | .logicalOr => ['|']
  | _ => []

/-- What may follow the operands of several levels: their operators, and what closes or parts
brackets. -/
def followers : List (Rule × Phrase) → List Char
  | [] => [')', ',', ']']
  | l :: ls => operatorHeads l.1 ++ followers ls

/-- What may follow an operand with its suffixes. -/
def memberEnds : List Char := followers levels

/-- **Members.** A primary with its suffixes is read if the expressions in it are. -/
theorem predicted_member (h : Predicted n Closed .expression) :
    Predicted (n + 1) (StartsIn memberEnds) Phrase.member := by
  -- a suffix never begins with a round bracket, which would make a call of what is before it
  have hitem : Begins (n + 1) (StartsWithout '(') (StartsWithout '(') suffix := by
    refine ⟨fun {trees text tail} hoccurs htail => ?_⟩
    have hhead : StartsIn operandEnds text := (begins_suffix.starts hoccurs htail).head
    exact hhead.without (by simp [operandEnds])
  have hbracket : '(' ∉ memberEnds := by simp [memberEnds, followers, levels, operatorHeads]
  have hmany : Predicted (n + 1) (StartsIn memberEnds) (.many suffix) :=
    (predicted_suffix h).many hitem (fun htext => htext.without hbracket) rfl
      fun htext => htext.fails rfl rfl
  have hends : memberEnds ⊆ operandEnds ∧ '.' ∉ memberEnds := by
    simp [memberEnds, followers, levels, operatorHeads, operandEnds]
  have hbegins : Begins (n + 1) EndsOperand (StartsIn memberEnds) (.many suffix) :=
    begins_suffix.many fun htext => htext.endsOperand hends.1 hends.2
  exact ((predicted_primary h).seq hmany hbegins).rule

/-! ## Operators in front -/

/-- An operator in front of an operand is read as the one that it is. -/
theorem predicted_frontOperator : Predicted n Q Phrase.frontOperator := by
  refine ⟨fun {trees text tail} hoccurs _ => ?_⟩
  obtain ⟨tokens, -, hderives, hspaced⟩ := hoccurs.derives
  obtain ⟨operator, rfl, rfl⟩ : ∃ operator : UnaryOperator, tokens = [operator.symbol.toList]
      ∧ trees = [.token (frontRule operator) default operator.symbol.toList] := by
    obtain ⟨q, hq, hoperator⟩ := Phrase.exists_of_derives_first hderives
    simp only [List.mem_cons, List.not_mem_nil, or_false] at hq
    rcases hq with rfl | rfl
    · exact ⟨.not, Phrase.eq_of_derives_operator hoperator⟩
    · exact ⟨.negate, Phrase.eq_of_derives_operator hoperator⟩
  -- it is one token, and no layout is asked of what follows it
  obtain ⟨rest, rfl, -, rfl⟩ := hspaced.singleton
  refine (takes_front operator rest).mono fun ts hts => ?_
  obtain ⟨span, rfl⟩ := hts
  rfl

/-- No operand without operators in front begins with one. -/
theorem predicted_unary (h : Predicted n Closed .expression) :
    Predicted (n + 1) (StartsIn memberEnds) Phrase.unary := by
  have hmember := predicted_member h
  have hbegins : Begins (n + 1) (Fails Phrase.frontOperator) (StartsIn memberEnds)
      Phrase.member := by
    -- a member where an operator matches would begin with the sign itself
    refine hmember.begins fun {text} hfront => ?_
    cases text with
    | nil => exact absurd (Phrase.fails_nil rfl) hfront
    | cons c rest =>
        rcases hreject : Phrase.frontOperator.rejects c with _ | _
        · have hc : c = '!' ∨ c = '-' := by
            by_contra hnot
            obtain ⟨hnot, hminus⟩ := not_or.mp hnot
            simp [Phrase.frontOperator, Phrase.first, Phrase.operator, Phrase.rejects,
              Pattern.rejects, Ne.symm hnot, Ne.symm hminus] at hreject
          rcases hc with rfl | rfl <;> exact Phrase.fails_of_rejects rfl rest
        · exact absurd (Phrase.fails_of_rejects hreject rest) hfront
  have hmany : Predicted (n + 1) (Fails Phrase.frontOperator) (.many Phrase.frontOperator) :=
    predicted_frontOperator.many (P := fun _ => True) Phrase.begins_anyhow (fun _ => trivial) rfl id
  exact (hmany.seq hmember hbegins).rule

/-! ## Operators between operands -/

section Chains

variable {l : Rule × Phrase} {ls : List (Rule × Phrase)} {p : Phrase}

/-- An operator in front of an operand, which does not begin with an equals sign. -/
theorem predicted_level (hl : l ∈ levels) : Predicted n (StartsWithout '=') l.2 := by
  refine ⟨fun {trees text tail} hoccurs htail => ?_⟩
  obtain ⟨tokens, -, hderives, hspaced⟩ := hoccurs.derives
  obtain ⟨operator, rfl, rfl, rfl⟩ := exists_of_derives_level hl hderives
  obtain ⟨rest, rfl, hends, rfl⟩ := hspaced.singleton
  exact takes_symbol operator hends (htail.of_unlaid rfl)

/-- The operators of a level begin with the characters listed for it. -/
theorem begins_level (hl : l ∈ levels) : Begins n (StartsIn (operatorHeads l.1)) Q l.2 := by
  refine ⟨fun {trees text tail} hoccurs _ => ?_⟩
  obtain ⟨tokens, -, hderives, hspaced⟩ := hoccurs.derives
  obtain ⟨operator, rfl, rfl, -⟩ := exists_of_derives_level hl hderives
  obtain ⟨rest, rfl, -, -⟩ := hspaced.singleton
  intro c hc
  cases operator <;> (cases hc; decide)

/-- Operands with operators of one level between them are found in front of what the level does not
go on with. -/
theorem predicted_chain (hl : l ∈ levels) (hbehind : (followers ls).all l.2.rejects = true)
    (hequals : ∀ rest, Fails p ('=' :: rest))
    (hp : Predicted n (StartsIn (followers (l :: ls))) p) :
    Predicted n (StartsIn (followers ls)) (Phrase.chain l.1 p l.2) := by
  have htakes : l.2.takes = true := by
    have hall : ∀ l ∈ levels, l.2.takes = true := by decide
    exact hall l hl
  -- an equals sign behind an operator could make it a longer one
  have hoperand : Begins n (StartsWithout '=') (StartsIn (followers (l :: ls))) p := by
    refine hp.begins fun {text} htext => ?_
    cases text with
    | nil => exact absurd (by rintro c ⟨⟩) htext
    | cons c rest =>
        obtain rfl : c = '=' := by
          by_contra hne
          exact htext (by rintro _ ⟨⟩; exact hne)
        exact hequals rest
  have hitem : Predicted n (StartsIn (followers (l :: ls))) (.seq l.2 p) :=
    (predicted_level hl).seq hp hoperand
  have hbegins : Begins n (StartsIn (followers (l :: ls))) (StartsIn (followers (l :: ls)))
      (.seq l.2 p) :=
    ((begins_level hl).seq Phrase.begins_anyhow).imp fun htext =>
      htext.mono (List.subset_append_left _ _)
  have hlast : ∀ {text}, StartsIn (followers ls) text → StartsIn (followers (l :: ls)) text :=
    fun htext => htext.mono (List.subset_append_right _ _)
  have hmany : Predicted n (StartsIn (followers ls)) (.many (.seq l.2 p)) :=
    hitem.many hbegins hlast (by rw [Phrase.takes, htakes]; rfl)
      fun htext => (htext.fails htakes hbehind).seq
  exact (hp.seq hmany (hbegins.many hlast)).rule

/-- No level has an operator that begins as what follows its chains does. -/
def apart : List (Rule × Phrase) → Bool
  | [] => true
  | l :: ls => (followers ls).all l.2.rejects && apart ls

/-- **Chains.** Operands and operators of several levels, in front of what closes or parts
brackets. -/
theorem predicted_chains (hls : ∀ l ∈ ls, l ∈ levels) (hapart : apart ls = true)
    (hequals : ∀ rest, Fails p ('=' :: rest)) (hp : Predicted n (StartsIn (followers ls)) p) :
    Predicted n Closed (chains p ls) := by
  induction ls generalizing p with
  | nil => exact hp
  | cons l ls ih =>
      obtain ⟨hbehind, hapart⟩ := Bool.and_eq_true_iff.mp hapart
      exact ih (fun l hl => hls l (List.mem_cons_of_mem _ hl)) hapart
        (fun rest => (hequals rest).seq.rule)
        (predicted_chain (hls l List.mem_cons_self) hbehind hequals hp)

end Chains

/-! ## Expressions -/

/-- **Derived expressions are read.** Where a derivation of an expression stands in front of what
closes or parts brackets, or of nothing, the parser reads an expression and finds this
derivation. -/
theorem predicted_expression (n : Nat) : Predicted n Closed .expression := by
  induction n with
  | zero =>
      refine ⟨fun {trees text tail} hoccurs _ => ?_⟩
      obtain ⟨tokens, hlength, -⟩ := hoccurs.derives
      cases hlength
  | succ n ih =>
      have hunary : ∀ rest, Fails Phrase.unary ('=' :: rest) := fun rest =>
        (((Phrase.fails_of_rejects rfl rest).many (unlaid_of_rejects rfl rest)).seq_fails
          (Phrase.fails_of_rejects rfl rest)).rule
      exact (predicted_chains (fun _ hl => hl) rfl hunary (predicted_unary ih)).rule.expression

end RowFilter.Expr
