/-
The places in the text of a condition are those of its values, one after the other.

What a database finds in a statement is decided by reading it from the left: a quote opens a name
that goes on to the next quote which is not doubled, and outside of names a mark is the place of a
parameter. `tokens` reads a text in this way and knows nothing of conditions. So a column may be
called like a place, and a place is never lost in a name.

Rendering is followed part by part. Each lemma reads a part in front of an arbitrary rest and goes
on outside of names; what the rest must not begin with is whatever would prolong the part, a quote
behind a name and a digit behind a numbered place. The text of a condition gives the tokens that
`Shape.tokens` lists, places and values counted from the same index, and `render_aligned` reads
places and names off that list.
-/
import RowFilter.Proofs.Sql.Columns
import RowFilter.Proofs.Sql.Readability

set_option autoImplicit false

namespace RowFilter.Sql

/-! ## Reading a statement -/

/-- What stands in the text of a statement besides its words and signs. -/
inductive Token where
  /-- A quoted name, without its quotes. -/
  | name (name : String)
  /-- The place of a parameter, as it is written. -/
  | place (written : String)
  deriving DecidableEq, Repr

/-- Where a reader is in a text. -/
inductive Reading where
  | outside
  | inName (read : List Char)
  /-- A quote has been read in a name: the name ends here unless another one follows. -/
  | afterQuote (read : List Char)
  | inPlace (read : List Char)
  deriving DecidableEq, Repr

namespace Dialect

/-- The character places of parameters begin with. -/
def mark : Dialect → Char
  | .postgres => '$'
  | .mysql => '?'

/-- The characters that prolong a place: the digits of its number, if it has one. -/
def prolongs (d : Dialect) (c : Char) : Bool :=
  match d with
  | .postgres => c.isDigit
  | .mysql => false

/-- Where a reader is behind a character outside of names and places. -/
def opened (d : Dialect) (c : Char) : Reading :=
  if c = d.quote then .inName []
  else if c = d.mark then .inPlace [c]
  else .outside

/-- Where a reader is behind one more character, and the token that has ended before it. -/
def readChar (d : Dialect) : Reading → Char → Reading × List Token
  | .outside, c => (d.opened c, [])
  | .inName read, c => (if c = d.quote then .afterQuote read else .inName (read ++ [c]), [])
  | .afterQuote read, c =>
    if c = d.quote then (.inName (read ++ [c]), [])
    else (d.opened c, [.name (String.ofList read)])
  | .inPlace read, c =>
    if d.prolongs c then (.inPlace (read ++ [c]), [])
    else (d.opened c, [.place (String.ofList read)])

/-- The token that the end of a text ends. A name that is still open is none. -/
def readEnd : Reading → List Token
  | .outside | .inName _ => []
  | .afterQuote read => [.name (String.ofList read)]
  | .inPlace read => [.place (String.ofList read)]

/-- The tokens of a text that is read on from somewhere. -/
def tokensFrom (d : Dialect) : Reading → List Char → List Token
  | reading, [] => readEnd reading
  | reading, c :: rest => (d.readChar reading c).2 ++ d.tokensFrom (d.readChar reading c).1 rest

/-- The tokens of the text of a statement. -/
def tokens (d : Dialect) (text : List Char) : List Token := d.tokensFrom .outside text

/-- A column may be called like a place, and quotes in its name do not end it. -/
example : Dialect.postgres.tokens "(\x22a\x22\x22$1\x22 = $12 AND \x22$2\x22 IS NULL)".toList
      = [.name "a\x22$1", .place "$12", .name "$2"] := by
  decide

variable {d : Dialect}

/-! ### Single characters -/

theorem tokens_cons (c : Char) (rest : List Char) :
    d.tokens (c :: rest) = d.tokensFrom (d.opened c) rest := rfl

/-- A quote within a name may end it. -/
theorem tokensFrom_inName_quote (read rest : List Char) :
    d.tokensFrom (.inName read) (d.quote :: rest) = d.tokensFrom (.afterQuote read) rest := by
  simp [tokensFrom, readChar]

/-- Any other character is part of it. -/
theorem tokensFrom_inName_of_ne {c : Char} (hc : c ≠ d.quote) (read rest : List Char) :
    d.tokensFrom (.inName read) (c :: rest) = d.tokensFrom (.inName (read ++ [c])) rest := by
  simp [tokensFrom, readChar, hc]

/-- A second quote goes on with the name. -/
theorem tokensFrom_afterQuote_quote (read rest : List Char) :
    d.tokensFrom (.afterQuote read) (d.quote :: rest)
      = d.tokensFrom (.inName (read ++ [d.quote])) rest := by
  simp [tokensFrom, readChar]

/-- Without a second quote the name has ended. -/
theorem tokensFrom_afterQuote {rest : List Char} (h : rest.head? ≠ some d.quote)
    (read : List Char) :
    d.tokensFrom (.afterQuote read) rest = .name (String.ofList read) :: d.tokens rest := by
  rcases rest with _ | ⟨c, rest⟩
  · rfl
  · have hc : c ≠ d.quote := fun hc => h (by rw [hc, List.head?_cons])
    simp [tokensFrom, readChar, hc, tokens_cons]

/-- A place goes on with its digits. -/
theorem tokensFrom_inPlace_of_prolongs {c : Char} (hc : d.prolongs c = true)
    (read rest : List Char) :
    d.tokensFrom (.inPlace read) (c :: rest) = d.tokensFrom (.inPlace (read ++ [c])) rest := by
  simp [tokensFrom, readChar, hc]

/-- A text does not begin with what would prolong a place. -/
def Ends (d : Dialect) (text : List Char) : Prop := ∀ c ∈ text.head?, d.prolongs c = false

/-- Without a further digit the place has ended. -/
theorem tokensFrom_inPlace {rest : List Char} (h : d.Ends rest) (read : List Char) :
    d.tokensFrom (.inPlace read) rest = .place (String.ofList read) :: d.tokens rest := by
  rcases rest with _ | ⟨c, rest⟩
  · rfl
  · have hc : d.prolongs c = false := h c (by rw [List.head?_cons, Option.mem_some_iff])
    simp [tokensFrom, readChar, hc, tokens_cons]

/-! ### Words and signs -/

/-- A text in which no name and no place begins. -/
def IsPlain (d : Dialect) (text : String) : Prop :=
  ∀ c ∈ text.toList, c ≠ d.quote ∧ c ≠ d.mark

instance (d : Dialect) (text : String) : Decidable (d.IsPlain text) :=
  List.decidableBAll (fun c => c ≠ d.quote ∧ c ≠ d.mark) text.toList

/-- A plain text has no tokens. -/
theorem tokens_plain (text : String) (h : d.IsPlain text) (rest : List Char) :
    d.tokens (text.toList ++ rest) = d.tokens rest := by
  unfold IsPlain at h
  generalize text.toList = cs at h
  induction cs with
  | nil => rw [List.nil_append]
  | cons c cs ih =>
      obtain ⟨⟨hquote, hmark⟩, hcs⟩ := List.forall_mem_cons.mp h
      rw [List.cons_append, tokens_cons, opened, if_neg hquote, if_neg hmark]
      exact ih hcs

theorem ends_nil : d.Ends [] := by
  intro c hc
  cases hc

/-- No word or sign begins with a digit. -/
theorem ends_text {text : String} (h : text.toList.head?.map Char.isDigit = some false)
    (rest : List Char) : d.Ends (text.toList ++ rest) := by
  intro c hc
  obtain ⟨first, hfirst, hdigit⟩ := Option.map_eq_some_iff.mp h
  rw [List.head?_append, hfirst, Option.some_or, Option.mem_some_iff] at hc
  subst hc
  cases d with
  | postgres => exact hdigit
  | mysql => rfl

/-! ### Names -/

/-- Inside a name, doubled quotes are read as single ones up to the quote that ends it. -/
theorem tokensFrom_doubled (read name rest : List Char) :
    d.tokensFrom (.inName read) (d.doubled name ++ d.quote :: rest)
      = d.tokensFrom (.afterQuote (read ++ name)) rest := by
  induction name generalizing read with
  | nil =>
      rw [List.append_nil]
      exact tokensFrom_inName_quote read rest
  | cons c name ih =>
      have hassoc : read ++ c :: name = (read ++ [c]) ++ name := by simp
      rw [hassoc, ← ih]
      by_cases hc : c = d.quote
      · -- both quotes are read before the name goes on
        rw [hc, doubled_cons_of_eq, List.cons_append, List.cons_append, tokensFrom_inName_quote,
          tokensFrom_afterQuote_quote]
      · rw [doubled_cons_of_ne d hc, List.cons_append, tokensFrom_inName_of_ne hc]

/-- A quoted name is one token, unless a quote follows it. -/
theorem tokens_quoteIdentifier {rest : List Char} (h : rest.head? ≠ some d.quote)
    (name : String) :
    d.tokens ((d.quoteIdentifier name).toList ++ rest) = .name name :: d.tokens rest := by
  rw [toList_quoteIdentifier, List.cons_append, List.append_assoc, List.singleton_append,
    tokens_cons, opened, if_pos rfl, tokensFrom_doubled, List.nil_append, tokensFrom_afterQuote h,
    String.ofList_toList]

/-! ### Places -/

/-- Behind the mark of a place stand digits that prolong it, in one of the dialects none. -/
theorem exists_placeholder_eq (d : Dialect) (index : Nat) :
    ∃ digits, (d.placeholder index).toList = d.mark :: digits
      ∧ ∀ c ∈ digits, d.prolongs c = true := by
  cases d with
  | postgres =>
      refine ⟨Nat.toDigits 10 (index + 1), by simp [placeholder, mark], fun c hc => ?_⟩
      exact Nat.isDigit_of_mem_toDigits (by omega) (by omega) hc
  | mysql => exact ⟨[], by simp [placeholder, mark], by simp⟩

/-- The digits of a place are read up to where it ends. -/
theorem tokensFrom_digits {digits rest : List Char} (hdigits : ∀ c ∈ digits, d.prolongs c = true)
    (hrest : d.Ends rest) (read : List Char) :
    d.tokensFrom (.inPlace read) (digits ++ rest)
      = .place (String.ofList (read ++ digits)) :: d.tokens rest := by
  induction digits generalizing read with
  | nil => rw [List.nil_append, List.append_nil, tokensFrom_inPlace hrest]
  | cons c digits ih =>
      obtain ⟨hc, hmore⟩ := List.forall_mem_cons.mp hdigits
      have hassoc : read ++ c :: digits = (read ++ [c]) ++ digits := by simp
      rw [hassoc, ← ih hmore, List.cons_append, tokensFrom_inPlace_of_prolongs hc]

/-- A place is one token, unless a digit follows it. -/
theorem tokens_placeholder {rest : List Char} (h : d.Ends rest) (index : Nat) :
    d.tokens ((d.placeholder index).toList ++ rest)
      = .place (d.placeholder index) :: d.tokens rest := by
  obtain ⟨digits, hwritten, hdigits⟩ := exists_placeholder_eq d index
  have hopened : d.opened d.mark = .inPlace [d.mark] := by cases d <;> rfl
  rw [hwritten, List.cons_append, tokens_cons, hopened, tokensFrom_digits hdigits h,
    List.singleton_append, ← hwritten, String.ofList_toList]

/-! ## What a list of tokens holds -/

/-- The names in a list of tokens. -/
def namesIn (ts : List Token) : List String :=
  ts.filterMap fun
    | .name name => some name
    | .place _ => none

/-- The places in a list of tokens. -/
def placesIn (ts : List Token) : List String :=
  ts.filterMap fun
    | .name _ => none
    | .place written => some written

theorem namesIn_append (ts us : List Token) : namesIn (ts ++ us) = namesIn ts ++ namesIn us :=
  List.filterMap_append

theorem placesIn_append (ts us : List Token) :
    placesIn (ts ++ us) = placesIn ts ++ placesIn us := List.filterMap_append

/-- The places of so many values from an index on. -/
def placeTokens (d : Dialect) (index size : Nat) : List Token :=
  (List.range' index size).map fun i => .place (d.placeholder i)

theorem placeTokens_succ (index size : Nat) :
    d.placeTokens index (size + 1)
      = .place (d.placeholder index) :: d.placeTokens (index + 1) size := by
  rw [placeTokens, List.range'_succ, List.map_cons, placeTokens]

/-- Places are no names. -/
theorem namesIn_placeTokens (index size : Nat) : namesIn (d.placeTokens index size) = [] := by
  induction size generalizing index with
  | zero => rfl
  | succ size ih =>
      rw [placeTokens_succ]
      exact ih (index + 1)

theorem placesIn_placeTokens (index size : Nat) :
    placesIn (d.placeTokens index size) = (List.range' index size).map d.placeholder := by
  induction size generalizing index with
  | zero => rfl
  | succ size ih =>
      rw [placeTokens_succ, List.range'_succ, List.map_cons, ← ih]
      rfl

/-! ## Reading what is written of a condition -/

/-- What follows a place in a list does not prolong it. -/
theorem ends_morePlaces (index size : Nat) (rest : List Char) :
    d.Ends ((d.morePlaces index size).toList ++ (")".toList ++ rest)) := by
  cases size with
  | zero => exact ends_text (by decide) rest
  | succ size =>
      rw [morePlaces, String.append_assoc, String.toList_append, List.append_assoc]
      exact ends_text (by decide) _

/-- A list of places up to the bracket behind it. -/
theorem tokens_morePlaces (index size : Nat) (rest : List Char) :
    d.tokens ((d.morePlaces index size).toList ++ (")".toList ++ rest))
      = d.placeTokens index size ++ d.tokens rest := by
  induction size generalizing index with
  | zero => exact tokens_plain ")" (by cases d <;> decide) rest
  | succ size ih =>
      rw [morePlaces, String.append_assoc, String.toList_append, List.append_assoc,
        tokens_plain _ (by cases d <;> decide), String.toList_append, List.append_assoc,
        tokens_placeholder (ends_morePlaces _ _ rest), ih, placeTokens_succ, List.cons_append]

/-- A list of places is read as the places in it. -/
theorem tokens_places (index size : Nat) (rest : List Char) :
    d.tokens ((d.places index size).toList ++ (")".toList ++ rest))
      = d.placeTokens index size ++ d.tokens rest := by
  cases size with
  | zero => exact tokens_plain ")" (by cases d <;> decide) rest
  | succ size =>
      rw [places, String.toList_append, List.append_assoc,
        tokens_placeholder (ends_morePlaces _ _ rest), tokens_morePlaces, placeTokens_succ,
        List.cons_append]

end Dialect

open Dialect (IsPlain tokens_plain tokens_placeholder tokens_places ends_text namesIn placesIn)

/-- A test is read as the places of its values. -/
theorem ColumnTest.tokens_written {d : Dialect} {rest : List Char} (h : d.Ends rest)
    (asked : ColumnTest) (index : Nat) :
    d.tokens ((asked.written d index).toList ++ rest)
      = d.placeTokens index asked.places ++ d.tokens rest := by
  -- the words of the tests are plain in each dialect, and only the places are tokens
  cases asked with
  | compare op =>
      have hspace : d.IsPlain " " := by cases d <;> decide
      have hsymbol : d.IsPlain op.symbol := by cases d <;> cases op <;> decide
      simp only [written, String.toList_append, List.append_assoc]
      rw [tokens_plain _ hspace, tokens_plain _ hsymbol, tokens_plain _ hspace, tokens_placeholder h]
      rfl
  | nullCheck isNull =>
      cases isNull with
      | true => exact tokens_plain " IS NULL" (by cases d <;> decide) rest
      | false => exact tokens_plain " IS NOT NULL" (by cases d <;> decide) rest
  | like =>
      simp only [written, String.toList_append, List.append_assoc]
      rw [tokens_plain _ (by cases d <;> decide), tokens_placeholder h]
      rfl
  | isIn size =>
      simp only [written, String.toList_append, List.append_assoc]
      rw [tokens_plain _ (by cases d <;> decide), tokens_places, places]

namespace Shape

/-- The tokens in the text of a shape where so many values have places already. -/
def tokens (d : Dialect) (index : Nat) : Shape → List Token
  | .test column asked => .name column :: d.placeTokens index asked.places
  | .and left right => left.tokens d index ++ right.tokens d (index + left.places)
  | .or left right => left.tokens d index ++ right.tokens d (index + left.places)
  | .not inner => inner.tokens d index
  | .constant _ => []
  | .never => []

variable {d : Dialect}

/-- **What is read of a shape**, in front of any rest that does not prolong its last place. -/
theorem tokens_written {rest : List Char} (h : d.Ends rest) (s : Shape) (index : Nat) :
    d.tokens ((s.written d index).toList ++ rest) = s.tokens d index ++ d.tokens rest := by
  induction s generalizing index rest with
  | test column asked =>
      -- the name in its quotes, and then the places of the test
      rw [written, String.toList_append, List.append_assoc,
        Dialect.tokens_quoteIdentifier (asked.head?_written rest), asked.tokens_written h]
      rfl
  | and left right ihl ihr | or left right ihl ihr =>
      -- connectives are words and brackets, which no dialect reads as tokens
      have hopen : d.IsPlain "(" := by cases d <;> decide
      have hclosed : d.IsPlain ")" := by cases d <;> decide
      simp only [written, String.toList_append, List.append_assoc]
      rw [tokens_plain _ hopen, ihl (ends_text (by decide) _),
        tokens_plain _ (by cases d <;> decide), ihr (ends_text (by decide) _),
        tokens_plain _ hclosed, tokens, List.append_assoc]
  | not inner ih =>
      have hclosed : d.IsPlain ")" := by cases d <;> decide
      simp only [written, String.toList_append, List.append_assoc]
      rw [tokens_plain _ (by cases d <;> decide), ih (ends_text (by decide) _),
        tokens_plain _ hclosed, tokens]
  | constant value =>
      cases value with
      | true => exact tokens_plain "TRUE" (by cases d <;> decide) rest
      | false => exact tokens_plain "FALSE" (by cases d <;> decide) rest
  | never => exact tokens_plain "(1=0)" (by cases d <;> decide) rest

/-- The places of a shape number on from the index, one for each value. -/
theorem placesIn_tokens (s : Shape) (index : Nat) :
    placesIn (s.tokens d index) = (List.range' index s.places).map d.placeholder := by
  induction s generalizing index with
  | test column asked => exact Dialect.placesIn_placeTokens index asked.places
  | and left right ihl ihr | or left right ihl ihr =>
      rw [tokens, Dialect.placesIn_append, ihl, ihr, ← List.map_append, List.range'_append_1,
        places]
  | not inner ih => exact ih index
  | constant value => rfl
  | never => rfl

/-- A test names its column. -/
theorem namesIn_test (column : String) (asked : ColumnTest) (index : Nat) :
    namesIn ((Shape.test column asked).tokens d index) = [column] :=
  congrArg (column :: ·) (Dialect.namesIn_placeTokens index asked.places)

end Shape

namespace Predicate

variable {d : Dialect}

/-- The names in what is written of a condition are the columns it mentions, in this order. -/
theorem namesIn_tokens (p : Predicate) (index : Nat) :
    namesIn (p.shape.tokens d index) = p.mentions := by
  induction p generalizing index with
  | compare | nullCheck | like | isIn => exact Shape.namesIn_test _ _ index
  | and left right ihl ihr | or left right ihl ihr =>
      rw [shape, Shape.tokens, Dialect.namesIn_append, ihl, ihr, mentions]
  | not inner ih => exact ih index
  | constant value => rfl
  | never => rfl

end Predicate

/-! ## Rendering -/

/-- **Places and parameters line up.** Whatever a renderer holds, rendering a condition adds to
both: to the parameters the values of the condition, and to the text one in which the places are
those of these values, numbered on from the values before them and in their order. The names it
quotes are the columns of the condition, which are listed in ascending order. -/
theorem Renderer.render_aligned (r : Renderer) (p : Predicate) :
    ∃ added : String,
      (r.predicate p).sql = r.sql ++ added
        ∧ (r.predicate p).params = r.params ++ p.boundValues
        ∧ placesIn (r.dialect.tokens added.toList)
          = (List.range' r.params.length p.boundValues.length).map r.dialect.placeholder
        ∧ (∀ name, name ∈ namesIn (r.dialect.tokens added.toList) ↔ name ∈ p.columns)
        ∧ p.columns.Pairwise (· < ·) := by
  -- with nothing behind it, the text of the condition is all that is read
  have htokens : r.dialect.tokens (p.shape.written r.dialect r.params.length).toList
      = p.shape.tokens r.dialect r.params.length := by
    have hread := p.shape.tokens_written Dialect.ends_nil r.params.length (d := r.dialect)
    rw [List.append_nil] at hread
    rw [hread]
    exact List.append_nil _
  refine ⟨p.shape.written r.dialect r.params.length, ?_, ?_, ?_, ?_, p.pairwise_columns⟩
  · rw [predicate_eq]
  · rw [predicate_eq]
  · rw [htokens, Shape.placesIn_tokens, Predicate.length_boundValues_eq]
  · intro name
    rw [htokens, Predicate.namesIn_tokens, Predicate.mem_columns]

end RowFilter.Sql
