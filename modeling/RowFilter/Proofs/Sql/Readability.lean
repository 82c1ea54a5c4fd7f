/-
SQL text can be read in one way only.

Every part of the written form ends where it ends whatever follows: if two parts of one
kind are written and something follows each of them, and the two texts are the same, then
the parts are the same and so is what follows. Said of quoted names, of lists of places,
of tests on a column and finally of shapes, each statement hands the rest of the text to
the next. Names are where this is in danger, since they may hold any characters: a name
ends at a quote that no quote follows, which is why what follows a name must not begin
with one. Places are not told apart by their digits; both texts number from the same
index, so places at the same position are the same.
-/
import RowFilter.Proofs.Sql.Shape

set_option autoImplicit false

namespace RowFilter.Sql

/-! ## Quoted names -/

namespace Dialect

/-- The characters of a name inside its quotes, where quotes are doubled. -/
def doubled (d : Dialect) (name : List Char) : List Char :=
  name.flatMap fun c => if c = d.quote then [c, c] else [c]

/-- A quoted name, character by character. -/
theorem toList_quoteIdentifier (d : Dialect) (name : String) :
    (d.quoteIdentifier name).toList = d.quote :: (d.doubled name.toList ++ [d.quote]) := by
  rw [quoteIdentifier, String.toList_ofList]
  rfl

/-- The quote within a name is written twice. -/
theorem doubled_cons_of_eq (d : Dialect) (name : List Char) :
    d.doubled (d.quote :: name) = d.quote :: d.quote :: d.doubled name := by
  simp [doubled]

/-- All other characters are written once. -/
theorem doubled_cons_of_ne (d : Dialect) {c : Char} (hc : c ≠ d.quote) (name : List Char) :
    d.doubled (c :: name) = c :: d.doubled name := by
  simp [doubled, hc]

/-- A doubled name ends before the first quote that is not doubled. -/
theorem doubled_append_inj {d : Dialect} {a b s t : List Char} (hs : s.head? ≠ some d.quote)
    (ht : t.head? ≠ some d.quote)
    (h : d.doubled a ++ d.quote :: s = d.doubled b ++ d.quote :: t) : a = b ∧ s = t := by
  induction a generalizing b with
  | nil =>
      rcases b with _ | ⟨c, b⟩
      · exact ⟨rfl, (List.cons.inj h).2⟩
      · by_cases hc : c = d.quote
        · -- the name on the right goes on with a second quote
          rw [hc, doubled_cons_of_eq] at h
          have hrest : s = d.quote :: (d.doubled b ++ d.quote :: t) := (List.cons.inj h).2
          exact absurd (by rw [hrest, List.head?_cons]) hs
        · -- the name on the left has ended where the one on the right has a character
          rw [doubled_cons_of_ne d hc] at h
          exact absurd (List.cons.inj h).1.symm hc
  | cons c a ih =>
      rcases b with _ | ⟨e, b⟩
      · by_cases hc : c = d.quote
        · rw [hc, doubled_cons_of_eq] at h
          have hrest : d.quote :: (d.doubled a ++ d.quote :: s) = t := (List.cons.inj h).2
          exact absurd (by rw [← hrest, List.head?_cons]) ht
        · rw [doubled_cons_of_ne d hc] at h
          exact absurd (List.cons.inj h).1 hc
      · -- both go on; a quote takes two characters of the text, anything else one
        by_cases hc : c = d.quote <;> by_cases he : e = d.quote
        · rw [hc, he, doubled_cons_of_eq, doubled_cons_of_eq] at h
          obtain ⟨hab, hst⟩ := ih (List.cons.inj (List.cons.inj h).2).2
          exact ⟨by rw [hc, he, hab], hst⟩
        · rw [hc, doubled_cons_of_eq, doubled_cons_of_ne d he] at h
          exact absurd (List.cons.inj h).1.symm he
        · rw [he, doubled_cons_of_ne d hc, doubled_cons_of_eq] at h
          exact absurd (List.cons.inj h).1 hc
        · rw [doubled_cons_of_ne d hc, doubled_cons_of_ne d he] at h
          obtain ⟨hab, hst⟩ := ih (List.cons.inj h).2
          exact ⟨by rw [(List.cons.inj h).1, hab], hst⟩

/-- A quoted name is read off the front of a text, unless a quote follows it. -/
theorem quoteIdentifier_append_inj {d : Dialect} {a b : String} {s t : List Char}
    (hs : s.head? ≠ some d.quote) (ht : t.head? ≠ some d.quote)
    (h : (d.quoteIdentifier a).toList ++ s = (d.quoteIdentifier b).toList ++ t) :
    a = b ∧ s = t := by
  simp only [toList_quoteIdentifier, List.cons_append, List.append_assoc, List.cons.injEq,
    true_and, List.nil_append] at h
  obtain ⟨hab, hst⟩ := doubled_append_inj hs ht h
  exact ⟨String.toList_inj.mp hab, hst⟩

/-! ## Lists of places -/

/-- A place is never taken for the end of a list. -/
theorem head?_placeholder (d : Dialect) (index : Nat) (s : List Char) :
    ((d.placeholder index).toList ++ s).head? ≠ some ')' := by
  cases d <;> simp [placeholder]

/-- How many more places there are can be read off. -/
theorem morePlaces_append_inj {d : Dialect} {index size size' : Nat} {s t : List Char}
    (h : (d.morePlaces index size).toList ++ ')' :: s
      = (d.morePlaces index size').toList ++ ')' :: t) : size = size' ∧ s = t := by
  -- each step takes one place off both texts, which are numbered from the same index
  induction size generalizing index size' with
  | zero =>
      rcases size' with _ | size'
      · exact ⟨rfl, by simpa [morePlaces] using h⟩
      · simp [morePlaces] at h
  | succ size ih =>
      rcases size' with _ | size'
      · simp [morePlaces] at h
      · simp only [morePlaces, String.toList_append, List.append_assoc,
          List.append_cancel_left_eq] at h
        obtain ⟨hsize, hst⟩ := ih h
        exact ⟨by rw [hsize], hst⟩

/-- So can how many there are at all. -/
theorem places_append_inj {d : Dialect} {index size size' : Nat} {s t : List Char}
    (h : (d.places index size).toList ++ ')' :: s
      = (d.places index size').toList ++ ')' :: t) : size = size' ∧ s = t := by
  -- none at all is told from the first one by the bracket that closes the list
  rcases size with _ | size <;> rcases size' with _ | size'
  · exact ⟨rfl, by simpa [places] using h⟩
  · have hhead := congrArg List.head? h
    simp only [places, String.toList_append, List.append_assoc] at hhead
    exact absurd hhead.symm (head?_placeholder d index _)
  · have hhead := congrArg List.head? h
    simp only [places, String.toList_append, List.append_assoc] at hhead
    exact absurd hhead (head?_placeholder d index _)
  · simp only [places, String.toList_append, List.append_assoc,
      List.append_cancel_left_eq] at h
    obtain ⟨hsize, hst⟩ := morePlaces_append_inj h
    exact ⟨by rw [hsize], hst⟩

end Dialect

/-! ## Tests on a column -/

namespace ColumnTest

variable {d : Dialect} {index : Nat}

/-- What follows a column begins with a space, and so with no quote. -/
theorem head?_written (asked : ColumnTest) (s : List Char) :
    ((asked.written d index).toList ++ s).head? ≠ some d.quote := by
  cases asked with
  | nullCheck isNull => cases isNull <;> cases d <;> simp [written, Dialect.quote]
  | _ => cases d <;> simp [written, Dialect.quote]

/-- The kinds of tests, as the text behind a column tells them. -/
inductive Kind where
  | compare
  | isNull
  | isNotNull
  | like
  | isIn
  deriving DecidableEq, Repr

def kind : ColumnTest → Kind
  | .compare _ => .compare
  | .nullCheck true => .isNull
  | .nullCheck false => .isNotNull
  | .like => .like
  | .isIn _ => .isIn

/-- The kind of the test that a text begins with. -/
def kindOfText : List Char → Kind
  | ' ' :: 'L' :: _ => .like
  | ' ' :: 'I' :: 'N' :: _ => .isIn
  | ' ' :: 'I' :: 'S' :: ' ' :: 'N' :: 'U' :: _ => .isNull
  | ' ' :: 'I' :: _ => .isNotNull
  | _ => .compare

/-- Which test it is can be read off its first words. -/
theorem kindOfText_written (asked : ColumnTest) (s : List Char) :
    kindOfText ((asked.written d index).toList ++ s) = asked.kind := by
  cases asked with
  | compare op => cases op <;> simp [written, CompareOp.symbol, kindOfText, kind]
  | nullCheck isNull => cases isNull <;> simp [written, kindOfText, kind]
  | _ => simp [written, kindOfText, kind]

/-- A comparison ends at the space behind it, so `<` is not taken for the beginning of
`<=` or `<>`. -/
theorem symbol_append_inj {op op' : CompareOp} {s t : List Char}
    (h : op.symbol.toList ++ ' ' :: s = op'.symbol.toList ++ ' ' :: t) : op = op' ∧ s = t := by
  cases op <;> cases op' <;> simp_all [CompareOp.symbol]

/-- A test is read off the front of a text whatever follows it. -/
theorem written_append_inj {a b : ColumnTest} {s t : List Char}
    (h : (a.written d index).toList ++ s = (b.written d index).toList ++ t) :
    a = b ∧ s = t := by
  -- the text tells the kind, which leaves only tests of one kind to compare
  have hkind : a.kind = b.kind := by
    rw [← kindOfText_written a s, h, kindOfText_written]
  cases a with
  | compare op =>
      cases b with
      | compare op' =>
          simp only [written, String.toList_append, List.append_assoc,
            List.append_cancel_left_eq] at h
          obtain ⟨rfl, hrest⟩ := symbol_append_inj h
          exact ⟨rfl, List.append_cancel_left hrest⟩
      | nullCheck isNull => cases isNull <;> cases hkind
      | _ => cases hkind
  | nullCheck isNull =>
      cases b with
      | nullCheck isNull' =>
          obtain rfl : isNull = isNull' := by
            cases isNull <;> cases isNull' <;> first | rfl | cases hkind
          exact ⟨rfl, List.append_cancel_left h⟩
      | _ => cases isNull <;> cases hkind
  | like =>
      cases b with
      | like => exact ⟨rfl, List.append_cancel_left h⟩
      | nullCheck isNull => cases isNull <;> cases hkind
      | _ => cases hkind
  | isIn size =>
      cases b with
      | isIn size' =>
          simp only [written, String.toList_append, List.append_assoc,
            List.append_cancel_left_eq] at h
          obtain ⟨rfl, hst⟩ := Dialect.places_append_inj h
          exact ⟨rfl, hst⟩
      | nullCheck isNull => cases isNull <;> cases hkind
      | _ => cases hkind

end ColumnTest

/-! ## Shapes -/

namespace Shape

variable {d : Dialect} {index : Nat}

/-- The kinds of shapes, as the text tells them. -/
inductive Kind where
  | test
  | joined
  | not
  | constant (value : Bool)
  | never
  deriving DecidableEq, Repr

def kind : Shape → Kind
  | .test _ _ => .test
  | .and _ _ => .joined
  | .or _ _ => .joined
  | .not _ => .not
  | .constant value => .constant value
  | .never => .never

/-- The kind of the shape that a text begins with. -/
def kindOfText : List Char → Kind
  | 'N' :: _ => .not
  | 'T' :: _ => .constant true
  | 'F' :: _ => .constant false
  | '(' :: '1' :: _ => .never
  | '(' :: _ => .joined
  | _ => .test

/-- A condition in parentheses is no constant: no shape begins with a digit. -/
theorem head?_written (a : Shape) (s : List Char) :
    ((a.written d index).toList ++ s).head? ≠ some '1' := by
  cases a with
  | test column asked =>
      rw [written, String.toList_append, Dialect.toList_quoteIdentifier]
      cases d <;> simp [Dialect.quote]
  | constant value => cases value <;> simp [written]
  | _ => simp [written]

/-- What begins with a bracket and goes on with no digit is a connective. -/
theorem kindOfText_joined {s : List Char} (h : s.head? ≠ some '1') :
    kindOfText ('(' :: s) = .joined := by
  rcases s with _ | ⟨c, s⟩
  · rfl
  · have hc : c ≠ '1' := fun hc => h (by rw [hc, List.head?_cons])
    unfold kindOfText
    split <;> simp_all

/-- Which condition it is can be read off its first characters. -/
theorem kindOfText_written (a : Shape) (s : List Char) :
    kindOfText ((a.written d index).toList ++ s) = a.kind := by
  -- a quote, a bracket or one of three words, and the condition that never holds has a digit behind
  -- its bracket
  cases a with
  | test column asked =>
      rw [written, String.toList_append, Dialect.toList_quoteIdentifier]
      cases d <;> simp [Dialect.quote, kindOfText, kind]
  | and left right =>
      simp only [written, String.toList_append, List.append_assoc]
      exact kindOfText_joined (head?_written left _)
  | or left right =>
      simp only [written, String.toList_append, List.append_assoc]
      exact kindOfText_joined (head?_written left _)
  | not inner => simp [written, kindOfText, kind]
  | constant value => cases value <;> simp [written, kindOfText, kind]
  | never => simp [written, kindOfText, kind]

/-- Texts that agree begin with shapes of one kind. -/
theorem kind_eq_of_append_eq {a b : Shape} {s t : List Char}
    (h : (a.written d index).toList ++ s = (b.written d index).toList ++ t) :
    a.kind = b.kind := by
  rw [← kindOfText_written a s, h, kindOfText_written]

/-- **Shapes are read in one way.** A shape is read off the front of a text whatever
follows it. -/
theorem written_append_inj {a b : Shape} {s t : List Char}
    (h : (a.written d index).toList ++ s = (b.written d index).toList ++ t) :
    a = b ∧ s = t := by
  induction a generalizing b index s t with
  | test column asked =>
      have hkind := kind_eq_of_append_eq h
      cases b with
      | test column' asked' =>
          simp only [written, String.toList_append, List.append_assoc] at h
          obtain ⟨rfl, hrest⟩ := Dialect.quoteIdentifier_append_inj
            (asked.head?_written s) (asked'.head?_written t) h
          obtain ⟨rfl, hst⟩ := ColumnTest.written_append_inj hrest
          exact ⟨rfl, hst⟩
      | _ => cases hkind
  | and left right ihl ihr =>
      have hkind := kind_eq_of_append_eq h
      cases b with
      | and left' right' =>
          simp only [written, String.toList_append, List.append_assoc,
            List.append_cancel_left_eq] at h
          -- with the left sides the places before the right sides are equally many
          obtain ⟨rfl, hrest⟩ := ihl h
          obtain ⟨rfl, hend⟩ := ihr (List.append_cancel_left hrest)
          exact ⟨rfl, List.append_cancel_left hend⟩
      | or left' right' =>
          simp only [written, String.toList_append, List.append_assoc,
            List.append_cancel_left_eq] at h
          have hword := (ihl h).2
          simp at hword
      | _ => cases hkind
  | or left right ihl ihr =>
      have hkind := kind_eq_of_append_eq h
      cases b with
      | and left' right' =>
          simp only [written, String.toList_append, List.append_assoc,
            List.append_cancel_left_eq] at h
          -- the left sides are the same, but the words behind them are not
          have hword := (ihl h).2
          simp at hword
      | or left' right' =>
          simp only [written, String.toList_append, List.append_assoc,
            List.append_cancel_left_eq] at h
          obtain ⟨rfl, hrest⟩ := ihl h
          obtain ⟨rfl, hend⟩ := ihr (List.append_cancel_left hrest)
          exact ⟨rfl, List.append_cancel_left hend⟩
      | _ => cases hkind
  | not inner ih =>
      have hkind := kind_eq_of_append_eq h
      cases b with
      | not inner' =>
          simp only [written, String.toList_append, List.append_assoc,
            List.append_cancel_left_eq] at h
          obtain ⟨rfl, hend⟩ := ih h
          exact ⟨rfl, List.append_cancel_left hend⟩
      | _ => cases hkind
  | constant value =>
      have hkind := kind_eq_of_append_eq h
      cases b with
      | constant value' =>
          obtain rfl : value = value' := Kind.constant.inj hkind
          exact ⟨rfl, List.append_cancel_left h⟩
      | _ => cases hkind
  | never =>
      have hkind := kind_eq_of_append_eq h
      cases b with
      | never => exact ⟨rfl, List.append_cancel_left h⟩
      | _ => cases hkind

end Shape

/-! ## Conditions -/

namespace Predicate

/-- The text alone determines everything but the values. -/
theorem shape_eq_of_sql_eq {d : Dialect} {p q : Predicate} (h : (p.toSql d).1 = (q.toSql d).1) :
    p.shape = q.shape := by
  rw [toSql_eq, toSql_eq] at h
  have happend : (p.shape.written d 0).toList ++ [] = (q.shape.written d 0).toList ++ [] :=
    congrArg (fun sql => String.toList sql ++ []) h
  exact (Shape.written_append_inj happend).1

/-- **SQL is unambiguous.** In either dialect, conditions with the same text and the same
values are the same condition, whatever their columns are called. -/
theorem toSql_injective (d : Dialect) : Function.Injective fun p : Predicate => p.toSql d := by
  intro p q h
  have hshape := shape_eq_of_sql_eq (congrArg Prod.fst h)
  have hvalues : p.boundValues = q.boundValues := by
    have hparams := congrArg Prod.snd h
    simpa only [toSql_eq] using hparams
  exact eq_of_shape_eq hshape hvalues

/-- A column may be called like a piece of a statement: quoted, it stays a name, and the
two conditions are told apart by their texts. -/
example :
    (compare "a\x22 IS NULL OR \x22a" .eq .null).toSql .postgres
        = ("\x22a\x22\x22 IS NULL OR \x22\x22a\x22 = $1", [.null])
      ∧ (or (nullCheck "a" true) (compare "a" .eq .null)).toSql .postgres
        = ("(\x22a\x22 IS NULL OR \x22a\x22 = $1)", [.null]) := by
  decide

end Predicate

end RowFilter.Sql
