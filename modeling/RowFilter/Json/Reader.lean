/-
Reading JSON texts as values of a wanted shape.

A reader takes its value from the front of a text and leaves the rest. What stands
there decides the error: something of another kind is a wrong shape, once it has
been read far enough to name it, and anything else is no JSON. Since no reader
looks further than it has to, a wrong shape in front wins over a fault behind it.
-/
import RowFilter.Json.Number

set_option autoImplicit false

namespace RowFilter.Json

/-- A way to read a value from the front of a text. -/
abbrev Reader (α : Type) := List Char → Except ReadError (α × List Char)

/-! ## Blanks and words -/

def isBlank (c : Char) : Bool := c == ' ' || c == '\n' || c == '\t' || c == '\r'

def skipBlanks (text : List Char) : List Char := text.dropWhile isBlank

/-- A fixed word, which is there or else the text is no JSON. -/
def readWord (letters : String) (text : List Char) : Except ReadError (List Char) :=
  match letters.toList.isPrefixOf? text with
  | some rest => .ok rest
  | none => .error .syntactic

/-! ## Strings -/

/-- The character that a letter behind a backslash stands for. -/
def shortEscape? : Char → Option Char
  | '\x22' => some '\x22'
  | '\\' => some '\\'
  | '/' => some '/'
  | 'b' => some '\x08'
  | 'f' => some '\x0c'
  | 'n' => some '\n'
  | 'r' => some '\r'
  | 't' => some '\t'
  | _ => none

/-- The code unit of four hexadecimal digits. -/
def codeUnit? (digits : List Char) : Option Nat := Text.digitsValue? 16 0 digits

def isHighSurrogate (n : Nat) : Bool := 0xD800 ≤ n && n < 0xDC00

def isLowSurrogate (n : Nat) : Bool := 0xDC00 ≤ n && n < 0xE000

/-- The code point of a pair of surrogates. -/
def paired (high low : Nat) : Nat := 0x10000 + (high - 0xD800) * 0x400 + (low - 0xDC00)

/-- A character put before what is read behind it. -/
def before (c : Char) :
    Except ReadError (List Char × List Char) → Except ReadError (List Char × List Char)
  | .ok (more, rest) => .ok (c :: more, rest)
  | .error e => .error e

/-- The inside of a string up to its closing quote. Surrogates come in pairs, and
controls have to be written as escapes. -/
def readStringBody : List Char → Except ReadError (List Char × List Char)
  | [] => .error .syntactic
  | '\x22' :: rest => .ok ([], rest)
  | '\\' :: 'u' :: a :: b :: c :: d :: rest =>
    match codeUnit? [a, b, c, d] with
    | none => .error .syntactic
    | some n =>
      -- characters beyond the first plane are written as two escapes
      if isHighSurrogate n then
        match rest with
        | '\\' :: 'u' :: a :: b :: c :: d :: rest =>
          match codeUnit? [a, b, c, d] with
          | none => .error .syntactic
          | some m =>
            if isLowSurrogate m then before (Char.ofNat (paired n m)) (readStringBody rest)
            else .error .syntactic
        | _ => .error .syntactic
      else if isLowSurrogate n then .error .syntactic
      else before (Char.ofNat n) (readStringBody rest)
  | '\\' :: letter :: rest =>
    match shortEscape? letter with
    | some c => before c (readStringBody rest)
    | none => .error .syntactic
  | c :: rest =>
    -- controls have to be escaped, and a backslash here has nothing behind it
    if c.toNat < 0x20 ∨ c = '\\' then .error .syntactic else before c (readStringBody rest)

/-- The inside of a string as text. -/
def readStringRest (text : List Char) : Except ReadError (String × List Char) :=
  (readStringBody text).map fun (s, rest) => (String.ofList s, rest)

/-! ## Wrong shapes -/

/-- What stands at the front of a text, named as far as an error text needs it. -/
def readFound : List Char → Except ReadError Found
  | [] => .error .syntactic
  | c :: rest =>
    if c = 'n' then (readWord "ull" rest).map fun _ => .null
    else if c = 't' then (readWord "rue" rest).map fun _ => .boolean true
    else if c = 'f' then (readWord "alse" rest).map fun _ => .boolean false
    else if c = '-' ∨ c.isDigit then (readNumber (c :: rest)).map fun (n, _) => n.found
    else if c = '\x22' then (readStringRest rest).map fun (s, _) => .string s
    else if c = '[' then .ok .sequence
    else if c = '{' then .ok .map
    else .error .syntactic

/-- The error for a text at whose front something else was wanted. -/
def mismatch {α : Type} (wanted : String) (text : List Char) : Except ReadError α :=
  match readFound text with
  | .error e => .error e
  | .ok found => .error (.shape (.invalidType found wanted))

/-! ## Single values -/

def readString : Reader String := fun text =>
  match skipBlanks text with
  | '\x22' :: rest => readStringRest rest
  | text => mismatch "a string" text

def readBool : Reader Bool := fun text =>
  match skipBlanks text with
  | 't' :: rest => (readWord "rue" rest).map fun rest => (true, rest)
  | 'f' :: rest => (readWord "alse" rest).map fun rest => (false, rest)
  | text => mismatch "a boolean" text

def readNull : Reader Unit := fun text =>
  match skipBlanks text with
  | 'n' :: rest => (readWord "ull" rest).map fun rest => ((), rest)
  | text => mismatch "unit" text

/-- Whether a number begins here. -/
def startsNumber : List Char → Bool
  | c :: _ => c == '-' || c.isDigit
  | [] => false

/-- A number that `accept` takes; one that it refuses has the wrong shape. -/
def readNumberAs {α : Type} (wanted : String) (accept : Number → Except ShapeError α) :
    Reader α := fun text =>
  let text := skipBlanks text
  if startsNumber text then
    match readNumber text with
    | .error e => .error e
    | .ok (n, rest) =>
      match accept n with
      | .error why => .error (.shape why)
      | .ok a => .ok (a, rest)
  else mismatch wanted text

/-- A natural number up to `greatest`. -/
def readNatural (wanted : String) (greatest : Nat) : Reader Nat :=
  readNumberAs wanted fun
    | .natural v =>
      if v.toNat ≤ greatest then .ok v.toNat
      else .error (.invalidValue (.integer v.toNat) wanted)
    | .negative v => .error (.invalidValue (.integer v.toInt) wanted)
    | .float d => .error (.invalidType (.float d) wanted)

/-- A size, which is a natural number of 64 bits. -/
def readSize : Reader Nat := readNatural "usize" (UInt64.size - 1)

/-- A signed integer of 64 bits. -/
def readInt64 : Reader Int64 :=
  readNumberAs "i64" fun
    | .natural v =>
      if v.toNat < Nat.pow 2 63 then .ok (Int64.ofInt v.toNat)
      else .error (.invalidValue (.integer v.toNat) "i64")
    | .negative v => .ok v
    | .float d => .error (.invalidType (.float d) "i64")

/-- A double; integers are rounded to one. -/
def readDouble : Reader Double :=
  readNumberAs "f64" fun
    | .natural v => .ok (Double.ofNat v.toNat)
    | .negative v => .ok (Double.ofInt v.toInt)
    | .float d => .ok d

/-- A value that may be `null` instead. -/
def readOptional {α : Type} (reader : Reader α) : Reader (Option α) := fun text =>
  match skipBlanks text with
  -- no other value begins with this letter
  | 'n' :: rest => (readWord "ull" rest).map fun rest => (none, rest)
  | text => (reader text).map fun (a, rest) => (some a, rest)

/-! ## Sequences -/

/-- The text of the next element of a sequence, if there is one. -/
def nextElement (isFirst : Bool) (text : List Char) : Except ReadError (Option (List Char)) :=
  match skipBlanks text with
  | [] => .error .syntactic
  | ']' :: _ => .ok none
  | ',' :: rest =>
    -- no element begins with a comma; which error that is, the reader of the element says
    if isFirst then .ok (some (',' :: rest))
    else
      match skipBlanks rest with
      | [] => .error .syntactic
      | ']' :: _ => .error .syntactic
      | rest => .ok (some rest)
  | text => if isFirst then .ok (some text) else .error .syntactic

/-- The text behind the end of a sequence, where all has been read that is wanted. -/
def endSequence (text : List Char) : Except ReadError (List Char) :=
  match skipBlanks text with
  | ']' :: rest => .ok rest
  | _ => .error .syntactic

/-- The elements of a sequence. Every element takes a character, so `fuel` is the
length of the text. -/
def readElements {α : Type} (reader : Reader α) :
    (fuel : Nat) → (isFirst : Bool) → List Char → Except ReadError (List α × List Char)
  | 0, _, _ => .error .syntactic
  | fuel + 1, isFirst, text =>
    match nextElement isFirst text with
    | .error e => .error e
    | .ok none => (endSequence text).map fun rest => ([], rest)
    | .ok (some text) =>
      match reader text with
      | .error e => .error e
      | .ok (a, rest) =>
        (readElements reader fuel false rest).map fun (as, rest) => (a :: as, rest)

/-- A sequence of values. -/
def readSequence {α : Type} (reader : Reader α) : Reader (List α) := fun text =>
  match skipBlanks text with
  | '[' :: rest => readElements reader (rest.length + 1) true rest
  | text => mismatch "a sequence" text

/-! ## Members -/

/-- The next name in an object, if there is one, with the text behind it. -/
def nextName (isFirst : Bool) (text : List Char) :
    Except ReadError (Option (String × List Char)) :=
  let nameAt (text : List Char) : Except ReadError (Option (String × List Char)) :=
    match text with
    | '\x22' :: rest => (readStringRest rest).map some
    | _ => .error .syntactic
  match skipBlanks text with
  | '}' :: _ => .ok none
  | ',' :: rest => if isFirst then .error .syntactic else nameAt (skipBlanks rest)
  | text => if isFirst then nameAt text else .error .syntactic

/-- The text behind the colon between a name and its value. -/
def readColon (text : List Char) : Except ReadError (List Char) :=
  match skipBlanks text with
  | ':' :: rest => .ok rest
  | _ => .error .syntactic

/-- The members of an object up to its end, one after the other into a state. What
`accept` makes of a name is decided before its value is looked at. -/
def readMembers {σ : Type} (accept : σ → String → Except ShapeError (Reader σ)) :
    (fuel : Nat) → (isFirst : Bool) → σ → Reader σ
  | 0, _, _, _ => .error .syntactic
  | fuel + 1, isFirst, state, text =>
    match nextName isFirst text with
    | .error e => .error e
    -- the brace that has been seen is taken here
    | .ok none => .ok (state, (skipBlanks text).drop 1)
    | .ok (some (name, rest)) =>
      match accept state name with
      | .error why => .error (.shape why)
      | .ok reader =>
        match readColon rest with
        | .error e => .error e
        | .ok rest =>
          match reader rest with
          | .error e => .error e
          | .ok (state, rest) => readMembers accept fuel false state rest

/-- The members behind an opening brace, from a state on. -/
def readObjectRest {σ : Type} (accept : σ → String → Except ShapeError (Reader σ))
    (start : σ) : Reader σ := fun text =>
  readMembers accept (text.length + 1) true start text

/-! ## Whole texts -/

/-- A text that is one value and nothing else. -/
def readAll {α : Type} (reader : Reader α) (text : String) : Except ReadError α :=
  match reader text.toList with
  | .error e => .error e
  | .ok (a, rest) => if (skipBlanks rest).isEmpty then .ok a else .error .syntactic

end RowFilter.Json
