/-
Literals read back.

A number token denotes the number whose digits it has, with a suffix or a sign where it has one,
and a quoted token made of escapes only denotes the characters, or the bytes, that its escapes
stand for. An escape in digits takes as many characters as its letter says
(`decodeFrom_digits`), so a literal is decoded escape by escape.
-/
import RowFilter.Expr.Escape
import RowFilter.Expr.Numeral
import RowFilter.Proofs.Text.Digits
import RowFilter.Value

set_option autoImplicit false

namespace RowFilter

/-! ## Numbers -/

namespace Numeral

/-- Numbers are printed with digits. -/
theorem isDigit_of_mem_toDigits {n : Nat} {c : Char} (hc : c ∈ Nat.toDigits 10 n) :
    c.isDigit = true :=
  Nat.isDigit_of_mem_toDigits (by omega) (by omega) hc

/-- Digits alone are decimal, as the letter of the hexadecimal ones is no digit. -/
theorem radix_of_digits {ds : List Char} (h : ∀ c ∈ ds, c.isDigit = true) :
    radix ds = (10, ds) := by
  unfold radix
  split
  · exact absurd (h 'x' (by simp)) (by decide)
  · exact absurd (h 'X' (by simp)) (by decide)
  · rfl

/-- A printed number is read as itself. -/
theorem value?_toDigits (n : Nat) : value? (Nat.toDigits 10 n) = some n := by
  rw [value?, radix_of_digits fun c hc => isDigit_of_mem_toDigits hc]
  exact Text.digitsValue?_toDigits (by omega) (by omega) n

/-- An integer that is in range is read as itself. -/
theorem int?_toDigits {n : Nat} (h : n < Nat.pow 2 63) :
    int? false (Nat.toDigits 10 n) = some (Int64.ofInt n) := by
  rw [int?, value?_toDigits]
  exact if_pos h

/-- So is one behind a sign, with one more at the lower end. -/
theorem int?_neg_toDigits {n : Nat} (h : n ≤ Nat.pow 2 63) :
    int? true (Nat.toDigits 10 n) = some (Int64.ofInt (-n)) := by
  rw [int?, value?_toDigits]
  exact if_pos h

/-- Without its suffix an unsigned integer is the numeral in front of it. -/
theorem withoutSuffix_append {ds : List Char} {suffix : Char} (hsuffix : suffix ∈ ['u', 'U'])
    (h : ∀ c ∈ ds, c ∉ ['u', 'U']) : withoutSuffix (ds ++ [suffix]) = ds := by
  have hmem : ∀ {c : Char}, (c == 'u' || c == 'U') = true ↔ c ∈ ['u', 'U'] := by simp
  -- nothing of the numeral itself is dropped
  have hkept : ds.reverse.dropWhile (fun c => c == 'u' || c == 'U') = ds.reverse := by
    rcases hds : ds.reverse with _ | ⟨c, more⟩
    · rfl
    · have hc : c ∈ ds := by
        rw [← List.mem_reverse, hds]
        exact List.mem_cons_self
      exact List.dropWhile_cons_of_neg fun hu => h c hc (hmem.mp hu)
  have hdropped : (suffix :: ds.reverse).dropWhile (fun c => c == 'u' || c == 'U')
      = ds.reverse.dropWhile (fun c => c == 'u' || c == 'U') :=
    List.dropWhile_cons_of_pos (hmem.mpr hsuffix)
  rw [withoutSuffix, List.reverse_append, List.reverse_singleton, List.singleton_append,
    hdropped, hkept, List.reverse_reverse]

/-- An unsigned integer that is in range is read as itself. -/
theorem uint?_toDigits {n : Nat} (h : n < UInt64.size) :
    uint? (Nat.toDigits 10 n ++ ['u']) = some (UInt64.ofNat n) := by
  have hdigits : ∀ c ∈ Nat.toDigits 10 n, c ∉ ['u', 'U'] := by
    intro c hc hsuffix
    have hdigit := isDigit_of_mem_toDigits hc
    simp only [List.mem_cons, List.not_mem_nil, or_false] at hsuffix
    rcases hsuffix with rfl | rfl <;> cases hdigit
  rw [uint?, withoutSuffix_append (by decide) hdigits, value?_toDigits]
  exact if_pos h

end Numeral

/-! ## Escapes -/

namespace Escape

variable {mode : Mode} {rest : List Char}

/-- The digits of an escape are judged when there are enough of them. -/
theorem decodeFrom_digits {width : Nat} {taken ds : List Char} (hds : ds ≠ [])
    (hwidth : taken.length + ds.length = width) :
    decodeFrom mode (.digits width taken) (ds ++ rest) =
      match coded mode (taken ++ ds) with
      | .error fault => .error fault
      | .ok bytes => (decodeFrom mode .plain rest).map (bytes ++ ·) := by
  induction ds generalizing taken with
  | nil => exact absurd rfl hds
  | cons c ds ih =>
      rw [List.length_cons] at hwidth
      rw [List.cons_append, decodeFrom, List.length_append, List.length_singleton]
      -- the last digit completes the escape, and another one waits for more
      by_cases hmore : ds = []
      · subst hmore
        rw [List.length_nil] at hwidth
        rw [if_neg (by omega)]
        rfl
      · have hpos := List.length_pos_iff.mpr hmore
        rw [if_pos (by omega), ih hmore (by rw [List.length_append, List.length_singleton]; omega),
          List.append_assoc, List.singleton_append]

/-- What padded digits denote: they do not begin with a plus sign. -/
theorem code?_hexPadded (width n : Nat) : code? (Text.hexPadded width n).toList = some n := by
  have hvalue := Text.digitsValue?_hexPadded width n
  rcases hdigits : (Text.hexPadded width n).toList with _ | ⟨c, more⟩
  · rwa [hdigits] at hvalue
  · have hmem : c ∈ (Text.hexPadded width n).toList := by
      rw [hdigits]
      exact List.mem_cons_self
    have hc : c ∈ "0123456789abcdef".toList := Text.mem_hexPadded hmem
    -- no digit is taken for a sign
    have hplus : c ≠ '+' := by
      rintro rfl
      exact absurd hc (by decide)
    rw [hdigits] at hvalue
    rw [code?]
    · exact hvalue
    · intro _ hcons
      exact hplus (List.cons.inj hcons).1

/-- An escape in digits stands for the bytes of its code. -/
theorem decodeFrom_hexPadded {letter : Char} {width n : Nat} {bytes : List UInt8}
    (hletter : simple? letter = none ∧ width? letter = some width)
    (hmode : ¬ (mode = .bytes ∧ width ≠ 2)) (hwidth : 0 < width) (hn : n < Nat.pow 16 width)
    (hcoded : coded mode (Text.hexPadded width n).toList = .ok bytes) (rest : List Char) :
    decodeFrom mode .plain ('\\' :: letter :: ((Text.hexPadded width n).toList ++ rest))
      = (decodeFrom mode .plain rest).map (bytes ++ ·) := by
  have hlength := Text.length_hexPadded hwidth hn
  have hdigits : (Text.hexPadded width n).toList ≠ [] := by
    rw [← List.length_pos_iff, hlength]
    exact hwidth
  rw [decodeFrom, if_pos rfl, decodeFrom, hletter.1, hletter.2]
  dsimp only
  -- the backslash and the letter, and then as many digits as the letter asks for
  rw [if_neg hmode, decodeFrom_digits hdigits (by rw [hlength, List.length_nil, Nat.zero_add]),
    List.nil_append, hcoded]

/-- A character as an escape with its code point. -/
def codePoint (c : Char) : List Char := '\\' :: 'U' :: (Text.hexPadded 8 c.toNat).toList

/-- An escaped character is decoded to its own bytes. -/
theorem decodeFrom_codePoint (c : Char) (rest : List Char) :
    decodeFrom .string .plain (codePoint c ++ rest)
      = (decodeFrom .string .plain rest).map (String.utf8EncodeChar c ++ ·) := by
  have hcoded : coded .string (Text.hexPadded 8 c.toNat).toList
      = .ok (String.utf8EncodeChar c) := by
    have hvalid : c.toNat.isValidChar := c.valid
    rw [coded, code?_hexPadded]
    dsimp only
    rw [scalar, if_pos hvalid, Char.ofNat_toNat]
  exact decodeFrom_hexPadded ⟨rfl, rfl⟩ (by decide) (by decide) c.val.toNat_lt hcoded rest

/-- An escaped byte is decoded to itself. -/
theorem decodeFrom_byteEscape (b : UInt8) (rest : List Char) :
    decodeFrom .bytes .plain ((Value.byteEscape b).toList ++ rest)
      = (decodeFrom .bytes .plain rest).map ([b] ++ ·) := by
  have hcoded : coded .bytes (Text.hexPadded 2 b.toNat).toList = .ok [b] := by
    rw [coded, code?_hexPadded]
    dsimp only
    rw [UInt8.ofNat_toNat]
  have htext : (Value.byteEscape b).toList = '\\' :: 'x' :: (Text.hexPadded 2 b.toNat).toList :=
    String.toList_append
  rw [htext]
  exact decodeFrom_hexPadded ⟨rfl, rfl⟩ (by decide) (by decide) b.toNat_lt hcoded rest

/-! ## Whole literals -/

/-- A text that is escaped item by item is decoded item by item. -/
theorem decode_flatMap {α : Type} {escape : α → List Char} {bytes : α → List UInt8}
    (h : ∀ a rest, decodeFrom mode .plain (escape a ++ rest)
      = (decodeFrom mode .plain rest).map (bytes a ++ ·)) (as : List α) :
    decode mode (as.flatMap escape) = .ok (as.flatMap bytes) := by
  induction as with
  | nil => rfl
  | cons a as ih =>
      rw [decode] at ih
      rw [decode, List.flatMap_cons, h, ih]
      rfl

theorem decode_codePoints (s : List Char) :
    decode .string (s.flatMap codePoint) = .ok (s.flatMap String.utf8EncodeChar) :=
  decode_flatMap decodeFrom_codePoint s

theorem decode_byteEscapes (bs : List UInt8) :
    decode .bytes (bs.flatMap fun b => (Value.byteEscape b).toList) = .ok bs := by
  rw [decode_flatMap decodeFrom_byteEscape, List.flatMap_singleton']

/-- What is between the quotes of a literal. -/
theorem inside_between (c : Char) (body : List Char) : inside (c :: (body ++ [c])) = .ok body := by
  rw [inside, if_neg (by simp)]
  simp

/-- A quoted literal is decoded between its quotes, if no letter stands in front. -/
theorem literal_quoted (body : List Char) :
    literal mode ('\x22' :: (body ++ ['\x22'])) = decode mode body := by
  unfold literal
  split
  · next h => exact absurd (List.cons.inj h).1 (by decide)
  · next h => exact absurd (List.cons.inj h).1 (by decide)
  · rw [inside_between]

/-- The bytes of characters are a text again, of these characters. -/
theorem fromUTF8?_flatMap (s : List Char) :
    String.fromUTF8? ⟨(s.flatMap String.utf8EncodeChar).toArray⟩ = some (String.ofList s) := by
  have hbytes : (⟨(s.flatMap String.utf8EncodeChar).toArray⟩ : ByteArray) = s.utf8Encode := by
    apply ByteArray.ext
    exact List.data_toByteArray.symm
  rw [hbytes, String.fromUTF8?, dif_pos ByteArray.isValidUTF8_utf8Encode]
  rfl

/-- A string is read back from the code points of its characters. -/
theorem string_codePoints (s : String) :
    string ('\x22' :: (s.toList.flatMap codePoint ++ ['\x22'])) = .ok s := by
  rw [string, literal_quoted, decode_codePoints]
  dsimp only
  rw [fromUTF8?_flatMap, String.ofList_toList]

/-- A byte string is read back from its bytes. -/
theorem bytes_byteEscapes (bs : List UInt8) :
    bytes ('b' :: '\x22' :: (bs.flatMap (fun b => (Value.byteEscape b).toList) ++ ['\x22']))
      = .ok bs := by
  rw [bytes, List.drop_succ_cons, List.drop_zero, literal_quoted, decode_byteEscapes]

end Escape

end RowFilter
