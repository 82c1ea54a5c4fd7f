/-
Digits read back.

Numbers are written with the digits that the library gives them, and read by a function of our own
that knows two bases. In either base what is written is read back, zeros in front or not.
-/
import RowFilter.Text

set_option autoImplicit false

namespace RowFilter.Text

variable {base n : Nat}

/-- A digit that is printed is read as itself. -/
theorem hexDigit?_digitChar {d : Nat} (h : d < 16) : hexDigit? d.digitChar = some d := by
  have hall : ∀ d : Fin 16, hexDigit? d.val.digitChar = some d.val := by decide
  exact hall ⟨d, h⟩

/-! ## Values of digit runs -/

/-- Digits behind others go on from their value. -/
theorem digitsValue?_append (start : Nat) (first second : List Char) :
    digitsValue? base start (first ++ second)
      = (digitsValue? base start first).bind fun value => digitsValue? base value second := by
  induction first generalizing start with
  | nil => rfl
  | cons c rest ih =>
      rw [List.cons_append, digitsValue?, digitsValue?]
      rcases hexDigit? c with _ | d
      · rfl
      · dsimp only
        split
        · exact ih _
        · rfl

theorem digitsValue?_digit {d : Nat} (hd : d < base) (hbase : base ≤ 16) (start : Nat) :
    digitsValue? base start [d.digitChar] = some (start * base + d) := by
  rw [digitsValue?, hexDigit?_digitChar (by omega)]
  dsimp only
  rw [if_pos hd, digitsValue?]

/-- A number is read back from its digits. -/
theorem digitsValue?_toDigits (hbase : 1 < base) (hbase' : base ≤ 16) (n : Nat) :
    digitsValue? base 0 (Nat.toDigits base n) = some n := by
  induction n using Nat.strongRecOn with
  | ind n ih =>
      rw [Nat.toDigits_eq_if hbase]
      split
      · next hsmall =>
          rw [digitsValue?_digit hsmall hbase', Nat.zero_mul, Nat.zero_add]
      · next hlarge =>
          have hless : n / base < n := Nat.div_lt_self (by omega) hbase
          have hdigit : n % base < base := Nat.mod_lt _ (by omega)
          rw [digitsValue?_append, ih _ hless, Option.bind_some,
            digitsValue?_digit hdigit hbase', Nat.mul_comm, Nat.div_add_mod]

/-- Zeros in front add nothing. -/
theorem digitsValue?_zeros (hbase : 0 < base) (count : Nat) (rest : List Char) :
    digitsValue? base 0 (List.replicate count '0' ++ rest) = digitsValue? base 0 rest := by
  induction count with
  | zero => rfl
  | succ count ih =>
      have hzero : hexDigit? '0' = some 0 := rfl
      rw [List.replicate_succ, List.cons_append, digitsValue?, hzero]
      dsimp only
      rw [if_pos hbase, Nat.zero_mul, Nat.zero_add, ih]

/-! ## Padded hexadecimals -/

/-- A padded number is its digits behind zeros. -/
theorem toList_hexPadded (width n : Nat) :
    (hexPadded width n).toList
      = List.replicate (width - (Nat.toDigits 16 n).length) '0' ++ Nat.toDigits 16 n :=
  String.toList_ofList

theorem digitsValue?_hexPadded (width n : Nat) :
    digitsValue? 16 0 (hexPadded width n).toList = some n := by
  rw [toList_hexPadded, digitsValue?_zeros (by omega), digitsValue?_toDigits (by omega) (by omega)]

/-- A number that fits is padded to the width. -/
theorem length_hexPadded {width : Nat} (hwidth : 0 < width) (h : n < Nat.pow 16 width) :
    (hexPadded width n).toList.length = width := by
  have hle := (Nat.length_toDigits_le_iff (by omega) hwidth).mpr h
  rw [toList_hexPadded, List.length_append, List.length_replicate]
  omega

/-- Numbers are printed with the digits of their base. -/
theorem exists_digitChar_of_mem_toDigits (hbase : 1 < base) {c : Char}
    (hc : c ∈ Nat.toDigits base n) : ∃ d, d < base ∧ c = d.digitChar := by
  induction n using Nat.strongRecOn with
  | ind n ih =>
      rw [Nat.toDigits_eq_if hbase] at hc
      split at hc
      · next hsmall => exact ⟨n, hsmall, List.mem_singleton.mp hc⟩
      · next hlarge =>
          -- one of the digits in front, or the last one
          rcases List.mem_append.mp hc with hc | hc
          · exact ih (n / base) (Nat.div_lt_self (by omega) hbase) hc
          · exact ⟨n % base, Nat.mod_lt _ (by omega), List.mem_singleton.mp hc⟩

/-- With base sixteen these are the hexadecimal ones, in small letters. -/
theorem mem_hexPadded {width : Nat} {c : Char} (hc : c ∈ (hexPadded width n).toList) :
    c ∈ "0123456789abcdef".toList := by
  have hall : ∀ d : Fin 16, d.val.digitChar ∈ "0123456789abcdef".toList := by decide
  rw [toList_hexPadded] at hc
  rcases List.mem_append.mp hc with hc | hc
  · obtain rfl := List.eq_of_mem_replicate hc
    exact List.mem_cons_self
  · obtain ⟨d, hd, rfl⟩ := exists_digitChar_of_mem_toDigits (by omega) hc
    exact hall ⟨d, hd⟩

/-- What holds of every hexadecimal digit holds of padded ones. -/
theorem of_mem_hexPadded (p : Char → Bool) (hp : "0123456789abcdef".toList.all p = true)
    {width : Nat} {c : Char} (hc : c ∈ (hexPadded width n).toList) : p c = true :=
  List.all_eq_true.mp hp c (mem_hexPadded hc)

end RowFilter.Text
