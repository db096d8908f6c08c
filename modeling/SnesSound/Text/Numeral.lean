/-!
# Numerals

Numbers as text: decimal numerals are read, and numbers are written with a fixed least number of digits.

Main statement: what was written is read back (`read_decimal`).
-/

namespace SnesSound.Numeral

/-- Reads digits, of which there must be one. -/
def readDigits (cs : List Char) : Option Nat :=
  if cs ≠ [] ∧ cs.all Char.isDigit then some (Nat.ofDigitChars 10 cs 0) else none

/-- Reads a decimal numeral of at most `greatest`; a plus sign may stand in front. -/
def read (greatest : Nat) (cs : List Char) : Option Nat :=
  let n := match cs with
    | '+' :: rest => readDigits rest
    | cs => readDigits cs
  n.filter (· ≤ greatest)

/-- Writes a number in a base, with leading zeros up to a width. -/
def write (base width n : Nat) : String := String.ofList (List.leftpad width '0' (Nat.toDigits base n))

/-- Writes a number with hexadecimal digits. -/
def hex (width n : Nat) : String := write 16 width n

/-- Writes a number with binary digits. -/
def binary (width n : Nat) : String := write 2 width n

/-- Writes a number with decimal digits. -/
def decimal (width n : Nat) : String := write 10 width n

theorem toList_decimal (width n : Nat) :
    (decimal width n).toList = List.replicate (width - (Nat.toDigits 10 n).length) '0' ++ Nat.toDigits 10 n := by
  simp [decimal, write, List.leftpad]

theorem isDigit_of_mem_decimal {width n : Nat} {c : Char} (h : c ∈ (decimal width n).toList) : c.isDigit := by
  rw [toList_decimal, List.mem_append, List.mem_replicate] at h
  rcases h with ⟨_, rfl⟩ | h
  · decide
  · exact Nat.isDigit_of_mem_toDigits (by decide) (by decide) h

/-- Digits are read as the number that they make, unless it is too great. -/
theorem read_digits {greatest : Nat} {cs : List Char} (hne : cs ≠ []) (hall : ∀ c ∈ cs, c.isDigit = true)
    (h : Nat.ofDigitChars 10 cs 0 ≤ greatest) : read greatest cs = some (Nat.ofDigitChars 10 cs 0) := by
  have hdigits : readDigits cs = some (Nat.ofDigitChars 10 cs 0) := if_pos ⟨hne, List.all_eq_true.mpr hall⟩
  unfold read
  split
  next rest => exact absurd (hall '+' List.mem_cons_self) (by decide)
  next => rw [hdigits]; simp [h]

theorem toList_decimal_ne_nil (width n : Nat) : (decimal width n).toList ≠ [] := by
  rw [toList_decimal]
  exact List.append_ne_nil_of_right_ne_nil _ Nat.toDigits_ne_nil

theorem ofDigitChars_decimal (width n : Nat) : Nat.ofDigitChars 10 (decimal width n).toList 0 = n := by
  rw [toList_decimal, Nat.ofDigitChars_append, Nat.ofDigitChars_replicate_zero, Nat.mul_zero,
    Nat.ofDigitChars_toDigits (by decide) (by decide)]

/-- What was written is read back. -/
theorem read_decimal {greatest n : Nat} (width : Nat) (h : n ≤ greatest) :
    read greatest (decimal width n).toList = some n := by
  have hvalue := ofDigitChars_decimal width n
  rw [read_digits (toList_decimal_ne_nil width n) (fun _ => isDigit_of_mem_decimal) (by rwa [hvalue]), hvalue]

end SnesSound.Numeral
