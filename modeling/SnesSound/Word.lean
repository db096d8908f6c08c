import SnesSound.Index

/-!
# Bytes, words and signed samples

The machine stores bytes and 16-bit words and calculates with signed numbers. This module holds the passages between
the two: a word is put together from two bytes, low byte first, and taken apart again; a byte or word is read as a
two's complement number; and a number is brought back into the 16-bit range, by saturation (`clamp16`) or by wrapping
around (`wrap16`). Files hold numbers of any number of bytes (`littleEndian`, `ofLittleEndian`). Numbers are unbounded
integers, so a shift to the right by `n` bits is the floor division by `2 ^ n`.

Main statements: a word is determined by its two bytes (`word_lowByte_highByte`, `lowByte_word`, `highByte_word`) and a
byte by its eight bits (`ext_bit`), which masks with one bit let through (`and_bitMask_ne_zero`), and both ways into the
16-bit range end there (`clamp16_mem`, `wrap16_mem`).
-/

namespace SnesSound

/-! ## Words -/

/-- The word with the given low and high byte. -/
def word (low high : UInt8) : UInt16 := low.toUInt16 + 256 * high.toUInt16

/-- The low byte of a word. -/
def lowByte (w : UInt16) : UInt8 := w.toUInt8

/-- The high byte of a word. -/
def highByte (w : UInt16) : UInt8 := (w / 256).toUInt8

theorem toNat_word (low high : UInt8) : (word low high).toNat = low.toNat + 256 * high.toNat := by
  have hl := low.toNat_lt
  have hh := high.toNat_lt
  simp [word, UInt16.toNat_add, UInt16.toNat_mul]
  omega

theorem toNat_lowByte (w : UInt16) : (lowByte w).toNat = w.toNat % 256 := by
  simp [lowByte]

theorem toNat_highByte (w : UInt16) : (highByte w).toNat = w.toNat / 256 := by
  have hw := w.toNat_lt
  simp [highByte, UInt16.toNat_div]
  omega

theorem lowByte_word (low high : UInt8) : lowByte (word low high) = low := by
  have hl := low.toNat_lt
  apply UInt8.toNat_inj.mp
  rw [toNat_lowByte, toNat_word]
  omega

theorem highByte_word (low high : UInt8) : highByte (word low high) = high := by
  have hl := low.toNat_lt
  apply UInt8.toNat_inj.mp
  rw [toNat_highByte, toNat_word]
  omega

theorem word_lowByte_highByte (w : UInt16) : word (lowByte w) (highByte w) = w := by
  apply UInt16.toNat_inj.mp
  rw [toNat_word, toNat_lowByte, toNat_highByte]
  omega

/-! ## Numbers of several bytes -/

/-- A number in `width` bytes, lowest byte first. -/
def littleEndian : Nat → Nat → List UInt8
  | 0, _ => []
  | width + 1, n => UInt8.ofNat n :: littleEndian width (n / 256)

/-- The number that bytes make, lowest byte first. -/
def ofLittleEndian (bytes : List UInt8) : Nat := bytes.foldr (fun b n => b.toNat + 256 * n) 0

@[simp] theorem length_littleEndian (width n : Nat) : (littleEndian width n).length = width := by
  induction width generalizing n with
  | zero => rfl
  | succ width ih => simp [littleEndian, ih]

@[simp] theorem ofLittleEndian_nil : ofLittleEndian [] = 0 := rfl

@[simp] theorem ofLittleEndian_cons (b : UInt8) (bytes : List UInt8) :
    ofLittleEndian (b :: bytes) = b.toNat + 256 * ofLittleEndian bytes := rfl

theorem ofLittleEndian_replicate_zero (n : Nat) : ofLittleEndian (List.replicate n 0) = 0 := by
  induction n with
  | zero => rfl
  | succ n ih => simp [List.replicate_succ, ih]

/-- Zeros behind a number do not change it. -/
theorem ofLittleEndian_append_zeros (bytes : List UInt8) (n : Nat) :
    ofLittleEndian (bytes ++ List.replicate n 0) = ofLittleEndian bytes := by
  induction bytes with
  | nil => exact ofLittleEndian_replicate_zero n
  | cons b bytes ih => rw [List.cons_append, ofLittleEndian_cons, ih, ofLittleEndian_cons]

/-! ## Bits of a byte -/

/-- Bit `n` of a byte, bit 0 being the lowest. -/
def bit (b : UInt8) (n : Nat) : Bool := b.toNat.testBit n

/-- The byte whose only set bit is bit `n`. -/
def bitMask (n : Fin 8) : UInt8 := 1 <<< UInt8.ofNat n

/-- The byte with bit `n` set or cleared. -/
def withBit (b : UInt8) (n : Fin 8) (value : Bool) : UInt8 :=
  if value then b ||| bitMask n else b &&& ~~~bitMask n

theorem bit_or (a b : UInt8) (n : Nat) : bit (a ||| b) n = (bit a n || bit b n) := by
  simp [bit]

theorem bit_and (a b : UInt8) (n : Nat) : bit (a &&& b) n = (bit a n && bit b n) := by
  simp [bit]

theorem bit_xor (a b : UInt8) (n : Nat) : bit (a ^^^ b) n = (bit a n ^^ bit b n) := by
  simp [bit]

theorem bit_not (b : UInt8) (n : Fin 8) : bit (~~~b) n = !bit b n := by
  have hbits (b : UInt8) : bit b n = b.toBitVec.getLsbD n := BitVec.testBit_toNat b.toBitVec
  rw [hbits, hbits, UInt8.toBitVec_not, BitVec.getLsbD_not, decide_eq_true n.isLt, Bool.true_and]

theorem bit_bitMask (n m : Fin 8) : bit (bitMask n) m = decide (n = m) := by
  revert n m
  decide

/-- A mask with one bit lets that bit through. -/
theorem and_twoPow_ne_zero {w n : Nat} (hn : n < w) (x : BitVec w) :
    x &&& BitVec.twoPow w n ≠ 0#w ↔ x.getLsbD n = true := by
  have hmask : BitVec.twoPow w n ≠ 0#w := fun h => by simpa [hn] using congrArg (BitVec.getLsbD · n) h
  rw [BitVec.and_twoPow]
  split
  next hbit => exact iff_of_true hmask hbit
  next hbit => exact iff_of_false (fun h => h rfl) hbit

theorem toBitVec_bitMask (n : Fin 8) : (bitMask n).toBitVec = BitVec.twoPow 8 n := by
  revert n
  decide

theorem and_bitMask_ne_zero (b : UInt8) (n : Fin 8) : (b &&& bitMask n != 0) = bit b n := by
  rw [Bool.eq_iff_iff, bne_iff_ne, Ne, ← UInt8.toBitVec_inj, UInt8.toBitVec_and, toBitVec_bitMask]
  exact and_twoPow_ne_zero n.isLt b.toBitVec

/-- The highest bit of a word. -/
theorem and_0x8000_ne_zero (w : UInt16) : (w &&& 0x8000 != 0) = w.toNat.testBit 15 := by
  rw [Bool.eq_iff_iff, bne_iff_ne, Ne, ← UInt16.toBitVec_inj, UInt16.toBitVec_and]
  exact and_twoPow_ne_zero (by decide : 15 < 16) w.toBitVec

/-- A byte is determined by its bits. -/
theorem ext_bit {a b : UInt8} (h : ∀ n : Fin 8, bit a n = bit b n) : a = b := by
  apply UInt8.toNat_inj.mp
  apply Nat.eq_of_testBit_eq
  intro i
  by_cases hi : i < 8
  · exact h ⟨i, hi⟩
  · have hpow : 2 ^ 8 ≤ 2 ^ i := Nat.pow_le_pow_right (by decide) (Nat.le_of_not_lt hi)
    rw [Nat.testBit_lt_two_pow (Nat.lt_of_lt_of_le a.toNat_lt hpow),
      Nat.testBit_lt_two_pow (Nat.lt_of_lt_of_le b.toNat_lt hpow)]

/-! ## Signed numbers -/

/-- A byte read as a two's complement number. -/
def signed8 (b : UInt8) : Int := b.toInt8.toInt

/-- A word read as a two's complement number. -/
def signed16 (w : UInt16) : Int := w.toInt16.toInt

/-- Saturates a number to the signed 16-bit range. -/
def clamp16 (x : Int) : Int := if x < -32768 then -32768 else if 32767 < x then 32767 else x

/-- Wraps a number around into the signed 16-bit range. -/
def wrap16 (x : Int) : Int := x.bmod 65536

/-- Clears the lowest bit: the greatest even number that is not above `x`. -/
def evenBelow (x : Int) : Int := x - x % 2

/-- A byte holds a number modulo 256. -/
theorem toNat_ofInt (x : Int) : ((UInt8.ofInt x).toNat : Int) = x % 256 := by
  rw [UInt8.ofInt, UInt8.toNat_ofNat']
  omega

theorem signed8_mem (b : UInt8) : -128 ≤ signed8 b ∧ signed8 b ≤ 127 :=
  ⟨b.toInt8.le_toInt, Int.le_of_lt_add_one b.toInt8.toInt_lt⟩

theorem signed16_mem (w : UInt16) : -32768 ≤ signed16 w ∧ signed16 w ≤ 32767 :=
  ⟨w.toInt16.le_toInt, Int.le_of_lt_add_one w.toInt16.toInt_lt⟩

theorem clamp16_mem (x : Int) : -32768 ≤ clamp16 x ∧ clamp16 x ≤ 32767 := by
  unfold clamp16
  split
  · omega
  · split <;> omega

theorem clamp16_of_mem {x : Int} (h : -32768 ≤ x ∧ x ≤ 32767) : clamp16 x = x := by
  unfold clamp16
  split
  · omega
  · split <;> omega

theorem wrap16_mem (x : Int) : -32768 ≤ wrap16 x ∧ wrap16 x ≤ 32767 := by
  have h1 := Int.le_bmod (x := x) (m := 65536) (by omega)
  have h2 := Int.bmod_lt (x := x) (m := 65536) (by omega)
  unfold wrap16
  omega

theorem wrap16_of_mem {x : Int} (h : -32768 ≤ x ∧ x ≤ 32767) : wrap16 x = x := by
  unfold wrap16
  rw [Int.bmod_def]
  split <;> omega

end SnesSound
