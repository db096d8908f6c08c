import SnesSound.Cpu.Status

/-!
# Arithmetic of the CPU

Every operation takes the flags and its operands to a result and new flags. Flags that it does not mention keep their
value.

The flags of sums and differences are taken from the bits of the operands and of the result. Main statements: V tells
that the sum or difference of the signed numbers does not fit (`overflow_addBytes`, `overflow_addWords`,
`overflow_subtractWords`), C that the one of the unsigned numbers does not (`carry_addBytes`, `carry_addWords`), and H
the same of the lower bits (`halfCarry_addBytes`, `halfCarry_addWords`, `halfCarry_subtractWords`).
-/

namespace SnesSound

/-! ## Carry and overflow -/

/-- The value of a carry. -/
def carryValue (c : Bool) : Nat := if c then 1 else 0

theorem carryValue_true : carryValue true = 1 := rfl

theorem carryValue_false : carryValue false = 0 := rfl

theorem carryValue_le (c : Bool) : carryValue c ≤ 1 := by cases c <;> decide

theorem carryValue_not (c : Bool) : carryValue (!c) + carryValue c = 1 := by cases c <;> rfl

theorem xor_odd (a b : Nat) : (decide (a % 2 = 1) ^^ decide (b % 2 = 1)) = decide ((a + b) % 2 = 1) := by
  rw [Nat.add_mod]
  rcases Nat.mod_two_eq_zero_or_one a with ha | ha <;> rcases Nat.mod_two_eq_zero_or_one b with hb | hb <;>
    rw [ha, hb] <;>
    rfl

section Overflow

variable {w m c : Nat}

/-- A number in two's complement, by its sign. -/
theorem toInt_cases (hw : 1 <<< w = 2 * m) (x : BitVec w) :
    x.msb = false ∧ x.toInt = x.toNat ∧ x.toNat < m ∨ x.msb = true ∧ x.toInt = x.toNat - 2 * m ∧ m ≤ x.toNat := by
  rw [Nat.one_shiftLeft] at hw
  have hmsb : x.msb = true ↔ m ≤ x.toNat := by
    rw [BitVec.msb_eq_true_iff_two_mul_ge, hw]
    omega
  rw [BitVec.toInt_eq_msb_cond, hw]
  by_cases h : m ≤ x.toNat
  · rw [if_pos (hmsb.mpr h)]
    exact .inr ⟨hmsb.mpr h, by omega, h⟩
  · rw [if_neg (mt hmsb.mp h)]
    exact .inl ⟨Bool.eq_false_iff.mpr (mt hmsb.mp h), rfl, Nat.lt_of_not_le h⟩

/-- A sum of signed numbers and a carry has no room if both numbers have one sign and what is left of the sum has the
other. -/
theorem msb_overflow (hw : 1 <<< w = 2 * m) {x y z : BitVec w} (hc : c ≤ 1)
    (hz : x.toNat + y.toNat + c = z.toNat ∨ x.toNat + y.toNat + c = z.toNat + 2 * m) :
    (~~~(x ^^^ y) &&& (x ^^^ z)).msb = true ↔ x.toInt + y.toInt + c < -m ∨ m ≤ x.toInt + y.toInt + c := by
  have hpos : 0 < w := Nat.pos_of_ne_zero (by rintro rfl; omega)
  have hlt := z.isLt
  rw [BitVec.msb_and, BitVec.msb_not, BitVec.msb_xor, BitVec.msb_xor, decide_eq_true hpos, Bool.true_and]
  -- With all signs known, every number is its bit pattern, less `2 * m` if it is negative.
  rcases toInt_cases hw x with ⟨hx, hxv, hxm⟩ | ⟨hx, hxv, hxm⟩ <;>
    rcases toInt_cases hw y with ⟨hy, hyv, hym⟩ | ⟨hy, hyv, hym⟩ <;>
    rcases toInt_cases hw z with ⟨hz', -, hzm⟩ | ⟨hz', -, hzm⟩ <;>
    rw [hx, hy, hz', hxv, hyv] <;>
    simp <;>
    omega

theorem overflow8 {x y z : UInt8} (hc : c ≤ 1)
    (hz : x.toNat + y.toNat + c = z.toNat ∨ x.toNat + y.toNat + c = z.toNat + 256) :
    (~~~(x ^^^ y) &&& (x ^^^ z) &&& 0x80 != 0) = true ↔
      signed8 x + signed8 y + c < -128 ∨ 128 ≤ signed8 x + signed8 y + c := by
  have hbit : (~~~(x ^^^ y) &&& (x ^^^ z) &&& 0x80 != 0) = (~~~(x ^^^ y) &&& (x ^^^ z)).toBitVec.msb :=
    and_bitMask_ne_zero _ 7
  rw [hbit, UInt8.toBitVec_and, UInt8.toBitVec_not, UInt8.toBitVec_xor, UInt8.toBitVec_xor]
  exact msb_overflow (by decide : 1 <<< 8 = 2 * 128) hc hz

theorem overflow16 {x y z : UInt16} (hc : c ≤ 1)
    (hz : x.toNat + y.toNat + c = z.toNat ∨ x.toNat + y.toNat + c = z.toNat + 65536) :
    (~~~(x ^^^ y) &&& (x ^^^ z) &&& 0x8000 != 0) = true ↔
      signed16 x + signed16 y + c < -32768 ∨ 32768 ≤ signed16 x + signed16 y + c := by
  have hbit : (~~~(x ^^^ y) &&& (x ^^^ z) &&& 0x8000 != 0) = (~~~(x ^^^ y) &&& (x ^^^ z)).toBitVec.msb :=
    and_0x8000_ne_zero _
  rw [hbit, UInt16.toBitVec_and, UInt16.toBitVec_not, UInt16.toBitVec_xor, UInt16.toBitVec_xor]
  exact msb_overflow (by decide : 1 <<< 16 = 2 * 32768) hc hz

theorem signed16_not (w : UInt16) : signed16 (~~~w) = -1 - signed16 w := by
  have hlt := w.toNat_lt
  have hnot : (~~~w).toNat = 65535 - w.toNat := by simp
  have hvalue (v : UInt16) : signed16 v = v.toNat ∧ v.toNat < 32768 ∨ signed16 v = v.toNat - 65536 ∧ 32768 ≤ v.toNat :=
    (toInt_cases (by decide : 1 <<< 16 = 2 * 32768) v.toBitVec).imp And.right And.right
  have hw := hvalue w
  have hcomplement := hvalue (~~~w)
  omega

end Overflow

/-! ## Operations on two bytes -/

/-- An operation of the accumulator or of memory with another byte. -/
inductive BinaryOp
  | or
  | and
  | eor
  /-- Comparison: sets flags only. -/
  | cmp
  /-- Addition with carry. -/
  | adc
  /-- Subtraction with borrow. -/
  | sbc
  deriving DecidableEq, Repr

namespace Status

/-- Comparison of two bytes: the flags of their difference, C being set if there is no borrow. -/
def compare (p : Status) (left right : UInt8) : Status := { p with carry := right ≤ left }.setNZ (left - right)

/-- The sum of two bytes and a carry, which needs nine bits. -/
def byteSum (left right : UInt8) (c : Bool) : UInt16 :=
  left.toUInt16 + right.toUInt16 + UInt16.ofNat (carryValue c)

/-- Addition of two bytes and the carry. -/
def addBytes (p : Status) (left right : UInt8) : UInt8 × Status :=
  let sum := byteSum left right p.carry
  let result := sum.toUInt8
  (result, { p with
    overflow := ~~~(left ^^^ right) &&& (left ^^^ result) &&& 0x80 != 0
    halfCarry := (left ^^^ right ^^^ result) &&& 0x10 != 0
    carry := 0xFF < sum }.setNZ result)

/-- An operation with two bytes. A comparison returns the left one. -/
def binary (p : Status) (op : BinaryOp) (left right : UInt8) : UInt8 × Status :=
  match op with
  | .or => (left ||| right, p.setNZ (left ||| right))
  | .and => (left &&& right, p.setNZ (left &&& right))
  | .eor => (left ^^^ right, p.setNZ (left ^^^ right))
  | .cmp => (left, p.compare left right)
  | .adc => p.addBytes left right
  | .sbc => p.addBytes left (~~~right)

section AddBytes

variable (p : Status) (left right : UInt8)

theorem toNat_byteSum (c : Bool) : (byteSum left right c).toNat = left.toNat + right.toNat + carryValue c := by
  have hl := left.toNat_lt
  have hr := right.toNat_lt
  have hc := carryValue_le c
  rw [byteSum, UInt16.toNat_add, UInt16.toNat_add, UInt8.toNat_toUInt16, UInt8.toNat_toUInt16, UInt16.toNat_ofNat']
  omega

theorem toNat_addBytes :
    (p.addBytes left right).1.toNat = (left.toNat + right.toNat + carryValue p.carry) % 256 := by
  rw [← toNat_byteSum]
  exact UInt16.toNat_toUInt8 _

/-- C is set by a sum that does not fit into a byte. -/
theorem carry_addBytes :
    (p.addBytes left right).2.carry = decide (256 ≤ left.toNat + right.toNat + carryValue p.carry) := by
  rw [← toNat_byteSum]
  rfl

/-- H is set by a sum of the low halves that does not fit into a half. -/
theorem halfCarry_addBytes :
    (p.addBytes left right).2.halfCarry =
      decide (16 ≤ left.toNat % 16 + right.toNat % 16 + carryValue p.carry) := by
  have hbit (b : UInt8) : bit b 4 = decide (b.toNat / 16 % 2 = 1) := Nat.testBit_eq_decide_div_mod_eq
  have hc := carryValue_le p.carry
  have hresult := toNat_addBytes p left right
  -- The three bits 4 are odd together exactly if the low half has carried into that place.
  refine (and_bitMask_ne_zero (left ^^^ right ^^^ (p.addBytes left right).1) 4).trans ?_
  generalize (p.addBytes left right).1 = result at hresult
  change bit _ 4 = _
  rw [bit_xor, bit_xor, hbit, hbit, hbit, xor_odd, xor_odd, decide_eq_decide]
  omega

/-- V is set by a sum of signed numbers that does not fit into a byte. -/
theorem overflow_addBytes :
    (p.addBytes left right).2.overflow = true ↔
      signed8 left + signed8 right + carryValue p.carry < -128 ∨
        128 ≤ signed8 left + signed8 right + carryValue p.carry := by
  have hl := left.toNat_lt
  have hr := right.toNat_lt
  have hc := carryValue_le p.carry
  have hresult := toNat_addBytes p left right
  exact overflow8 (z := (p.addBytes left right).1) hc (by omega)

end AddBytes

end Status

/-! ## Operations on one byte -/

/-- An operation that changes a byte in place. -/
inductive UnaryOp
  | shiftLeft
  | rotateLeft
  | shiftRight
  | rotateRight
  | decrement
  | increment
  deriving DecidableEq, Repr

namespace Status

/-- Applies an operation to a byte. Shifts and rotates move the bit that falls out into C. -/
def unary (p : Status) (op : UnaryOp) (value : UInt8) : UInt8 × Status :=
  match op with
  | .shiftLeft =>
    let result := value <<< 1
    (result, { p with carry := bit value 7 }.setNZ result)
  | .rotateLeft =>
    let result := (value <<< 1) + UInt8.ofNat (carryValue p.carry)
    (result, { p with carry := bit value 7 }.setNZ result)
  | .shiftRight =>
    let result := value >>> 1
    (result, { p with carry := bit value 0 }.setNZ result)
  | .rotateRight =>
    let result := (value >>> 1) + 128 * UInt8.ofNat (carryValue p.carry)
    (result, { p with carry := bit value 0 }.setNZ result)
  | .decrement => (value - 1, p.setNZ (value - 1))
  | .increment => (value + 1, p.setNZ (value + 1))

/-! ## Operations on words -/

/-- Comparison of two words. -/
def compareWords (p : Status) (left right : UInt16) : Status :=
  { p with carry := right ≤ left }.setNZ16 (left - right)

/-- The sum of two words, which needs 17 bits. -/
def wordSum (left right : UInt16) : UInt32 := left.toUInt32 + right.toUInt32

/-- Addition of two words. The half carry is that of the high bytes. -/
def addWords (p : Status) (left right : UInt16) : UInt16 × Status :=
  let sum := wordSum left right
  let result := sum.toUInt16
  (result, { p with
    carry := 0xFFFF < sum
    halfCarry := 0xFFF < (left &&& 0xFFF) + (right &&& 0xFFF)
    overflow := ~~~(left ^^^ right) &&& (left ^^^ result) &&& 0x8000 != 0 }.setNZ16 result)

/-- Subtraction of two words. -/
def subtractWords (p : Status) (left right : UInt16) : UInt16 × Status :=
  let result := left - right
  (result, { p with
    carry := right ≤ left
    halfCarry := right &&& 0xFFF ≤ left &&& 0xFFF
    overflow := (left ^^^ right) &&& (left ^^^ result) &&& 0x8000 != 0 }.setNZ16 result)

section Words

variable (p : Status) (left right : UInt16)

theorem toNat_wordSum : (wordSum left right).toNat = left.toNat + right.toNat := by
  have hl := left.toNat_lt
  have hr := right.toNat_lt
  rw [wordSum, UInt32.toNat_add, UInt16.toNat_toUInt32, UInt16.toNat_toUInt32]
  omega

theorem toNat_and_0xFFF (w : UInt16) : (w &&& 0xFFF).toNat = w.toNat % 4096 := by
  rw [UInt16.toNat_and]
  exact Nat.and_two_pow_sub_one_eq_mod _ 12

theorem toNat_addWords : (p.addWords left right).1.toNat = (left.toNat + right.toNat) % 65536 := by
  rw [← toNat_wordSum]
  exact UInt32.toNat_toUInt16 _

/-- C is set by a sum that does not fit into a word. -/
theorem carry_addWords : (p.addWords left right).2.carry = decide (65536 ≤ left.toNat + right.toNat) := by
  rw [← toNat_wordSum]
  rfl

/-- H is set by a sum of the twelve low bits that needs a bit more. -/
theorem halfCarry_addWords :
    (p.addWords left right).2.halfCarry = decide (4096 ≤ left.toNat % 4096 + right.toNat % 4096) := by
  have hsum : ((left &&& 0xFFF) + (right &&& 0xFFF)).toNat = left.toNat % 4096 + right.toNat % 4096 := by
    rw [UInt16.toNat_add, toNat_and_0xFFF, toNat_and_0xFFF]
    omega
  rw [← hsum]
  rfl

/-- V is set by a sum of signed numbers that does not fit into a word. -/
theorem overflow_addWords :
    (p.addWords left right).2.overflow = true ↔
      signed16 left + signed16 right < -32768 ∨ 32768 ≤ signed16 left + signed16 right := by
  have hl := left.toNat_lt
  have hr := right.toNat_lt
  have hresult := toNat_addWords p left right
  have h := overflow16 (x := left) (y := right) (z := (p.addWords left right).1) (Nat.zero_le 1) (by omega)
  rwa [Int.natCast_zero, Int.add_zero] at h

theorem toNat_subtractWords :
    (p.subtractWords left right).1.toNat = (left.toNat + (65535 - right.toNat) + 1) % 65536 := by
  have hr := right.toNat_lt
  change (left - right).toNat = _
  rw [UInt16.toNat_sub]
  omega

/-- H is clear if the twelve low bits have to borrow. -/
theorem halfCarry_subtractWords :
    (p.subtractWords left right).2.halfCarry = decide (right.toNat % 4096 ≤ left.toNat % 4096) := by
  rw [← toNat_and_0xFFF, ← toNat_and_0xFFF]
  rfl

/-- V is set by a difference of signed numbers that does not fit into a word: to subtract is to add the complement
and 1. -/
theorem overflow_subtractWords :
    (p.subtractWords left right).2.overflow = true ↔
      signed16 left - signed16 right < -32768 ∨ 32768 ≤ signed16 left - signed16 right := by
  have hl := left.toNat_lt
  have hnot : (~~~right).toNat = 65535 - right.toNat := by simp
  have hresult := toNat_subtractWords p left right
  have hcomplement := overflow16 (x := left) (y := ~~~right) (z := (p.subtractWords left right).1) (Nat.le_refl 1)
    (by omega)
  rw [UInt16.xor_not, UInt16.not_not, signed16_not] at hcomplement
  refine Iff.trans hcomplement ?_
  omega

end Words

/-! ## Multiplication, division and decimal numbers -/

/-- Product of two bytes. N and Z tell about its high byte. -/
def multiply (p : Status) (y a : UInt8) : UInt16 × Status :=
  let result := y.toUInt16 * a.toUInt16
  (result, p.setNZ (highByte result))

/-- Quotient and remainder of the word YA by X, as the hardware finds them: once the quotient has more than nine bits,
it counts down from 255 in steps of `256 - x` instead. -/
def quotient (ya x y : Nat) : Nat × Nat :=
  if y < 2 * x then (ya / x, ya % x)
  else (255 - (ya - 512 * x) / (256 - x), x + (ya - 512 * x) % (256 - x))

/-- Division of YA by X. V is the ninth bit of the quotient. -/
def divide (p : Status) (ya : UInt16) (x : UInt8) : UInt8 × UInt8 × Status :=
  let y := highByte ya
  let (q, r) := quotient ya.toNat x.toNat y.toNat
  let q := UInt8.ofNat q
  (q, UInt8.ofNat r, { p with overflow := x ≤ y, halfCarry := x.toNat % 16 ≤ y.toNat % 16 }.setNZ q)

/-- Turns the sum of two decimal bytes into a decimal byte. -/
def decimalAdd (p : Status) (a : UInt8) : UInt8 × Status :=
  let carry := p.carry || 0x99 < a
  let a := if carry then a + 0x60 else a
  let a := if p.halfCarry || 9 < a % 16 then a + 6 else a
  (a, { p with carry }.setNZ a)

/-- Turns the difference of two decimal bytes into a decimal byte. -/
def decimalSubtract (p : Status) (a : UInt8) : UInt8 × Status :=
  let borrow := !p.carry || 0x99 < a
  let a := if borrow then a - 0x60 else a
  let a := if !p.halfCarry || 9 < a % 16 then a - 6 else a
  (a, { p with carry := !borrow }.setNZ a)

end Status

end SnesSound
