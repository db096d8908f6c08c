import Mathlib.Algebra.Ring.Int.Defs
import Mathlib.Algebra.Ring.Nat
import SnesSound.Proofs.Cpu.Operation

/-!
# Arithmetic of any width

The CPU adds and subtracts bytes, with C as the carry from one byte to the next, and words. What an operation does with
numbers of `n` bytes is written down here in terms of these numbers alone: the bytes of their sum (`IsSum`) or
difference (`IsDifference`), with C, V and N telling about the whole number and H about the low half of its highest
byte. A single byte and a word are cases of that, and one more byte below a number makes a number that is one byte
longer, so every chain of additions or subtractions is a case of it, too.

Main statement: bytes add up to numbers of any width, words give what two bytes give, and comparisons are subtractions
that change flags only (`arithmetic_composes`).
-/

namespace SnesSound

/-! ## Numbers of several bytes -/

/-- The number that `n` bytes with the value `x` stand for in two's complement. -/
def signedBytes (n x : Nat) : Int := (x : Int).bmod (256 ^ n)

/-- Whether `n` bytes cannot hold a number in two's complement. -/
def OutOfRange (n : Nat) (x : Int) : Prop :=
  x < -(128 * 256 ^ (n - 1) : Nat) ∨ (128 * 256 ^ (n - 1) : Nat) ≤ x

section Numbers

variable {n a b b' m : Nat}

theorem add_mul_mod (ha : a < 256) (b m : Nat) : (a + 256 * b) % (256 * m) = a + 256 * (b % m) := by
  rw [Nat.mod_mul, Nat.add_mul_mod_self_left, Nat.mod_eq_of_lt ha, Nat.add_mul_div_left _ _ (by decide),
    Nat.div_eq_of_lt ha, Nat.zero_add]

theorem add_mul_bmod (ha : a < 256) (b m : Nat) :
    ((a + 256 * b : Nat) : Int).bmod (256 * (2 * m)) = a + 256 * (b : Int).bmod (2 * m) := by
  have hmod := add_mul_mod ha b (2 * m)
  rw [Int.bmod_def, Int.bmod_def, ← Int.natCast_emod, ← Int.natCast_emod, hmod]
  generalize b % (2 * m) = r
  split <;> split <;> omega

theorem pow_even (n : Nat) : 256 ^ (n + 1) = 2 * (128 * 256 ^ n) := by
  rw [Nat.pow_succ]
  omega

/-- The sign of a number is that of its higher bytes. -/
theorem signedBytes_succ (hn : 0 < n) (ha : a < 256) (b : Nat) :
    signedBytes (n + 1) (a + 256 * b) = a + 256 * signedBytes n b := by
  obtain ⟨n, rfl⟩ := Nat.exists_eq_add_one_of_ne_zero (Nat.ne_of_gt hn)
  rw [signedBytes, signedBytes, Nat.pow_succ', pow_even]
  exact add_mul_bmod ha b _

theorem outOfRange_succ (hn : 0 < n) (ha : a < 256) (x : Int) : OutOfRange (n + 1) (a + 256 * x) ↔ OutOfRange n x := by
  obtain ⟨n, rfl⟩ := Nat.exists_eq_add_one_of_ne_zero (Nat.ne_of_gt hn)
  rw [OutOfRange, OutOfRange, Nat.add_sub_cancel, Nat.add_sub_cancel, Nat.pow_succ]
  generalize 256 ^ n = k
  omega

theorem signedBytes_complement (hn : 0 < n) (hb : b' + b + 1 = 256 ^ n) :
    signedBytes n b' = -1 - signedBytes n b := by
  obtain ⟨n, rfl⟩ := Nat.exists_eq_add_one_of_ne_zero (Nat.ne_of_gt hn)
  rw [pow_even] at hb
  rw [signedBytes, signedBytes, pow_even, Int.bmod_def, Int.bmod_def, ← Int.natCast_emod, ← Int.natCast_emod,
    Nat.mod_eq_of_lt (by omega : b < _), Nat.mod_eq_of_lt (by omega : b' < _)]
  generalize 128 * 256 ^ n = m at hb
  split <;> split <;> omega

theorem mod_add_mod_of_dvd (hm : m ∣ b' + b + 1) : b' % m + b % m + 1 = m := by
  have hpos : 0 < m := Nat.pos_of_dvd_of_pos hm (Nat.succ_pos _)
  obtain ⟨q, hq⟩ := hm
  have hb' : b' = m * q - (b + 1) := by omega
  have hmod : b' % m = m - (b % m + 1) := hb' ▸ Nat.mul_sub_mod (by omega)
  have hlt := Nat.mod_lt b hpos
  omega

/-- The bytes of a number do not tell what is above them. -/
theorem littleEndian_mod (n x : Nat) : littleEndian n (x % 256 ^ n) = littleEndian n x := by
  induction n generalizing x with
  | zero => rfl
  | succ n ih =>
    have hfirst : UInt8.ofNat (x % (256 * 256 ^ n)) = UInt8.ofNat x := by
      apply UInt8.toNat_inj.mp
      rw [UInt8.toNat_ofNat', UInt8.toNat_ofNat', Nat.mod_mul_right_mod]
    rw [littleEndian, littleEndian, Nat.pow_succ', Nat.mod_mul_right_div_self, ih, hfirst]

theorem signed8_eq (b : UInt8) : signed8 b = signedBytes 1 b.toNat := by
  rw [signed8, Int8.toInt, BitVec.toInt_eq_toNat_bmod, signedBytes, Nat.pow_one]
  rfl

theorem signed16_eq (w : UInt16) : signed16 w = signedBytes 2 w.toNat := by
  rw [signed16, Int16.toInt, BitVec.toInt_eq_toNat_bmod]
  rfl

theorem littleEndian_two (w : UInt16) : littleEndian 2 w.toNat = [lowByte w, highByte w] := by
  have hlow : UInt8.ofNat w.toNat = lowByte w := by
    apply UInt8.toNat_inj.mp
    rw [toNat_lowByte]
    exact UInt8.toNat_ofNat'
  have hhigh : UInt8.ofNat (w.toNat / 256) = highByte w := by
    have hw := w.toNat_lt
    apply UInt8.toNat_inj.mp
    rw [toNat_highByte, UInt8.toNat_ofNat']
    omega
  rw [littleEndian, littleEndian, littleEndian, hlow, hhigh]

end Numbers

/-! ## Sums -/

/-- Whether bytes and flags are what an addition of two numbers of `n` bytes and a carry leaves. -/
structure IsSum (n a b : Nat) (c : Bool) (r : List UInt8) (p : Status) : Prop where
  bytes : r = littleEndian n (a + b + carryValue c)
  /-- N is the highest bit of the sum. -/
  negative : p.negative = (a + b + carryValue c).testBit (8 * n - 1)
  /-- V tells that the sum of the signed numbers has no room. -/
  overflow : p.overflow = true ↔ OutOfRange n (signedBytes n a + signedBytes n b + carryValue c)
  /-- H tells that the low half of the highest byte, together with everything below it, gives a carry. -/
  halfCarry : p.halfCarry = true ↔
    16 * 256 ^ (n - 1) ≤ a % (16 * 256 ^ (n - 1)) + b % (16 * 256 ^ (n - 1)) + carryValue c
  /-- C tells that the sum has no room. -/
  carry : p.carry = true ↔ 256 ^ n ≤ a + b + carryValue c

/-- Whether two sets of flags agree in those that arithmetic is about, Z apart. -/
structure Status.SameArithmetic (p q : Status) : Prop where
  negative : p.negative = q.negative
  overflow : p.overflow = q.overflow
  halfCarry : p.halfCarry = q.halfCarry
  carry : p.carry = q.carry

section Sums

variable {n a b : Nat} {c c' : Bool} {r r' : List UInt8} {p q : Status}

/-- Operands and carry determine what an addition leaves. -/
theorem IsSum.unique (h : IsSum n a b c r p) (h' : IsSum n a b c r' q) : r = r' ∧ p.SameArithmetic q :=
  ⟨h.bytes.trans h'.bytes.symm,
    { negative := h.negative.trans h'.negative.symm
      overflow := Bool.eq_iff_iff.mpr (h.overflow.trans h'.overflow.symm)
      halfCarry := Bool.eq_iff_iff.mpr (h.halfCarry.trans h'.halfCarry.symm)
      carry := Bool.eq_iff_iff.mpr (h.carry.trans h'.carry.symm) }⟩

section Bytes

variable (p : Status) (l r : UInt8)

/-- Nothing is lost in the sum of two bytes. -/
theorem addBytes_value :
    l.toNat + r.toNat + carryValue p.carry =
      (p.addBytes l r).1.toNat + 256 * carryValue (p.addBytes l r).2.carry := by
  have hl := l.toNat_lt
  have hr := r.toNat_lt
  have hc := carryValue_le p.carry
  rw [p.toNat_addBytes, p.carry_addBytes]
  by_cases h : 256 ≤ l.toNat + r.toNat + carryValue p.carry
  · rw [decide_eq_true h, carryValue_true]
    omega
  · rw [decide_eq_false h, carryValue_false]
    omega

theorem isSum_addBytes :
    IsSum 1 l.toNat r.toNat p.carry [(p.addBytes l r).1] (p.addBytes l r).2 := by
  refine ⟨?bytes, ?negative, ?overflow, ?halfCarry, ?carry⟩
  case bytes =>
    rw [← littleEndian_mod, Nat.pow_one, ← p.toNat_addBytes, littleEndian, UInt8.ofNat_toNat]
    rfl
  case negative =>
    change (p.addBytes l r).1.toNat.testBit 7 = _
    rw [p.toNat_addBytes]
    exact Nat.testBit_mod_two_pow _ 8 7
  case overflow =>
    rw [← signed8_eq, ← signed8_eq]
    exact p.overflow_addBytes l r
  case halfCarry =>
    rw [p.halfCarry_addBytes]
    exact decide_eq_true_iff
  case carry =>
    rw [p.carry_addBytes]
    exact decide_eq_true_iff

end Bytes

/-- One more byte below makes numbers that are one byte longer. What it carries goes to the bytes above it. -/
theorem IsSum.cons {l r v : UInt8} {vs : List UInt8} (h : IsSum n a b c' vs p) (hn : 0 < n)
    (hv : l.toNat + r.toNat + carryValue c = v.toNat + 256 * carryValue c') :
    IsSum (n + 1) (l.toNat + 256 * a) (r.toNat + 256 * b) c (v :: vs) p := by
  have hl := l.toNat_lt
  have hr := r.toNat_lt
  have hvlt := v.toNat_lt
  have hsum : l.toNat + 256 * a + (r.toNat + 256 * b) + carryValue c =
      v.toNat + 256 * (a + b + carryValue c') := by omega
  have hlow : (v.toNat + 256 * (a + b + carryValue c')) % 256 = v.toNat := by omega
  have hhigh : (v.toNat + 256 * (a + b + carryValue c')) / 2 ^ 8 = a + b + carryValue c' := by omega
  refine ⟨?bytes, ?negative, ?overflow, ?halfCarry, ?carry⟩
  case bytes =>
    have hfirst : UInt8.ofNat (v.toNat + 256 * (a + b + carryValue c')) = v := by
      apply UInt8.toNat_inj.mp
      rw [UInt8.toNat_ofNat']
      exact hlow
    rw [hsum, littleEndian, hfirst, h.bytes]
    congr 2
    exact hhigh.symm
  case negative =>
    have hindex : 8 * n - 1 + 8 = 8 * (n + 1) - 1 := by omega
    rw [hsum, ← hindex, ← Nat.testBit_div_two_pow, hhigh]
    exact h.negative
  case overflow =>
    have htotal : signedBytes (n + 1) (l.toNat + 256 * a) + signedBytes (n + 1) (r.toNat + 256 * b) + carryValue c =
        v.toNat + 256 * (signedBytes n a + signedBytes n b + carryValue c') := by
      rw [signedBytes_succ hn hl, signedBytes_succ hn hr]
      omega
    rw [htotal, outOfRange_succ hn hvlt]
    exact h.overflow
  case halfCarry =>
    obtain ⟨n, rfl⟩ := Nat.exists_eq_add_one_of_ne_zero (Nat.ne_of_gt hn)
    have hpow : 16 * 256 ^ (n + 1 + 1 - 1) = 256 * (16 * 256 ^ (n + 1 - 1)) := by
      rw [Nat.add_sub_cancel, Nat.add_sub_cancel, Nat.pow_succ]
      omega
    rw [h.halfCarry, hpow, add_mul_mod hl, add_mul_mod hr]
    omega
  case carry =>
    rw [h.carry, hsum, Nat.pow_succ]
    omega

end Sums

/-! ## Differences -/

/-- The difference of two numbers modulo `m`, less one if there is no carry. -/
def difference (m a b : Nat) (c : Bool) : Nat := (((a : Int) - b - carryValue (!c)) % m).toNat

/-- Whether bytes and flags are what a subtraction of two numbers of `n` bytes leaves, where no carry is a borrow. -/
structure IsDifference (n a b : Nat) (c : Bool) (r : List UInt8) (p : Status) : Prop where
  bytes : r = littleEndian n (difference (256 ^ n) a b c)
  /-- N is the highest bit of the difference. -/
  negative : p.negative = (difference (256 ^ n) a b c).testBit (8 * n - 1)
  /-- V tells that the difference of the signed numbers has no room. -/
  overflow : p.overflow = true ↔ OutOfRange n (signedBytes n a - signedBytes n b - carryValue (!c))
  /-- H is clear if the low half of the highest byte, together with everything below it, has to borrow. -/
  halfCarry : p.halfCarry = false ↔
    a % (16 * 256 ^ (n - 1)) < b % (16 * 256 ^ (n - 1)) + carryValue (!c)
  /-- C is clear if there is a borrow. -/
  carry : p.carry = false ↔ a < b + carryValue (!c)

section Differences

variable {n a b b' : Nat} {c : Bool} {r r' : List UInt8} {p q : Status}

theorem IsDifference.unique (h : IsDifference n a b c r p) (h' : IsDifference n a b c r' q) :
    r = r' ∧ p.SameArithmetic q := by
  have heq {x y : Bool} (hxy : x = false ↔ y = false) : x = y := by
    cases x <;> cases y <;> simp at hxy <;> rfl
  exact ⟨h.bytes.trans h'.bytes.symm,
    { negative := h.negative.trans h'.negative.symm
      overflow := Bool.eq_iff_iff.mpr (h.overflow.trans h'.overflow.symm)
      halfCarry := heq (h.halfCarry.trans h'.halfCarry.symm)
      carry := heq (h.carry.trans h'.carry.symm) }⟩

theorem difference_eq {m : Nat} (hb : b' + b + 1 = m) (a : Nat) (c : Bool) :
    difference m a b c = (a + b' + carryValue c) % m := by
  have hc := carryValue_not c
  have hsum : (a : Int) - b - carryValue (!c) = (a + b' + carryValue c : Nat) - (m : Int) := by omega
  rw [difference, hsum, Int.sub_emod_right, ← Int.natCast_emod, Int.toNat_natCast]

/-- To subtract a number is to add its complement. -/
theorem IsSum.isDifference (h : IsSum n a b' c r p) (hn : 0 < n) (hb : b' + b + 1 = 256 ^ n) :
    IsDifference n a b c r p := by
  have hc := carryValue_not c
  refine ⟨?bytes, ?negative, ?overflow, ?halfCarry, ?carry⟩
  case bytes =>
    rw [difference_eq hb, littleEndian_mod]
    exact h.bytes
  case negative =>
    have hpow : 256 ^ n = 2 ^ (8 * n) := by rw [Nat.pow_mul]
    have hindex : 8 * n - 1 < 8 * n := by omega
    rw [difference_eq hb, hpow, Nat.testBit_mod_two_pow, decide_eq_true hindex, Bool.true_and]
    exact h.negative
  case overflow =>
    have htotal : signedBytes n a - signedBytes n b - carryValue (!c) =
        signedBytes n a + signedBytes n b' + carryValue c := by
      rw [signedBytes_complement hn hb]
      omega
    rw [htotal]
    exact h.overflow
  case halfCarry =>
    obtain ⟨n, rfl⟩ := Nat.exists_eq_add_one_of_ne_zero (Nat.ne_of_gt hn)
    have hdvd : 16 * 256 ^ n ∣ b' + b + 1 := by
      refine ⟨16, ?_⟩
      rw [hb, Nat.pow_succ]
      omega
    have hlow := mod_add_mod_of_dvd hdvd
    rw [← Bool.not_eq_true, h.halfCarry, Nat.add_sub_cancel]
    omega
  case carry =>
    rw [← Bool.not_eq_true, h.carry]
    omega

end Differences

/-! ## Words -/

section Words

variable (p : Status) (l r : UInt16)

theorem isSum_addWords :
    IsSum 2 l.toNat r.toNat false [lowByte (p.addWords l r).1, highByte (p.addWords l r).1] (p.addWords l r).2 := by
  have hsum : (p.addWords l r).1.toNat = (l.toNat + r.toNat) % 256 ^ 2 := p.toNat_addWords l r
  refine ⟨?bytes, ?negative, ?overflow, ?halfCarry, ?carry⟩
  case bytes =>
    rw [← littleEndian_two, hsum]
    exact littleEndian_mod 2 _
  case negative =>
    refine (and_0x8000_ne_zero (p.addWords l r).1).trans ?_
    rw [hsum]
    exact Nat.testBit_mod_two_pow _ 16 15
  case overflow =>
    rw [← signed16_eq, ← signed16_eq, carryValue_false, Int.natCast_zero, Int.add_zero]
    exact p.overflow_addWords l r
  case halfCarry =>
    rw [p.halfCarry_addWords]
    exact decide_eq_true_iff
  case carry =>
    rw [p.carry_addWords]
    exact decide_eq_true_iff

theorem isDifference_subtractWords :
    IsDifference 2 l.toNat r.toNat true [lowByte (p.subtractWords l r).1, highByte (p.subtractWords l r).1]
      (p.subtractWords l r).2 := by
  have hr := r.toNat_lt
  have hb : 65535 - r.toNat + r.toNat + 1 = 256 ^ 2 := by omega
  have hdifference : (p.subtractWords l r).1.toNat = difference (256 ^ 2) l.toNat r.toNat true := by
    rw [difference_eq hb]
    exact p.toNat_subtractWords l r
  refine ⟨?bytes, ?negative, ?overflow, ?halfCarry, ?carry⟩
  case bytes => rw [← littleEndian_two, hdifference]
  case negative =>
    refine (and_0x8000_ne_zero (p.subtractWords l r).1).trans ?_
    rw [hdifference]
  case overflow =>
    have hcarry : ((carryValue !true : Nat) : Int) = 0 := rfl
    rw [← signed16_eq, ← signed16_eq, hcarry, Int.sub_zero]
    exact p.overflow_subtractWords l r
  case halfCarry =>
    rw [p.halfCarry_subtractWords]
    exact decide_eq_false_iff_not.trans Nat.not_le
  case carry => exact decide_eq_false_iff_not.trans (UInt16.not_le.trans UInt16.lt_iff_toNat_lt)

end Words

/-! ## Byte by byte -/

/-- Whether two numbers of several bytes are worked on byte by byte, from the lowest on. `unit s l r v t` tells that it
is the turn of the bytes `l` and `r` in `s`, and that `v` has become of them in `t`. Whatever else happens until it is
the turn of the next ones, C stays. -/
inductive ByteByByte (unit : Core → UInt8 → UInt8 → UInt8 → Core → Prop) :
    Core → List UInt8 → List UInt8 → List UInt8 → Core → Prop
  | last {s t : Core} {l r v : UInt8} (h : unit s l r v t) : ByteByByte unit s [l] [r] [v] t
  | next {s t u w : Core} {l r v : UInt8} {a b vs : List UInt8} (h : unit s l r v t)
    (hc : u.cpu.psw.carry = t.cpu.psw.carry) (rest : ByteByByte unit u a b vs w) :
    ByteByByte unit s (l :: a) (r :: b) (v :: vs) w

/-- Whether the step from `s` to `t` is an operation with two bytes that leaves `v`. -/
def Operates (op : BinaryOp) (s : Core) (l r v : UInt8) (t : Core) : Prop :=
  ∃ destination, s.nextOperation = some ⟨op, l, r, destination⟩ ∧ t = s.step.2 ∧ v = t.byteAt destination

/-- What an operation adds to its left operand. A subtraction adds the complement of its right operand. -/
def BinaryOp.addend : BinaryOp → UInt8 → UInt8
  | .sbc, r => ~~~r
  | _, r => r

section ByteByByte

variable {unit : Core → UInt8 → UInt8 → UInt8 → Core → Prop} {op : BinaryOp} {s t : Core} {l r v : UInt8}
  {a b vs : List UInt8}

theorem ByteByByte.length_pos (h : ByteByByte unit s a b vs t) : 0 < a.length := by
  cases h <;> exact Nat.succ_pos _

theorem ByteByByte.length_eq (h : ByteByByte unit s a b vs t) : a.length = b.length := by
  induction h with
  | last => rfl
  | next _ _ _ ih => exact congrArg (· + 1) ih

theorem Operates.eq_addBytes (h : Operates op s l r v t) (hop : op = .adc ∨ op = .sbc) :
    v = (s.cpu.psw.addBytes l (op.addend r)).1 ∧ t.cpu.psw = (s.cpu.psw.addBytes l (op.addend r)).2 := by
  obtain ⟨destination, hnext, rfl, rfl⟩ := h
  have hoperated := Core.operated_step hnext
  obtain rfl | rfl := hop
  · exact ⟨hoperated.result (by simp), hoperated.psw⟩
  · exact ⟨hoperated.result (by simp), hoperated.psw⟩

/-- Additions and subtractions of bytes add numbers of any width. -/
theorem ByteByByte.isSum (h : ByteByByte (Operates op) s a b vs t) (hop : op = .adc ∨ op = .sbc) :
    IsSum a.length (ofLittleEndian a) (ofLittleEndian (b.map op.addend)) s.cpu.psw.carry vs t.cpu.psw := by
  induction h with
  | last h =>
    obtain ⟨rfl, hpsw⟩ := h.eq_addBytes hop
    rw [hpsw]
    exact isSum_addBytes _ _ _
  | next h hc rest ih =>
    obtain ⟨rfl, hpsw⟩ := h.eq_addBytes hop
    rw [hc, hpsw] at ih
    exact ih.cons rest.length_pos (addBytes_value _ _ _)

/-- Additions of bytes are an addition of the numbers that they make. -/
theorem ByteByByte.isSum_adc (h : ByteByByte (Operates .adc) s a b vs t) :
    IsSum a.length (ofLittleEndian a) (ofLittleEndian b) s.cpu.psw.carry vs t.cpu.psw := by
  have hsum := h.isSum (.inl rfl)
  have haddend : BinaryOp.adc.addend = id := rfl
  rwa [haddend, List.map_id] at hsum

theorem ofLittleEndian_complement (bytes : List UInt8) :
    ofLittleEndian (bytes.map BinaryOp.sbc.addend) + ofLittleEndian bytes + 1 = 256 ^ bytes.length := by
  induction bytes with
  | nil => rfl
  | cons b bytes ih =>
    have hb := b.toNat_lt
    have hnot : (BinaryOp.sbc.addend b).toNat = 255 - b.toNat := by
      change (~~~b).toNat = _
      simp
    rw [List.map_cons, ofLittleEndian_cons, ofLittleEndian_cons, List.length_cons, Nat.pow_succ, ← ih, hnot]
    omega

/-- Subtractions of bytes are a subtraction of the numbers that they make. -/
theorem ByteByByte.isDifference (h : ByteByByte (Operates .sbc) s a b vs t) :
    IsDifference a.length (ofLittleEndian a) (ofLittleEndian b) s.cpu.psw.carry vs t.cpu.psw :=
  (h.isSum (.inr rfl)).isDifference h.length_pos (h.length_eq ▸ ofLittleEndian_complement b)

end ByteByByte

/-! ## Words and bytes -/

/-- What an operation with YA leaves, if two operations with bytes leave these bytes and flags. -/
structure LeavesWord (t : Core) (low high : UInt8) (p : Status) : Prop where
  a : t.cpu.a = low
  y : t.cpu.y = high
  flags : t.cpu.psw.SameArithmetic p
  /-- Z tells about all 16 bits. -/
  zero : t.cpu.psw.zero = true ↔ t.cpu.ya = 0

/-- What a comparison leaves, if a subtraction leaves these flags. -/
structure Compares (s t : Core) (p : Status) : Prop where
  /-- Only the program counter and the flags N, Z and C change. -/
  registers : t.cpu.toRegisterSet = { s.cpu.toRegisterSet with
    pc := t.cpu.pc
    psw := { s.cpu.psw with negative := p.negative, zero := p.zero, carry := p.carry } }
  memory : t.memory = s.memory

section Words

variable {s t u : Core} {low high : UInt8}

theorem ofLittleEndian_pair (low high : UInt8) : ofLittleEndian [low, high] = (word low high).toNat := by
  rw [toNat_word]
  rfl

theorem LeavesWord.of_setYA {c : RegisterSet} {w : UInt16} {p q : Status}
    (ht : t.cpu.toRegisterSet = { c.setYA w with psw := p.setNZ16 w })
    (h : [lowByte w, highByte w] = [low, high] ∧ (p.setNZ16 w).SameArithmetic q) : LeavesWord t low high q := by
  obtain ⟨hbytes, hflags⟩ := h
  obtain ⟨hlow, hrest⟩ := List.cons.inj hbytes
  obtain ⟨hhigh, -⟩ := List.cons.inj hrest
  refine ⟨?_, ?_, ?_, ?_⟩
  · rw [ht]
    exact hlow
  · rw [ht]
    exact hhigh
  · rw [ht]
    exact hflags
  · rw [ht]
    change (w == 0) = true ↔ word (lowByte w) (highByte w) = 0
    rw [word_lowByte_highByte, beq_iff_eq]

theorem leavesWord_addWord (hs : s.nextInstruction = .addWord) (hu : u.cpu.psw.carry = false)
    (h : ByteByByte (Operates .adc) u [s.cpu.a, s.cpu.y] [lowByte s.wordOperand, highByte s.wordOperand]
      [low, high] t) :
    LeavesWord s.step.2 low high t.cpu.psw := by
  obtain ⟨hstep, -⟩ := Core.takesWord_addWord.step hs rfl
  have hbytes := h.isSum_adc
  rw [hu, ofLittleEndian_pair, ofLittleEndian_pair, word_lowByte_highByte] at hbytes
  exact .of_setYA hstep ((isSum_addWords s.cpu.psw s.cpu.ya s.wordOperand).unique hbytes)

theorem leavesWord_subtractWord (hs : s.nextInstruction = .subtractWord) (hu : u.cpu.psw.carry = true)
    (h : ByteByByte (Operates .sbc) u [s.cpu.a, s.cpu.y] [lowByte s.wordOperand, highByte s.wordOperand]
      [low, high] t) :
    LeavesWord s.step.2 low high t.cpu.psw := by
  obtain ⟨hstep, -⟩ := Core.takesWord_subtractWord.step hs rfl
  have hbytes := h.isDifference
  rw [hu, ofLittleEndian_pair, ofLittleEndian_pair, word_lowByte_highByte] at hbytes
  exact .of_setYA hstep ((isDifference_subtractWords s.cpu.psw s.cpu.ya s.wordOperand).unique hbytes)

end Words

section Comparisons

variable {s u : Core}

/-- A comparison of two bytes sets N, Z and C as a subtraction without borrow does. -/
theorem compare_eq (p : Status) {q : Status} (hq : q.carry = true) (l r : UInt8) :
    let d := (q.binary .sbc l r).2
    p.compare l r = { p with negative := d.negative, zero := d.zero, carry := d.carry } := by
  have hl := l.toNat_lt
  have hr := r.toNat_lt
  have hnot : (~~~r).toNat = 255 - r.toNat := by simp
  have hresult : (q.addBytes l (~~~r)).1 = l - r := by
    apply UInt8.toNat_inj.mp
    rw [q.toNat_addBytes, hq, carryValue_true, UInt8.toNat_sub, hnot]
    omega
  have hcarry : (q.addBytes l (~~~r)).2.carry = decide (r ≤ l) := by
    rw [q.carry_addBytes, hq, carryValue_true, hnot, decide_eq_decide, UInt8.le_iff_toNat_le]
    omega
  have hnegative : (q.addBytes l (~~~r)).2.negative = bit (q.addBytes l (~~~r)).1 7 := rfl
  have hzero : (q.addBytes l (~~~r)).2.zero = ((q.addBytes l (~~~r)).1 == 0) := rfl
  simp only [Status.binary, Status.compare, Status.setNZ, hcarry, hnegative, hzero, hresult]

/-- A comparison of two words sets N, Z and C as their subtraction does. -/
theorem compareWords_eq (p q : Status) (l r : UInt16) :
    let d := (q.subtractWords l r).2
    p.compareWords l r = { p with negative := d.negative, zero := d.zero, carry := d.carry } := rfl

theorem compares_byte {o o' : Operation} (hs : s.nextOperation = some o) (hu : u.nextOperation = some o')
    (hop : o.op = .cmp) (hop' : o'.op = .sbc) (hl : o'.left = o.left) (hr : o'.right = o.right)
    (hc : u.cpu.psw.carry = true) : Compares s s.step.2 u.step.2.cpu.psw := by
  have hcompared := Core.operated_step hs
  have hsubtracted := Core.operated_step hu
  obtain ⟨hregisters, hm⟩ := hcompared.compared hop
  refine ⟨?_, hm⟩
  rw [hregisters]
  have hpsw := hcompared.psw
  rw [hop] at hpsw
  have hpsw' := hsubtracted.psw
  rw [hop', hl, hr] at hpsw'
  change _ = s.cpu.psw.compare o.left o.right at hpsw
  rw [compare_eq _ hc, ← hpsw'] at hpsw
  rw [hpsw]

theorem compares_word (hs : s.nextInstruction = .compareWord) (hu : u.nextInstruction = .subtractWord)
    (hya : u.cpu.ya = s.cpu.ya) (hword : u.wordOperand = s.wordOperand) : Compares s s.step.2 u.step.2.cpu.psw := by
  obtain ⟨hcompared, hm⟩ := Core.takesWord_compareWord.step hs rfl
  obtain ⟨hsubtracted, -⟩ := Core.takesWord_subtractWord.step hu rfl
  generalize s.step.2 = t at hcompared hm ⊢
  generalize u.step.2 = v at hsubtracted ⊢
  have hpsw : v.cpu.psw = (u.cpu.psw.subtractWords u.cpu.ya u.wordOperand).2 :=
    congrArg RegisterSet.psw hsubtracted
  have hflags := compareWords_eq s.cpu.psw u.cpu.psw u.cpu.ya u.wordOperand
  rw [← hpsw, hya, hword] at hflags
  refine ⟨?_, hm⟩
  rw [← hflags, hcompared]
  rfl

end Comparisons

/-- **Arithmetic composes to any width.** Additions of two numbers of `n` bytes byte by byte, from the lowest on, leave
the `n` bytes of the sum of the numbers and the carry that there was at the beginning, and C, V, N and H as an addition
of `n` bytes at once has to leave them; subtractions leave the difference less the borrow in the same way. Addition and
subtraction of YA leave what the additions of its two bytes leave that begin without a carry, and the subtractions that
begin without a borrow, apart from Z, which tells about all 16 bits. Comparisons of bytes and of words set N, Z and C as
a subtraction without borrow does, and change no other flag, no register and no RAM. -/
theorem arithmetic_composes :
    (∀ {s t : Core} {a b r : List UInt8}, ByteByByte (Operates .adc) s a b r t →
      IsSum a.length (ofLittleEndian a) (ofLittleEndian b) s.cpu.psw.carry r t.cpu.psw) ∧
    (∀ {s t : Core} {a b r : List UInt8}, ByteByByte (Operates .sbc) s a b r t →
      IsDifference a.length (ofLittleEndian a) (ofLittleEndian b) s.cpu.psw.carry r t.cpu.psw) ∧
    (∀ {s t u : Core} {low high : UInt8}, s.nextInstruction = .addWord → u.cpu.psw.carry = false →
      ByteByByte (Operates .adc) u [s.cpu.a, s.cpu.y] [lowByte s.wordOperand, highByte s.wordOperand] [low, high] t →
        LeavesWord s.step.2 low high t.cpu.psw) ∧
    (∀ {s t u : Core} {low high : UInt8}, s.nextInstruction = .subtractWord → u.cpu.psw.carry = true →
      ByteByByte (Operates .sbc) u [s.cpu.a, s.cpu.y] [lowByte s.wordOperand, highByte s.wordOperand] [low, high] t →
        LeavesWord s.step.2 low high t.cpu.psw) ∧
    (∀ {s u : Core} {o o' : Operation}, s.nextOperation = some o → u.nextOperation = some o' →
      o.op = .cmp → o'.op = .sbc → o'.left = o.left → o'.right = o.right → u.cpu.psw.carry = true →
        Compares s s.step.2 u.step.2.cpu.psw) ∧
    (∀ {s u : Core}, s.nextInstruction = .compareWord → u.nextInstruction = .subtractWord →
      u.cpu.ya = s.cpu.ya → u.wordOperand = s.wordOperand → Compares s s.step.2 u.step.2.cpu.psw) := by
  exact ⟨fun h => h.isSum_adc, fun h => h.isDifference, leavesWord_addWord, leavesWord_subtractWord, compares_byte,
    compares_word⟩

/-- A core that is about to run a program, with the same number of two bytes in YA and in memory and the number 1 behind
it in memory. -/
def calculating (program : List UInt8) (low high : UInt8) (carry : Bool) : Core where
  cpu := { pc := 0x0200, a := low, y := high, psw := { carry } }
  memory := ((((program.zipIdx 0x0200).foldl (fun m (b, i) => m.set (UInt16.ofNat i) b) Memory.zero).set 0x10 low).set
    0x11 high).set 0x12 1

/-- ADC of 1 to a word in memory. -/
def adding : Core := calculating [0x98, 0x01, 0x10, 0x98, 0x00, 0x11] 0xFF 0x7F false

/-- SBC of 1 from a word in memory. -/
def subtracting : Core := calculating [0xB8, 0x01, 0x10, 0xB8, 0x00, 0x11] 0x00 0x80 true

/-- SUBW of 1 from YA. -/
def subtractingWord : Core := calculating [0x9A, 0x12] 0x00 0x80 false

/-- From 7FFF to 8000 and back, in memory byte by byte and in YA, and comparisons of 8000 with 1. -/
theorem arithmetic_composes_at_the_sign :
    IsSum 2 0x7FFF 1 false [0x00, 0x80] adding.step.2.step.2.cpu.psw ∧
    IsDifference 2 0x8000 1 true [0xFF, 0x7F] subtracting.step.2.step.2.cpu.psw ∧
    LeavesWord (calculating [0x7A, 0x12] 0xFF 0x7F false).step.2 0x00 0x80 adding.step.2.step.2.cpu.psw ∧
    LeavesWord subtractingWord.step.2 0xFF 0x7F subtracting.step.2.step.2.cpu.psw ∧
    Compares (calculating [0x78, 0x01, 0x10] 0x00 0x80 false) (calculating [0x78, 0x01, 0x10] 0x00 0x80 false).step.2
      subtracting.step.2.cpu.psw ∧
    Compares (calculating [0x5A, 0x12] 0x00 0x80 false) (calculating [0x5A, 0x12] 0x00 0x80 false).step.2
      subtractingWord.step.2.cpu.psw := by
  have hadd : adding.nextOperation = some ⟨.adc, 0xFF, 0x01, some 0x10⟩ ∧ 0x00 = adding.step.2.byteAt (some 0x10) ∧
      adding.step.2.nextOperation = some ⟨.adc, 0x7F, 0x00, some 0x11⟩ ∧
      0x80 = adding.step.2.step.2.byteAt (some 0x11) := by decide +kernel
  have hsubtract : subtracting.nextOperation = some ⟨.sbc, 0x00, 0x01, some 0x10⟩ ∧
      0xFF = subtracting.step.2.byteAt (some 0x10) ∧
      subtracting.step.2.nextOperation = some ⟨.sbc, 0x80, 0x00, some 0x11⟩ ∧
      0x7F = subtracting.step.2.step.2.byteAt (some 0x11) := by decide +kernel
  have hcompare : (calculating [0x78, 0x01, 0x10] 0x00 0x80 false).nextOperation =
      some ⟨.cmp, 0x00, 0x01, some 0x10⟩ := by decide +kernel
  have haddedWord : (calculating [0x7A, 0x12] 0xFF 0x7F false).peek 0x0200 = 0x7A ∧
      (calculating [0x7A, 0x12] 0xFF 0x7F false).wordOperand = 1 := by decide +kernel
  have hsubtractedWord : subtractingWord.peek 0x0200 = 0x9A ∧ subtractingWord.wordOperand = 1 := by decide +kernel
  have hcomparedWord : (calculating [0x5A, 0x12] 0x00 0x80 false).peek 0x0200 = 0x5A ∧
      (calculating [0x5A, 0x12] 0x00 0x80 false).wordOperand = 1 := by decide +kernel
  have hsum : ByteByByte (Operates .adc) adding [0xFF, 0x7F] [0x01, 0x00] [0x00, 0x80] adding.step.2.step.2 :=
    .next ⟨_, hadd.1, rfl, hadd.2.1⟩ rfl (.last ⟨_, hadd.2.2.1, rfl, hadd.2.2.2⟩)
  have hdifference : ByteByByte (Operates .sbc) subtracting [0x00, 0x80] [0x01, 0x00] [0xFF, 0x7F]
      subtracting.step.2.step.2 :=
    .next ⟨_, hsubtract.1, rfl, hsubtract.2.1⟩ rfl (.last ⟨_, hsubtract.2.2.1, rfl, hsubtract.2.2.2⟩)
  obtain ⟨hsums, hdifferences, haddWord, hsubtractWord, hcompareBytes, hcompareWords⟩ := arithmetic_composes
  refine ⟨hsums hsum, hdifferences hdifference,
    haddWord (u := adding) (congrArg Opcode.decode haddedWord.1) rfl ?_,
    hsubtractWord (u := subtracting) (congrArg Opcode.decode hsubtractedWord.1) rfl ?_,
    hcompareBytes hcompare hsubtract.1 rfl rfl rfl rfl rfl,
    hcompareWords (congrArg Opcode.decode hcomparedWord.1) (congrArg Opcode.decode hsubtractedWord.1) rfl ?_⟩
  · rw [haddedWord.2]
    exact hsum
  · rw [hsubtractedWord.2]
    exact hdifference
  · rw [hsubtractedWord.2, hcomparedWord.2]

end SnesSound
