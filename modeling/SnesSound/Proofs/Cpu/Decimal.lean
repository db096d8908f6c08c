import SnesSound.Proofs.Cpu.Carry

/-!
# Decimal arithmetic

A byte can hold two decimal digits, the higher one in its high half. The CPU adds and subtracts such bytes as if they
were numbers of eight bits, and DAA and DAS make decimal bytes of what comes out; H and C tell them where a digit has
overflown, or else the digit itself does. C then is the carry to the next two digits.

Main statement: byte by byte, this adds and subtracts decimal numbers of any number of digits
(`decimal_arithmetic_composes`).
-/

namespace SnesSound

/-! ## Decimal numbers -/

/-- Whether both halves of a byte are decimal digits. -/
def IsDecimal (b : UInt8) : Prop := b.toNat / 16 ≤ 9 ∧ b.toNat % 16 ≤ 9

/-- The number that two decimal digits make. -/
def decimalByte (b : UInt8) : Nat := 10 * (b.toNat / 16) + b.toNat % 16

/-- The number that decimal bytes make, lowest byte first. -/
def ofDecimal (bytes : List UInt8) : Nat := bytes.foldr (fun b n => decimalByte b + 100 * n) 0

/-- Whether bytes hold a number as `2 * n` decimal digits. -/
structure HoldsDecimal (n x : Nat) (bytes : List UInt8) : Prop where
  length : bytes.length = n
  digits : ∀ b ∈ bytes, IsDecimal b
  value : ofDecimal bytes = x

/-- What an operation adds to its left operand, in numbers below `m`. -/
def BinaryOp.decimalAddend (op : BinaryOp) (m y : Nat) : Nat :=
  match op with
  | .sbc => m - 1 - y
  | _ => y

section Numbers

variable {a b : UInt8} {bytes : List UInt8}

theorem decimalByte_lt (h : IsDecimal b) : decimalByte b < 100 := by
  obtain ⟨hhigh, hlow⟩ := h
  rw [decimalByte]
  omega

theorem ofDecimal_cons (b : UInt8) (bytes : List UInt8) :
    ofDecimal (b :: bytes) = decimalByte b + 100 * ofDecimal bytes := rfl

theorem ofDecimal_lt (h : ∀ b ∈ bytes, IsDecimal b) : ofDecimal bytes < 100 ^ bytes.length := by
  induction bytes with
  | nil => exact Nat.one_pos
  | cons b bytes ih =>
    obtain ⟨hb, hbytes⟩ := List.forall_mem_cons.mp h
    have hlow := decimalByte_lt hb
    have hhigh := ih hbytes
    rw [ofDecimal_cons, List.length_cons, Nat.pow_succ]
    omega

theorem decimalAddend_cons (op : BinaryOp) {m x y : Nat} (hx : x < 100) (hy : y < m) :
    op.decimalAddend (100 * m) (x + 100 * y) = op.decimalAddend 100 x + 100 * op.decimalAddend m y := by
  cases op with
  | sbc =>
    change 100 * m - 1 - (x + 100 * y) = 100 - 1 - x + 100 * (m - 1 - y)
    omega
  | _ => rfl

/-- What a carry leaves is the remainder. -/
theorem eq_mod_of_carry {m v x : Nat} {c : Bool} (hv : v < m) (h : v + m * carryValue c = x) :
    v = x % m ∧ (c = true ↔ m ≤ x) := by
  subst h
  refine ⟨by rw [Nat.add_mul_mod_self_left, Nat.mod_eq_of_lt hv], ?_⟩
  cases c with
  | false => simpa [carryValue] using hv
  | true => simp [carryValue]

end Numbers

/-! ## Decimal bytes -/

namespace BinaryOp

/-- The instruction that makes a decimal byte of the result of an operation. -/
def adjustment : BinaryOp → Instruction
  | .sbc => .decimalSubtract
  | _ => .decimalAdd

/-- How a decimal byte is made of the result of an operation. -/
def adjust (op : BinaryOp) (p : Status) (a : UInt8) : UInt8 × Status :=
  match op with
  | .sbc => p.decimalSubtract a
  | _ => p.decimalAdd a

end BinaryOp

namespace Status

variable {l r : UInt8}

theorem toNat_add_if (k : Bool) (b c : UInt8) :
    (if k then b + c else b).toNat = (b.toNat + c.toNat * carryValue k) % 256 := by
  have hb := b.toNat_lt
  cases k with
  | true => rw [if_pos rfl, UInt8.toNat_add, carryValue_true, Nat.mul_one]
  | false => exact (Nat.mod_eq_of_lt hb).symm

theorem toNat_sub_if (k : Bool) (b c : UInt8) :
    (if k then b - c else b).toNat = (b.toNat + (256 - c.toNat) * carryValue k) % 256 := by
  have hb := b.toNat_lt
  cases k with
  | true => rw [if_pos rfl, UInt8.toNat_sub, carryValue_true, Nat.mul_one, Nat.add_comm]
  | false => exact (Nat.mod_eq_of_lt hb).symm

theorem nine_lt_mod (b : UInt8) : decide (9 < b % 16) = decide (9 < b.toNat % 16) := by
  rw [decide_eq_decide, UInt8.lt_iff_toNat_lt, UInt8.toNat_mod]
  rfl

/-- DAA corrects the high digit, then the low one. -/
theorem toNat_decimalAdd (p : Status) (a : UInt8) :
    (p.decimalAdd a).1.toNat =
      (a.toNat + 96 * carryValue (p.decimalAdd a).2.carry +
        6 * carryValue (p.halfCarry || decide (9 < a.toNat % 16))) % 256 := by
  have hhigh := toNat_add_if (p.decimalAdd a).2.carry a 0x60
  have hlow : (p.decimalAdd a).1.toNat = _ :=
    toNat_add_if (p.halfCarry || decide (9 < (if (p.decimalAdd a).2.carry then a + 0x60 else a) % 16))
      (if (p.decimalAdd a).2.carry then a + 0x60 else a) 6
  have hdigit : (a.toNat + (0x60 : UInt8).toNat * carryValue (p.decimalAdd a).2.carry) % 256 % 16 = a.toNat % 16 := by
    change (a.toNat + 96 * _) % 256 % 16 = _
    omega
  rw [nine_lt_mod, hhigh, hdigit] at hlow
  rw [hlow, Nat.mod_add_mod]
  rfl

/-- DAS corrects the high digit, then the low one. -/
theorem toNat_decimalSubtract (p : Status) (a : UInt8) :
    (p.decimalSubtract a).1.toNat =
      (a.toNat + 160 * carryValue (!(p.decimalSubtract a).2.carry) +
        250 * carryValue (!p.halfCarry || decide (9 < a.toNat % 16))) % 256 := by
  have hborrow : (!(p.decimalSubtract a).2.carry) = (!p.carry || decide (0x99 < a)) := Bool.not_not _
  have hhigh := toNat_sub_if (!p.carry || decide (0x99 < a)) a 0x60
  have hlow : (p.decimalSubtract a).1.toNat = _ :=
    toNat_sub_if (!p.halfCarry || decide (9 < (if (!p.carry || decide (0x99 < a)) then a - 0x60 else a) % 16))
      (if (!p.carry || decide (0x99 < a)) then a - 0x60 else a) 6
  have hdigit : (a.toNat + (256 - (0x60 : UInt8).toNat) * carryValue (!p.carry || decide (0x99 < a))) % 256 % 16 =
      a.toNat % 16 := by
    change (a.toNat + 160 * _) % 256 % 16 = _
    omega
  rw [nine_lt_mod, hhigh, hdigit] at hlow
  rw [hlow, hborrow, Nat.mod_add_mod]
  rfl

/-- ADC and DAA add two decimal digits. -/
theorem decimalAdd_addBytes (hl : IsDecimal l) (hr : IsDecimal r) (p : Status) :
    let q := p.addBytes l r
    let d := q.2.decimalAdd q.1
    IsDecimal d.1 ∧
      decimalByte d.1 + 100 * carryValue d.2.carry = decimalByte l + decimalByte r + carryValue p.carry := by
  intro q d
  obtain ⟨hlh, hll⟩ := hl
  obtain ⟨hrh, hrl⟩ := hr
  have hp := carryValue_le p.carry
  have hq : q.1.toNat = (l.toNat + r.toNat + carryValue p.carry) % 256 := p.toNat_addBytes l r
  -- C and the comparison with 0x99 together tell whether the two digits have overflown, H and the comparison with 9
  -- whether the lower one has.
  have hcarry : d.2.carry = decide (154 ≤ l.toNat + r.toNat + carryValue p.carry) := by
    change (q.2.carry || decide (153 < q.1.toNat)) = _
    rw [hq, p.carry_addBytes, ← Bool.decide_or, decide_eq_decide]
    omega
  have hhalf : (q.2.halfCarry || decide (9 < q.1.toNat % 16)) =
      decide (10 ≤ l.toNat % 16 + r.toNat % 16 + carryValue p.carry) := by
    rw [hq, p.halfCarry_addBytes, ← Bool.decide_or, decide_eq_decide]
    omega
  have hd : d.1.toNat = (q.1.toNat + 96 * carryValue d.2.carry + _) % 256 := toNat_decimalAdd q.2 q.1
  rw [hhalf, hcarry, hq] at hd
  rw [IsDecimal, decimalByte, decimalByte, decimalByte, hcarry]
  generalize carryValue p.carry = c at *
  generalize d.1.toNat = v at *
  -- What remains of the sum is 160 less if both digits have overflown, and 6 more if the lower one has.
  by_cases hk : 154 ≤ l.toNat + r.toNat + c <;> by_cases hh : 10 ≤ l.toNat % 16 + r.toNat % 16 + c <;>
    simp only [hk, hh, decide_true, decide_false, carryValue_true, carryValue_false] at hd ⊢
  · have hv : v = l.toNat + r.toNat + c - 154 := by omega
    rw [hv]
    omega
  · have hv : v = l.toNat + r.toNat + c - 160 := by omega
    rw [hv]
    omega
  · have hv : v = l.toNat + r.toNat + c + 6 := by omega
    rw [hv]
    omega
  · have hv : v = l.toNat + r.toNat + c := by omega
    rw [hv]
    omega

/-- SBC and DAS subtract two decimal digits, which is to add their complement. -/
theorem decimalSubtract_addBytes (hl : IsDecimal l) (hr : IsDecimal r) (p : Status) :
    let q := p.addBytes l (~~~r)
    let d := q.2.decimalSubtract q.1
    IsDecimal d.1 ∧
      decimalByte d.1 + 100 * carryValue d.2.carry = decimalByte l + (99 - decimalByte r) + carryValue p.carry := by
  intro q d
  obtain ⟨hlh, hll⟩ := hl
  obtain ⟨hrh, hrl⟩ := hr
  have hp := carryValue_le p.carry
  have hnot : (~~~r).toNat = 255 - r.toNat := by simp
  have hq : q.1.toNat = (l.toNat + (255 - r.toNat) + carryValue p.carry) % 256 := hnot ▸ p.toNat_addBytes l (~~~r)
  have hborrow : (!d.2.carry) = decide (l.toNat + (255 - r.toNat) + carryValue p.carry < 256) := by
    change (!!(!q.2.carry || decide (153 < q.1.toNat))) = _
    rw [hq, p.carry_addBytes, hnot, Bool.not_not, ← decide_not, ← Bool.decide_or, decide_eq_decide]
    omega
  have hhalf : (!q.2.halfCarry || decide (9 < q.1.toNat % 16)) =
      decide (l.toNat % 16 + (15 - r.toNat % 16) + carryValue p.carry < 16) := by
    rw [hq, p.halfCarry_addBytes, hnot, ← decide_not, ← Bool.decide_or, decide_eq_decide]
    omega
  have hd : d.1.toNat = (q.1.toNat + 160 * carryValue (!d.2.carry) + _) % 256 := toNat_decimalSubtract q.2 q.1
  have hcarry := carryValue_not d.2.carry
  rw [hborrow] at hcarry
  rw [hhalf, hborrow, hq] at hd
  rw [IsDecimal, decimalByte, decimalByte, decimalByte]
  generalize carryValue p.carry = c at *
  generalize carryValue d.2.carry = k at *
  generalize d.1.toNat = v at *
  -- The difference, which is 256 less than this sum, becomes 160 more if both digits borrow, and 6 less if the lower
  -- one does.
  by_cases hk : l.toNat + (255 - r.toNat) + c < 256 <;>
    by_cases hh : l.toNat % 16 + (15 - r.toNat % 16) + c < 16 <;>
    simp only [hk, hh, decide_true, decide_false, carryValue_true, carryValue_false] at hd hcarry
  · have hv : v = l.toNat + (255 - r.toNat) + c - 102 := by omega
    rw [hv]
    omega
  · have hv : v = l.toNat + (255 - r.toNat) + c - 96 := by omega
    rw [hv]
    omega
  · have hv : v = l.toNat + (255 - r.toNat) + c - 262 := by omega
    rw [hv]
    omega
  · have hv : v = l.toNat + (255 - r.toNat) + c - 256 := by omega
    rw [hv]
    omega

end Status

/-! ## Steps -/

/-- Whether an instruction loads A from memory. -/
def Instruction.loadsAccumulator : Instruction → Bool
  | .load .a _ | .loadIncrement => true
  | _ => false

/-- Whether three steps lead from `s` to `t` that load `l`, carry out an operation with `l` and `r`, and make decimal
digits `v` of its result. -/
structure WorksDecimal (op : BinaryOp) (s : Core) (l r v : UInt8) (t : Core) : Prop where
  loads : s.nextInstruction.loadsAccumulator = true
  operates : s.step.2.nextOperation = some ⟨op, l, r, none⟩
  adjusts : s.step.2.step.2.nextInstruction = op.adjustment
  last : t = s.step.2.step.2.step.2
  result : v = t.cpu.a

theorem worksDecimal_iff {op : BinaryOp} {s : Core} {l r v : UInt8} :
    WorksDecimal op s l r v s.step.2.step.2.step.2 ↔
      s.nextInstruction.loadsAccumulator = true ∧ s.step.2.nextOperation = some ⟨op, l, r, none⟩ ∧
        s.step.2.step.2.nextInstruction = op.adjustment ∧ v = s.step.2.step.2.step.2.cpu.a :=
  ⟨fun h => ⟨h.loads, h.operates, h.adjusts, h.result⟩,
    fun ⟨hloads, hoperates, hadjusts, hresult⟩ => ⟨hloads, hoperates, hadjusts, rfl, hresult⟩⟩

namespace Core

variable {s : Core}

/-- Loads leave C alone. -/
theorem carry_step_of_loads (h : s.nextInstruction.loadsAccumulator = true) :
    s.step.2.cpu.psw.carry = s.cpu.psw.carry := by
  unfold Instruction.loadsAccumulator at h
  split at h
  next source hi =>
    obtain ⟨hr, -⟩ := (fetches_operand source).opcodeFetched s
    rw [step_of_decode hi rfl]
    change ((Processor.operand source : Exec UInt8) s.opcodeFetched).2.cpu.psw.carry = _
    rw [hr]
  next hi =>
    have hperform : ((Instruction.loadIncrement.perform : Exec Unit) s.opcodeFetched).2.cpu.psw.carry =
        (s.opcodeFetched.afterRead (s.opcodeFetched.cpu.directAddress s.opcodeFetched.cpu.x)).cpu.psw.carry := by
      simp only [Instruction.perform, bind_apply, ask_apply, read_apply, update_apply]
      rfl
    rw [step_of_decode hi rfl]
    change ((Instruction.loadIncrement.perform : Exec Unit) s.opcodeFetched).2.cpu.psw.carry = _
    rw [hperform, registers_afterRead, registers_opcodeFetched]
  next => cases h

theorem step_adjustment {op : BinaryOp} (h : s.nextInstruction = op.adjustment) :
    s.step.2.cpu.a = (op.adjust s.cpu.psw s.cpu.a).1 ∧ s.step.2.cpu.psw = (op.adjust s.cpu.psw s.cpu.a).2 := by
  have hc : op.adjustment.isConditional = false := by cases op <;> rfl
  have hr := registers_opcodeFetched s
  have hperform : ((op.adjustment.perform : Exec Unit) s.opcodeFetched).2 =
      let y := op.adjust s.opcodeFetched.cpu.psw s.opcodeFetched.cpu.a
      s.opcodeFetched.setRegisters { s.opcodeFetched.cpu.toRegisterSet with a := y.1, psw := y.2 } := by
    cases op <;>
      simp only [BinaryOp.adjustment, Instruction.perform, bind_apply, ask_apply, withFlags_apply, update_apply] <;> rfl
  rw [step_of_decode h hc, hperform, hr]
  exact ⟨rfl, rfl⟩

end Core

section Runs

variable {op : BinaryOp} {s t : Core} {l r v : UInt8} {a b vs : List UInt8} {n x y : Nat}

/-- Two decimal digits are added with a carry, or their complement is. -/
theorem WorksDecimal.value (h : WorksDecimal op s l r v t) (hop : op = .adc ∨ op = .sbc) (hl : IsDecimal l)
    (hr : IsDecimal r) :
    IsDecimal v ∧ decimalByte v + 100 * carryValue t.cpu.psw.carry =
      decimalByte l + op.decimalAddend 100 (decimalByte r) + carryValue s.cpu.psw.carry := by
  have hne : op ≠ .cmp := by
    rintro rfl
    simp at hop
  have hcarry := Core.carry_step_of_loads h.loads
  have hoperated := Core.operated_step h.operates
  have hresult : s.step.2.step.2.cpu.a = _ := hoperated.result hne
  obtain ⟨ha, hpsw⟩ := Core.step_adjustment h.adjusts
  rw [h.result, h.last, ha, hpsw, ← hcarry, hresult, hoperated.psw]
  obtain rfl | rfl := hop
  · exact Status.decimalAdd_addBytes hl hr _
  · exact Status.decimalSubtract_addBytes hl hr _

/-- Decimal digits make decimal numbers, byte by byte. -/
theorem ByteByByte.decimal_value (h : ByteByByte (WorksDecimal op) s a b vs t) (hop : op = .adc ∨ op = .sbc)
    (ha : ∀ b ∈ a, IsDecimal b) (hb : ∀ c ∈ b, IsDecimal c) :
    vs.length = a.length ∧ (∀ v ∈ vs, IsDecimal v) ∧
      ofDecimal vs + 100 ^ a.length * carryValue t.cpu.psw.carry =
        ofDecimal a + op.decimalAddend (100 ^ a.length) (ofDecimal b) + carryValue s.cpu.psw.carry := by
  induction h with
  | last h =>
    obtain ⟨hv, hvalue⟩ := h.value hop (ha _ (by simp)) (hb _ (by simp))
    exact ⟨rfl, by simpa using hv, by simpa [ofDecimal] using hvalue⟩
  | @next s t u w l r v a b vs h hc rest ih =>
    obtain ⟨hl, ha⟩ := List.forall_mem_cons.mp ha
    obtain ⟨hr, hb⟩ := List.forall_mem_cons.mp hb
    obtain ⟨hv, hvalue⟩ := h.value hop hl hr
    obtain ⟨hlen, hvs, hrest⟩ := ih ha hb
    have hlt : ofDecimal b < 100 ^ a.length := rest.length_eq ▸ ofDecimal_lt hb
    refine ⟨congrArg (· + 1) hlen, List.forall_mem_cons.mpr ⟨hv, hvs⟩, ?_⟩
    rw [List.length_cons, Nat.pow_succ', ofDecimal_cons, ofDecimal_cons, ofDecimal_cons,
      decimalAddend_cons op (decimalByte_lt hr) hlt, Nat.mul_assoc]
    rw [hc] at hrest
    omega

/-- What is left of decimal numbers is a decimal number again, modulo the numbers that there is room for. -/
theorem ByteByByte.holdsDecimal (h : ByteByByte (WorksDecimal op) s a b vs t) (hop : op = .adc ∨ op = .sbc)
    (ha : HoldsDecimal n x a) (hb : HoldsDecimal n y b) :
    let sum := x + op.decimalAddend (100 ^ n) y + carryValue s.cpu.psw.carry
    HoldsDecimal n (sum % 100 ^ n) vs ∧ (t.cpu.psw.carry = true ↔ 100 ^ n ≤ sum) := by
  obtain ⟨rfl, hda, rfl⟩ := ha
  obtain ⟨hlen, hdb, rfl⟩ := hb
  obtain ⟨hvlen, hdigits, hvalue⟩ := h.decimal_value hop hda hdb
  have hlt : ofDecimal vs < 100 ^ a.length := hvlen ▸ ofDecimal_lt hdigits
  obtain ⟨hmod, hcarry⟩ := eq_mod_of_carry hlt hvalue
  exact ⟨⟨hvlen, hdigits, hmod⟩, hcarry⟩

theorem HoldsDecimal.lt (h : HoldsDecimal n x a) : x < 100 ^ n := by
  obtain ⟨rfl, hdigits, rfl⟩ := h
  exact ofDecimal_lt hdigits

end Runs

/-- **Decimal arithmetic composes to any number of digits.** Whatever decimal numbers of `2 * n` digits two lists of `n`
bytes hold, to load the bytes of the first one by one, from the lowest on, add those of the second with carry and adjust
the result leaves the `2 * n` digits of the sum of the numbers and the carry that there was at the beginning, and C
tells whether the sum has more digits than that. To subtract with borrow and adjust leaves the digits of the difference
less the borrow in the same way, and C is clear if the difference is negative. -/
theorem decimal_arithmetic_composes {n x y : Nat} {s t : Core} {a b r : List UInt8} (ha : HoldsDecimal n x a)
    (hb : HoldsDecimal n y b) :
    (ByteByByte (WorksDecimal .adc) s a b r t →
      HoldsDecimal n ((x + y + carryValue s.cpu.psw.carry) % 100 ^ n) r ∧
        (t.cpu.psw.carry = true ↔ 100 ^ n ≤ x + y + carryValue s.cpu.psw.carry)) ∧
    (ByteByByte (WorksDecimal .sbc) s a b r t →
      HoldsDecimal n (difference (100 ^ n) x y s.cpu.psw.carry) r ∧
        (t.cpu.psw.carry = false ↔ (x : Int) - y - carryValue (!s.cpu.psw.carry) < 0)) := by
  refine ⟨fun h => h.holdsDecimal (.inl rfl) ha hb, fun h => ?_⟩
  have hy := hb.lt
  have hc := carryValue_not s.cpu.psw.carry
  have hcomplement : BinaryOp.sbc.decimalAddend (100 ^ n) y + y + 1 = 100 ^ n := by
    change 100 ^ n - 1 - y + y + 1 = 100 ^ n
    omega
  obtain ⟨hholds, hcarry⟩ := h.holdsDecimal (.inr rfl) ha hb
  rw [difference_eq hcomplement]
  refine ⟨hholds, ?_⟩
  rw [← Bool.not_eq_true, hcarry]
  omega

/-- A core that is about to add 1 to 1999. -/
def addingDecimal : Core := calculating [0xE8, 0x99, 0x88, 0x01, 0xDF, 0xE8, 0x19, 0x88, 0x00, 0xDF] 0 0 false

/-- A core that is about to subtract 1 from 2000. -/
def subtractingDecimal : Core := calculating [0xE8, 0x00, 0xA8, 0x01, 0xBE, 0xE8, 0x20, 0xA8, 0x00, 0xBE] 0 0 true

/-- From 1999 to 2000 and back. -/
theorem decimal_arithmetic_composes_carrying :
    HoldsDecimal 2 1999 [0x99, 0x19] ∧ HoldsDecimal 2 1 [0x01, 0x00] ∧ HoldsDecimal 2 2000 [0x00, 0x20] ∧
      (addingDecimal.step.2.step.2.step.2.step.2.step.2.step.2.cpu.psw.carry = true ↔ 10000 ≤ 2000) ∧
      (subtractingDecimal.step.2.step.2.step.2.step.2.step.2.step.2.cpu.psw.carry = false ↔ (1999 : Int) < 0) := by
  have hone : HoldsDecimal 2 1 [0x01, 0x00] := ⟨rfl, by simp [IsDecimal], rfl⟩
  have hless : HoldsDecimal 2 1999 [0x99, 0x19] := ⟨rfl, by simp [IsDecimal], rfl⟩
  have hmore : HoldsDecimal 2 2000 [0x00, 0x20] := ⟨rfl, by simp [IsDecimal], rfl⟩
  have hadd : ByteByByte (WorksDecimal .adc) addingDecimal [0x99, 0x19] [0x01, 0x00] [0x00, 0x20] _ :=
    .next (worksDecimal_iff.mpr (by decide +kernel)) rfl (.last (worksDecimal_iff.mpr (by decide +kernel)))
  have hsubtract : ByteByByte (WorksDecimal .sbc) subtractingDecimal [0x00, 0x20] [0x01, 0x00] [0x99, 0x19] _ :=
    .next (worksDecimal_iff.mpr (by decide +kernel)) rfl (.last (worksDecimal_iff.mpr (by decide +kernel)))
  obtain ⟨hsum, hcarry⟩ := (decimal_arithmetic_composes hless hone).1 hadd
  obtain ⟨hdifference, hborrow⟩ := (decimal_arithmetic_composes hmore hone).2 hsubtract
  exact ⟨hdifference, hone, hsum, hcarry, hborrow⟩

end SnesSound
