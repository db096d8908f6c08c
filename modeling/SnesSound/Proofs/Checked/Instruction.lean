import SnesSound.Proofs.Checked.Bus
import SnesSound.Proofs.Cpu.Lockstep

/-!
# Checked instructions

The CPU with all of its calculations checked is one more processor, and it goes in lockstep with the CPU: no
instruction leaves a range, whatever the program and the state of the core are. Most of what instructions do with
bytes and words wraps around; what does not are the sums, products and quotients that need more bits than their
operands, shifts by the number of a bit, and the address of a vector.

Main statement: fetching and executing an instruction never stops the engine (`executeNext_eq`).
-/

namespace SnesSound

namespace Checked

/-! ## Calculations -/

/-- The sum of two bytes and a carry, which needs nine bits. -/
def checkSum (left right : UInt8) (carry : Bool) : Checked Unit := do
  let sum ← natural 16 (left.toNat + right.toNat)
  let _ ← natural 16 (sum + carryValue carry)

/-- The division of a word by a byte; `y` is the high byte of the word. -/
def checkDivide (ya x y : Nat) : Checked Unit := do
  let double ← natural 32 (x * 2)
  if y < double then do
    let quotient ← divide ya x
    let product ← natural 32 (quotient * x)
    let _ ← subtract ya product
  else do
    let base ← natural 32 (x * 512)
    let excess ← subtract ya base
    let divisor ← subtract 256 x
    let _ ← divide excess divisor
    let rest ← remainder excess divisor
    let _ ← natural 32 (x + rest)

/-- What a calculation goes through. -/
def calculation {α : Type} : Calculation α → Checked Unit
  | .binary .adc left right p => checkSum left right p.carry
  | .binary .sbc left right p => checkSum left (~~~right) p.carry
  | .binary .. => return ()
  | .addWords left right _ => do
    let _ ← natural 32 (left.toNat + right.toNat)
    let _ ← natural 16 ((left &&& 0xFFF).toNat + (right &&& 0xFFF).toNat)
  | .multiply y a _ => do
    let _ ← natural 16 (y.toNat * a.toNat)
  | .divide ya x _ => checkDivide ya.toNat x.toNat (highByte ya).toNat
  | .testBit _ n | .writeBit _ n _ | .invertBit _ n => do
    let _ ← places 8 n
  | .vector n => do
    let offset ← natural 16 (2 * n)
    let _ ← subtract Cpu.breakVector.toNat offset

theorem checkSum_eq (left right : UInt8) (carry : Bool) : checkSum left right carry = .ok () := by
  have hl := left.toNat_lt
  have hr := right.toNat_lt
  have hc := carryValue_le carry
  rw [checkSum, natural_ok (by omega), ok_bind, natural_ok (by omega)]
  rfl

theorem checkDivide_eq {ya x : Nat} (hya : ya < 65536) (hx : x < 256) : checkDivide ya x (ya / 256) = .ok () := by
  rw [checkDivide, natural_ok (by omega), ok_bind]
  split
  next h =>
    have hproduct : ya / x * x ≤ ya := Nat.div_mul_le_self ya x
    rw [divide_ok (by omega), ok_bind, natural_ok (by omega), ok_bind, subtract_ok hproduct]
    rfl
  next h =>
    have hrest : (ya - x * 512) % (256 - x) < 256 - x := Nat.mod_lt _ (by omega)
    rw [natural_ok (by omega), ok_bind, subtract_ok (by omega), ok_bind, subtract_ok (by omega), ok_bind,
      divide_ok (by omega), ok_bind, remainder_ok (by omega), ok_bind, natural_ok (by omega)]
    rfl

/-- No calculation leaves a range. -/
theorem calculation_eq {α : Type} (c : Calculation α) : calculation c = .ok () := by
  cases c with
  | binary op left right p => cases op <;> first | rfl | exact checkSum_eq ..
  | addWords left right p =>
    have hl := left.toNat_lt
    have hr := right.toNat_lt
    rw [calculation, Status.toNat_and_0xFFF, Status.toNat_and_0xFFF, natural_ok (by omega), ok_bind,
      natural_ok (by omega)]
    rfl
  | multiply y a p =>
    have hproduct : y.toNat * a.toNat ≤ 255 * 255 :=
      Nat.mul_le_mul (Nat.le_of_lt_succ y.toNat_lt) (Nat.le_of_lt_succ a.toNat_lt)
    rw [calculation, natural_ok (by omega)]
    rfl
  | divide ya x p =>
    rw [calculation, toNat_highByte]
    exact checkDivide_eq ya.toNat_lt x.toNat_lt
  | testBit _ n | writeBit _ n | invertBit _ n =>
    rw [calculation, places_ok n.isLt]
    rfl
  | vector n =>
    have hn := n.isLt
    have hle : 2 * n.val ≤ Cpu.breakVector.toNat := by
      change 2 * n.val ≤ 65502
      omega
    rw [calculation, natural_ok (by omega), ok_bind, subtract_ok hle]
    rfl

/-! ## Opcodes -/

/-- The opcodes outside of the regular blocks. -/
def singles : List UInt8 := [
  0x0A, 0x2A, 0x4A, 0x6A, 0x8A, 0xAA, 0xCA, 0xEA, 0x0E, 0x4E, 0x0B, 0x0C, 0x1B, 0x1C, 0x2B, 0x2C, 0x3B, 0x3C, 0x4B,
  0x4C, 0x5B, 0x5C, 0x6B, 0x6C, 0x7B, 0x7C, 0x8B, 0x8C, 0x9B, 0x9C, 0xAB, 0xAC, 0xBB, 0xBC, 0x1D, 0x3D, 0xDC, 0xFC,
  0x1E, 0x3E, 0xC8, 0x5E, 0x7E, 0xAD, 0x1A, 0x3A, 0x5A, 0x7A, 0x9A, 0xBA, 0xDA, 0xCF, 0x9E, 0xDF, 0xBE, 0x9F, 0xED,
  0x0F, 0x1F, 0x2E, 0xDE, 0x2F, 0x3F, 0x4F, 0x5F, 0x6E, 0xFE, 0x6F, 0x7F, 0xEF, 0xFF, 0x0D, 0x2D, 0x4D, 0x6D, 0x8E,
  0xAE, 0xCE, 0xEE, 0x5D, 0x7D, 0x9D, 0xBD, 0xDD, 0xFD, 0x8D, 0xCD, 0xE8, 0xE4, 0xE5, 0xE6, 0xE7, 0xF4, 0xF5, 0xF6,
  0xF7, 0xBF, 0xE9, 0xF8, 0xF9, 0xEB, 0xEC, 0xFB, 0xC4, 0xC5, 0xC6, 0xC7, 0xD4, 0xD5, 0xD6, 0xD7, 0xAF, 0xC9, 0xD8,
  0xD9, 0xCB, 0xCC, 0xDB, 0x8F, 0xFA]

/-- Whether an opcode is decoded by its row and column. -/
def isRegular (opcode : UInt8) : Bool :=
  opcode % 16 < 4 || opcode / 16 < 12 && 4 ≤ opcode % 16 && opcode % 16 ≤ 9

/-- The instruction that an opcode stands for. One that is not in a regular block must be among the others. -/
def decode (opcode : UInt8) : Checked Instruction :=
  if isRegular opcode || singles.contains opcode then .ok (Opcode.decode opcode) else .error .unreachable

/-- Every opcode is decoded somewhere. -/
theorem decode_eq (opcode : UInt8) : decode opcode = .ok (Opcode.decode opcode) := by
  have hall : ∀ n : Fin 256, (isRegular (.ofNat n) || singles.contains (.ofNat n)) = true := by decide +kernel
  have h := hall ⟨opcode.toNat, opcode.toNat_lt⟩
  rw [UInt8.ofNat_toNat] at h
  exact if_pos h

end Checked

/-! ## The checked processor -/

/-- A computation that reads and changes a core and that a fault may stop. -/
abbrev CheckedExec := StateT Core Checked

instance : Processor CheckedExec where
  read address := fun s => do
    let value ← Checked.peek s address
    return (value, s.afterRead address)
  write address value := fun s => do
    let s ← Checked.write s address value
    return ((), s)
  ask f := fun s => .ok (f s.cpu.toRegisterSet, s)
  update f := fun s => .ok ((), s.setRegisters (f s.cpu.toRegisterSet))
  halt state := fun s => .ok ((), { s with cpu := s.cpu.halt state })
  calculate c := fun s => do
    Checked.calculation c
    return (c.result, s)

namespace Checked

/-- Checked computations that do not fail and do what unchecked ones do. -/
def faultless : Lockstep CheckedExec Exec where
  rel x y := ∀ s, x s = .ok (y s)
  pure _ _ := rfl
  bind {_ _ x y f g} hx hf s := by
    change (x s >>= fun p => f p.1 p.2) = .ok (g (y s).1 (y s).2)
    rw [hx, ok_bind]
    exact hf _ _
  read address s := by
    change (peek s address >>= _) = _
    rw [peek_eq]
    rfl
  write address value s := by
    change (Checked.write s address value >>= _) = _
    rw [write_eq]
    rfl
  ask _ _ := rfl
  update _ _ := rfl
  halt _ _ := rfl
  calculate c s := by
    change (calculation c >>= _) = _
    rw [calculation_eq]
    rfl

/-- Fetches an opcode, decodes it and executes its instruction. -/
def executeNext (s : Core) : Checked ((UInt8 × Bool) × Core) := do
  let (opcode, s) ← (Processor.fetch : CheckedExec UInt8) s
  let instruction ← decode opcode
  let (taken, s) ← (instruction.execute : CheckedExec Bool) s
  return ((opcode, taken), s)

/-- Fetching and executing an instruction never stops the engine. -/
theorem executeNext_eq (s : Core) : executeNext s = .ok ((Processor.executeNext : Exec (UInt8 × Bool)) s) := by
  unfold executeNext
  rw [faultless.fetch s, ok_bind]
  simp only [decode_eq, ok_bind, faultless.execute _ _]
  rfl

end Checked

end SnesSound
