import SnesSound.Word

/-!
# Processor status

The eight flags of the CPU, and the byte in which they are pushed and popped.

Main statements: no flag is lost on the way into the byte and back (`ofByte_toByte`, `toByte_ofByte`).
-/

namespace SnesSound

/-- The flags of the CPU. -/
structure Status where
  /-- N: the result is negative. -/
  negative : Bool := false
  /-- V: signed overflow. -/
  overflow : Bool := false
  /-- P: the direct page is page 1 instead of page 0. -/
  directPage : Bool := false
  /-- B: a software break was executed. -/
  brk : Bool := false
  /-- H: carry from the low to the high half of a byte. -/
  halfCarry : Bool := false
  /-- I: interrupts are enabled. -/
  interrupt : Bool := false
  /-- Z: the result is zero. -/
  zero : Bool := false
  /-- C: carry, or no borrow. -/
  carry : Bool := false
  deriving DecidableEq, Repr, Inhabited

namespace Status

/-- Reads the flags from a byte, N being bit 7 and C bit 0. -/
def ofByte (b : UInt8) : Status where
  negative := bit b 7
  overflow := bit b 6
  directPage := bit b 5
  brk := bit b 4
  halfCarry := bit b 3
  interrupt := bit b 2
  zero := bit b 1
  carry := bit b 0

/-- The byte that holds the flags. -/
def toByte (p : Status) : UInt8 :=
  (if p.negative then 0x80 else 0) + (if p.overflow then 0x40 else 0) + (if p.directPage then 0x20 else 0) +
    (if p.brk then 0x10 else 0) + (if p.halfCarry then 0x08 else 0) + (if p.interrupt then 0x04 else 0) +
    (if p.zero then 0x02 else 0) + (if p.carry then 0x01 else 0)

/-- The flags as text: the letters of those that are set, a dash for every other one. -/
def render (p : Status) : String :=
  let letter (flag : Bool) (c : Char) : Char := if flag then c else '-'
  String.ofList [letter p.negative 'N', letter p.overflow 'V', letter p.directPage 'P', letter p.brk 'B',
    letter p.halfCarry 'H', letter p.interrupt 'I', letter p.zero 'Z', letter p.carry 'C']

theorem ofByte_toByte (p : Status) : ofByte p.toByte = p := by
  obtain ⟨n, v, d, b, h, i, z, c⟩ := p
  cases n <;> cases v <;> cases d <;> cases b <;> cases h <;> cases i <;> cases z <;> cases c <;> rfl

theorem toByte_ofByte (b : UInt8) : (ofByte b).toByte = b := by
  have h : ∀ n : Fin 256, (ofByte (UInt8.ofNat n)).toByte = UInt8.ofNat n := by decide +kernel
  have hb := h ⟨b.toNat, b.toNat_lt⟩
  simpa using hb

/-! ## Setting flags from results -/

/-- N and Z from a byte. -/
def setNZ (p : Status) (value : UInt8) : Status := { p with negative := bit value 7, zero := value == 0 }

/-- N and Z from a word. -/
def setNZ16 (p : Status) (value : UInt16) : Status :=
  { p with negative := value &&& 0x8000 != 0, zero := value == 0 }

end Status

end SnesSound
