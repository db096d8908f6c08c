import SnesSound.Cpu.Core
import SnesSound.Proofs.Checked.Basic

/-!
# Checked accesses of the CPU

Reads and writes of the CPU, with what they look up: cells of RAM and of the boot ROM, and the numbers of ports,
timers and registers that addresses stand for. An index that runs over a whole table is one of its indices by its type
and needs no check.

Main statements: no read or write leaves a range, whatever the state of the core (`peek_eq`, `write_eq`).
-/

namespace SnesSound.Checked

/-! ## Memory -/

/-- The byte of RAM at an address. -/
def ramByte (m : Memory) (address : UInt16) : Checked UInt8 := cell m.cells address.toNat

/-- Stores a byte in RAM. -/
def setRamByte (m : Memory) (address : UInt16) (value : UInt8) : Checked Memory := do
  return ⟨← setCell m.cells address.toNat value⟩

/-- The word of RAM at an address. -/
def ramWord (m : Memory) (address : UInt16) : Checked UInt16 := do
  let low ← ramByte m address
  let high ← ramByte m (address + 1)
  return word low high

/-- Stores a word in RAM. -/
def setRamWord (m : Memory) (address value : UInt16) : Checked Memory := do
  let m ← setRamByte m address (lowByte value)
  setRamByte m (address + 1) (highByte value)

/-- What the CPU reads from memory. -/
def memoryByte (m : Memory) (address : UInt16) (bootRomEnabled : Bool) : Checked UInt8 :=
  if bootRomEnabled = true ∧ bootRomStart ≤ address then do
    let offset ← subtract address.toNat bootRomStart.toNat
    cell bootRom offset
  else ramByte m address

@[simp] theorem ramByte_eq (m : Memory) (address : UInt16) : ramByte m address = .ok (m.get address) :=
  cell_ok address.toNat_lt

@[simp] theorem setRamByte_eq (m : Memory) (address : UInt16) (value : UInt8) :
    setRamByte m address value = .ok (m.set address value) := by
  rw [setRamByte, setCell_ok address.toNat_lt]
  rfl

@[simp] theorem ramWord_eq (m : Memory) (address : UInt16) : ramWord m address = .ok (m.readWord address) := by
  simp only [ramWord, ramByte_eq, ok_bind]
  rfl

@[simp] theorem setRamWord_eq (m : Memory) (address value : UInt16) :
    setRamWord m address value = .ok (m.writeWord address value) := by
  simp only [setRamWord, setRamByte_eq, ok_bind]
  rfl

@[simp] theorem memoryByte_eq (m : Memory) (address : UInt16) (bootRomEnabled : Bool) :
    memoryByte m address bootRomEnabled = .ok (m.read address bootRomEnabled) := by
  unfold memoryByte Memory.read
  split
  next h =>
    have hle := UInt16.le_iff_toNat_le.mp h.2
    have hlt := address.toNat_lt
    change 65472 ≤ address.toNat at hle
    have hindex : address.toNat - bootRomStart.toNat < 64 := by
      change address.toNat - 65472 < 64
      omega
    rw [subtract_ok (UInt16.le_iff_toNat_le.mp h.2), ok_bind, cell_ok hindex]
    simp only [get_eq_getElem, UInt16.toNat_sub_of_le _ _ h.2]
    rfl
  next => exact ramByte_eq m address

/-! ## Registers -/

/-- A number that must be below `n`. -/
def index (fault : Fault) (n i : Nat) : Checked (Fin n) := if h : i < n then .ok ⟨i, h⟩ else .error fault

theorem index_ok {fault : Fault} {n i : Nat} (h : i < n) : index fault n i = .ok ⟨i, h⟩ := dif_pos h

/-- The I/O register at an address. The numbers of ports are asserted, those of timers select from a table. -/
def ioRegister (address : UInt16) : Checked (Option IoRegister) :=
  let a := address.toNat
  if a = 0xF0 then return some .test
  else if a = 0xF1 then return some .control
  else if a = 0xF2 then return some .dspAddress
  else if a = 0xF3 then return some .dspData
  else if 0xF4 ≤ a ∧ a ≤ 0xF7 then do
    let n ← subtract a 0xF4
    return some (.port (← index .assertion 4 n))
  else if 0xFA ≤ a ∧ a ≤ 0xFC then do
    let n ← subtract a 0xFA
    return some (.timerDivisor (← index .outOfBounds 3 n))
  else if 0xFD ≤ a ∧ a ≤ 0xFF then do
    let n ← subtract a 0xFD
    return some (.timerOutput (← index .outOfBounds 3 n))
  else return none

@[simp] theorem ioRegister_eq (address : UInt16) : ioRegister address = .ok (IoRegister.ofAddress? address) := by
  by_cases h : address.toNat < 0xF0 ∨ 0xFF < address.toNat
  · rw [IoRegister.ofAddress?_eq_none h]
    unfold ioRegister
    dsimp only
    repeat rw [if_neg (by omega)]
    rfl
  · have hpage (i : Fin 16) :
        ioRegister (240 + UInt16.ofNat i) = .ok (IoRegister.ofAddress? (240 + UInt16.ofNat i)) := by
      revert i
      decide
    have hi := hpage ⟨address.toNat - 240, by omega⟩
    have haddress : 240 + UInt16.ofNat (address.toNat - 240) = address := by
      apply UInt16.toNat_inj.mp
      rw [UInt16.toNat_add, UInt16.toNat_ofNat']
      have hlt := address.toNat_lt
      change (240 + (address.toNat - 240) % 65536) % 65536 = address.toNat
      omega
    rwa [haddress] at hi

/-- The register of the sound unit at an address, found by its row and its column. -/
def registerNumber (address : UInt8) : Checked (Fin 128) :=
  let row := address.toNat / 16 % 8
  let column := address.toNat % 16
  if h : row < 8 then .ok ⟨16 * row + column, by omega⟩
  else .error (if column = 0xC ∨ column = 0xD then .unreachable else .outOfBounds)

@[simp] theorem registerNumber_eq (address : UInt8) : registerNumber address = .ok (Registers.ofByte address) := by
  have h : address.toNat / 16 % 8 < 8 := Nat.mod_lt _ (by decide)
  have hlt := address.toNat_lt
  unfold registerNumber
  dsimp only
  rw [dif_pos h]
  congr 1
  apply Fin.ext
  simp only [Registers.ofByte, Fin.ofNat]
  omega

/-! ## Accesses -/

/-- What a read of an address returns. -/
def peek (s : Core) (address : UInt16) : Checked UInt8 := do
  match ← ioRegister address with
  | some .test | some .control | some (.timerDivisor _) => return 0
  | some .dspAddress => return s.cpu.dspAddress
  | some .dspData => do
    let n ← registerNumber s.cpu.dspAddress
    return s.registers.get n
  | some (.port n) => return s.cpu.ports.cpuRead n
  | some (.timerOutput n) => return (s.cpu.timers.get n).output
  | none => memoryByte s.memory address s.cpu.control.bootRomEnabled

/-- The ports whose latches a write to CONTROL zeroes. -/
def clearedPorts (value : UInt8) : List Nat :=
  (if bit value 4 then [0, 1] else []) ++ if bit value 5 then [2, 3] else []

/-- What a write to an I/O register looks up. -/
def checkWrite (s : Core) (value : UInt8) : Option IoRegister → Checked Unit
  | some .control => (clearedPorts value).forM fun n => discard (index .assertion 4 n)
  | some .dspData => discard (registerNumber s.cpu.dspAddress)
  | _ => return ()

/-- Writes a byte. -/
def write (s : Core) (address : UInt16) (value : UInt8) : Checked Core := do
  checkWrite s value (← ioRegister address)
  let written := s.writeIo address value
  let memory ← setRamByte written.memory address value
  return { written with memory }

@[simp] theorem peek_eq (s : Core) (address : UInt16) : peek s address = .ok (s.peek address) := by
  unfold peek Core.peek
  rw [ioRegister_eq, ok_bind]
  cases IoRegister.ofAddress? address with
  | none => exact memoryByte_eq ..
  | some r => cases r <;> simp only [registerNumber_eq, ok_bind] <;> rfl

theorem checkWrite_eq (s : Core) (value : UInt8) (r : Option IoRegister) : checkWrite s value r = .ok () := by
  unfold checkWrite clearedPorts
  split
  · split <;> split <;> rfl
  · rw [registerNumber_eq]
    rfl
  · rfl

@[simp] theorem write_eq (s : Core) (address : UInt16) (value : UInt8) :
    write s address value = .ok (s.write address value) := by
  simp only [write, ioRegister_eq, ok_bind, checkWrite_eq, setRamByte_eq]
  rfl

end SnesSound.Checked
