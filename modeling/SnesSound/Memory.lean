import SnesSound.Memory.BootRom
import SnesSound.Word

/-!
# Audio RAM

The 64 KiB that the CPU and the sound unit share. Addresses are 16-bit words, so that every address exists and word
accesses wrap around at the end. The I/O registers of the CPU lie in front of this memory and are no part of it; the
boot ROM is, as a second view of the last 64 bytes that a reader may ask for.

Main statements: a read returns the last byte written to its address (`get_set_self`, `get_set_of_ne`); words are read
as written (`readWord_writeWord`); clearing zeroes its region and nothing else (`get_clear`).
-/

namespace SnesSound

/-- The contents of the audio RAM. -/
structure Memory where
  /-- The byte at each address. -/
  cells : Vector UInt8 65536
  deriving DecidableEq

namespace Memory

/-- All bytes zero. -/
def zero : Memory := ⟨Vector.replicate 65536 0⟩

instance : Inhabited Memory := ⟨zero⟩

/-- The contents after power-on: blocks of 32 bytes, alternately `00` and `FF`. -/
def powerOn : Memory := ⟨Vector.ofFn fun i => if i.val / 32 % 2 = 0 then 0x00 else 0xFF⟩

/-- The byte at an address. -/
def get (m : Memory) (address : UInt16) : UInt8 := m.cells[address.toFin]

/-- Stores a byte. -/
def set (m : Memory) (address : UInt16) (value : UInt8) : Memory :=
  ⟨m.cells.set address.toNat value address.toNat_lt⟩

/-- What the CPU reads from memory: the boot ROM hides the last 64 bytes while it is enabled. -/
def read (m : Memory) (address : UInt16) (bootRomEnabled : Bool) : UInt8 :=
  if h : bootRomEnabled = true ∧ bootRomStart ≤ address then
    bootRom.get ⟨(address - bootRomStart).toNat, by
      have hle := UInt16.le_iff_toNat_le.mp h.2
      have hlt := address.toNat_lt
      rw [UInt16.toNat_sub_of_le _ _ h.2]
      change 65472 ≤ address.toNat at hle
      change address.toNat - 65472 < 64
      omega⟩
  else m.get address

/-- The word at an address and the one after it, low byte first. -/
def readWord (m : Memory) (address : UInt16) : UInt16 := word (m.get address) (m.get (address + 1))

/-- Stores a word at an address and the one after it, low byte first. -/
def writeWord (m : Memory) (address value : UInt16) : Memory :=
  (m.set address (lowByte value)).set (address + 1) (highByte value)

/-- Zeroes `length` bytes from `start` on, as far as they exist. -/
def clear (m : Memory) (start : Nat) : Nat → Memory
  | 0 => m
  | length + 1 =>
    if h : start < 65536 then clear ⟨m.cells.set start 0⟩ (start + 1) length else m

/-! ## Reads after writes -/

@[simp] theorem get_set_self (m : Memory) (address : UInt16) (value : UInt8) :
    (m.set address value).get address = value := by
  simp [get, set]

theorem get_set_of_ne (m : Memory) {address other : UInt16} (value : UInt8) (h : address ≠ other) :
    (m.set address value).get other = m.get other := by
  have hne : address.toNat ≠ other.toNat := fun e => h (UInt16.toNat_inj.mp e)
  simp [get, set, hne]

theorem get_set (m : Memory) (address other : UInt16) (value : UInt8) :
    (m.set address value).get other = if address = other then value else m.get other := by
  split
  next h => rw [h, get_set_self]
  next h => exact get_set_of_ne m value h

/-- A byte is zeroed exactly if it lies in the cleared region. -/
theorem get_clear (m : Memory) (start length : Nat) (address : UInt16) :
    (m.clear start length).get address
      = if start ≤ address.toNat ∧ address.toNat < start + length then 0 else m.get address := by
  have hlt := address.toNat_lt
  induction length generalizing m start with
  | zero => rw [clear, if_neg (by omega)]
  | succ length ih =>
    unfold clear
    split
    next h =>
      rw [ih]
      by_cases he : address.toNat = start
      · rw [if_neg (by omega), if_pos (by omega)]
        simp [get, he]
      · have hget : Memory.get ⟨m.cells.set start 0 h⟩ address = m.get address := by
          simp [get, Ne.symm he]
        rw [hget]
        exact ite_congr (propext (by omega)) (fun _ => rfl) fun _ => rfl
    next h => rw [if_neg (by omega)]

/-- A word is read back as it was written, also across the end of the address space. -/
theorem readWord_writeWord (m : Memory) (address value : UInt16) :
    (m.writeWord address value).readWord address = value := by
  have h : address + 1 ≠ address := by
    intro e
    have h1 := congrArg UInt16.toNat e
    have hlt := address.toNat_lt
    simp [UInt16.toNat_add] at h1
    omega
  simp [readWord, writeWord, get_set_of_ne _ _ h, word_lowByte_highByte]

end Memory

end SnesSound
