import SnesSound.Index

/-!
# I/O registers

Sixteen addresses of page 0 belong to the CPU's own registers; two of them, `$F8` and `$F9`, are plain memory.

Main statement: every register has an address of its own (`ofAddress?_eq_some_iff`).
-/

namespace SnesSound

/-- A register in the address space of the CPU. -/
inductive IoRegister
  /-- `$F0` -/
  | test
  /-- `$F1` -/
  | control
  /-- `$F2`: the register of the sound unit that `$F3` gives access to. -/
  | dspAddress
  /-- `$F3` -/
  | dspData
  /-- `$F4` to `$F7` -/
  | port (n : Fin 4)
  /-- `$FA` to `$FC` -/
  | timerDivisor (n : Fin 3)
  /-- `$FD` to `$FF` -/
  | timerOutput (n : Fin 3)
  deriving DecidableEq, Repr

/-- The register at an address. -/
def IoRegister.ofAddress? (address : UInt16) : Option IoRegister :=
  match address with
  | 0xF0 => some .test
  | 0xF1 => some .control
  | 0xF2 => some .dspAddress
  | 0xF3 => some .dspData
  | 0xF4 => some (.port 0)
  | 0xF5 => some (.port 1)
  | 0xF6 => some (.port 2)
  | 0xF7 => some (.port 3)
  | 0xFA => some (.timerDivisor 0)
  | 0xFB => some (.timerDivisor 1)
  | 0xFC => some (.timerDivisor 2)
  | 0xFD => some (.timerOutput 0)
  | 0xFE => some (.timerOutput 1)
  | 0xFF => some (.timerOutput 2)
  | _ => none

/-- All of them lie in page 0, from `$F0` on. -/
theorem IoRegister.ofAddress?_eq_none {address : UInt16} (h : address.toNat < 0xF0 ∨ 0xFF < address.toNat) :
    ofAddress? address = none := by
  unfold ofAddress?
  split <;> first | rfl | exact absurd h (by decide)

/-- The address of a register. -/
def IoRegister.address : IoRegister → UInt16
  | .test => 0xF0
  | .control => 0xF1
  | .dspAddress => 0xF2
  | .dspData => 0xF3
  | .port n => 0xF4 + UInt16.ofNat n
  | .timerDivisor n => 0xFA + UInt16.ofNat n
  | .timerOutput n => 0xFD + UInt16.ofNat n

@[simp] theorem IoRegister.ofAddress?_address (r : IoRegister) : ofAddress? r.address = some r := by
  cases r with
  | test | control | dspAddress | dspData => rfl
  | port n => revert n; decide
  | timerDivisor n => revert n; decide
  | timerOutput n => revert n; decide

/-- Every register has an address of its own. -/
theorem IoRegister.ofAddress?_eq_some_iff {address : UInt16} {r : IoRegister} :
    ofAddress? address = some r ↔ address = r.address := by
  constructor
  · intro h
    unfold ofAddress? at h
    split at h <;> first | exact (Option.some.inj h) ▸ rfl | cases h
  · rintro rfl
    exact r.ofAddress?_address

end SnesSound
