import SnesSound.Dsp.Registers
import SnesSound.Proofs.Latest

/-!
# Writes to the register file

A register of the sound unit holds what was last written to it. The upper half of the addresses writes to no register
at all, and whatever is written to ENDX clears it.

Main statement: after any writes, every register holds its latest value (`get_writeAll`).
-/

namespace SnesSound.Registers

/-- Writes registers one after the other, as the CPU does. Every write is an address and a value. -/
def writeAll (r : Registers) (writes : List (UInt8 × UInt8)) : Registers :=
  writes.foldl (fun r w => r.write w.1 w.2) r

theorem writeAll_append (r : Registers) (xs ys : List (UInt8 × UInt8)) :
    r.writeAll (xs ++ ys) = (r.writeAll xs).writeAll ys := List.foldl_append

/-- The value that a write gives to a register. -/
def stored (register : Fin 128) (write : UInt8 × UInt8) : Option UInt8 :=
  if write.1.toNat = register.val then some (if register = Register.endx then 0 else write.2) else none

/-- The addresses of the lower half are those of the registers. -/
theorem val_ofByte {address : UInt8} (h : ¬0x80 ≤ address) : (ofByte address).val = address.toNat := by
  have hlt : address.toNat < 128 := UInt8.lt_iff_toNat_lt.mp (UInt8.not_le.mp h)
  exact Nat.mod_eq_of_lt hlt

theorem get_write (r : Registers) (write : UInt8 × UInt8) (register : Fin 128) :
    (r.write write.1 write.2).get register = (stored register write).getD (r.get register) := by
  obtain ⟨address, value⟩ := write
  unfold Registers.write stored
  dsimp only
  split
  next h =>
    have hne : address.toNat ≠ register.val := by
      have hle : 128 ≤ address.toNat := UInt8.le_iff_toNat_le.mp h
      have hlt := register.isLt
      omega
    rw [if_neg hne]
    rfl
  next h =>
    rw [← val_ofByte h]
    generalize ofByte address = written
    by_cases hw : written = register
    · subst hw
      split
      next he => simp [he]
      next => simp
    · have hval : written.val ≠ register.val := fun e => hw (Fin.ext e)
      rw [if_neg hval]
      split
      next he => exact get_store_of_ne _ _ (he ▸ hw)
      next => exact get_store_of_ne _ _ hw

/-- A register holds the latest value that was written to it. -/
theorem get_writeAll (r : Registers) (writes : List (UInt8 × UInt8)) (register : Fin 128) :
    (r.writeAll writes).get register = latest (stored register) (r.get register) writes :=
  foldl_latest (fun (r : Registers) (w : UInt8 × UInt8) => r.write w.1 w.2) (get · register) (stored register)
    (fun r w => get_write r w register) r writes

/-- The same writes keep what two register files have in common in a register. -/
theorem get_writeAll_congr {β : Type} (f : UInt8 → β) {r r' : Registers} {register : Fin 128}
    (h : f (r.get register) = f (r'.get register)) (writes : List (UInt8 × UInt8)) :
    f ((r.writeAll writes).get register) = f ((r'.writeAll writes).get register) := by
  rw [get_writeAll, get_writeAll]
  exact latest_congr f h (stored register) writes

end SnesSound.Registers
