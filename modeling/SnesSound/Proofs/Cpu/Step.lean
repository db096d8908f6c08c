import SnesSound.Cpu.Run
import SnesSound.Proofs.Cpu.Lockstep

/-!
# Steps of the CPU

What every instruction keeps and what none of them looks at, both by way of the parts that instructions are put
together from. An instruction neither sees nor changes the budget, it leaves the count of cycles alone, and only a
conditional branch reports that it was taken.

Main statements: what no part of an instruction breaks, no instruction breaks (`Stable.executeNext`); a change of the
core that no part of an instruction sees can as well be made after a step (`Unseen.step`); a step takes at most twelve
cycles (`step_le_twelve`).
-/

namespace SnesSound

namespace Core

theorem step_fst (s : Core) : s.step.1 =
    Opcode.cost ((Processor.executeNext : Exec (UInt8 × Bool)) s).1.1
      ((Processor.executeNext : Exec (UInt8 × Bool)) s).1.2 := rfl

theorem step_snd (s : Core) :
    s.step.2 = ((Processor.executeNext : Exec (UInt8 × Bool)) s).2.pass s.step.1 := rfl

/-! ## Stable properties -/

/-- A property of cores that no part of an instruction breaks. -/
structure Stable (P : Core → Prop) : Prop where
  afterRead : ∀ {s : Core} (address : UInt16), P s → P (s.afterRead address)
  write : ∀ {s : Core} (address : UInt16) (value : UInt8), P s → P (s.write address value)
  setRegisters : ∀ {s : Core} (registers : RegisterSet), P s → P (s.setRegisters registers)
  halt : ∀ {s : Core} (state : RunState), P s → P { s with cpu := s.cpu.halt state }

namespace Stable

variable {P : Core → Prop}

/-- The computations that keep a stable property. -/
def lockstep (h : Stable P) : Lockstep Exec Exec where
  rel x _ := ∀ s, P s → P (x s).2
  pure _ _ hs := hs
  bind hx hf s hs := hf _ _ (hx s hs)
  read address _ hs := h.afterRead address hs
  write address value _ hs := h.write address value hs
  ask _ _ hs := hs
  update f s hs := h.setRegisters (f s.cpu.toRegisterSet) hs
  halt state _ hs := h.halt state hs
  calculate _ _ hs := hs

theorem executeNext (h : Stable P) {s : Core} (hs : P s) : P ((Processor.executeNext : Exec (UInt8 × Bool)) s).2 :=
  h.lockstep.executeNext s hs

end Stable

/-- No part of an instruction counts cycles. -/
theorem stable_cycles (cycles : Nat) : Stable fun s => s.cpu.cycles = cycles where
  afterRead {s} address hs := by
    unfold afterRead
    split
    · exact hs
    · exact hs
  write {s} address value hs := by
    change (s.writeIo address value).cpu.cycles = cycles
    unfold writeIo
    split <;> exact hs
  setRegisters _ hs := hs
  halt _ hs := hs

/-! ## Unseen changes -/

/-- A change of the core that no part of an instruction sees. -/
structure Unseen (f : Core → Core) : Prop where
  registers : ∀ s, (f s).cpu.toRegisterSet = s.cpu.toRegisterSet
  peek : ∀ s address, (f s).peek address = s.peek address
  afterRead : ∀ s address, (f s).afterRead address = f (s.afterRead address)
  write : ∀ s address value, (f s).write address value = f (s.write address value)
  setRegisters : ∀ s registers, (f s).setRegisters registers = f (s.setRegisters registers)
  halt : ∀ (s : Core) (state : RunState),
    ({ f s with cpu := (f s).cpu.halt state } : Core) = f { s with cpu := s.cpu.halt state }

namespace Unseen

variable {f : Core → Core}

/-- The computations that return the same and do the same before and after an unseen change. -/
def lockstep (h : Unseen f) : Lockstep Exec Exec where
  rel x y := ∀ s, x (f s) = ((y s).1, f (y s).2)
  pure _ _ := rfl
  bind {_ _ x y g g'} hx hg s := by
    change g (x (f s)).1 (x (f s)).2 = ((g' (y s).1 (y s).2).1, f (g' (y s).1 (y s).2).2)
    rw [hx]
    exact hg _ _
  read address s := Prod.ext (h.peek s address) (h.afterRead s address)
  write address value s := Prod.ext rfl (h.write s address value)
  ask g s := Prod.ext (congrArg g (h.registers s)) rfl
  update g s := Prod.ext rfl (by
    change (f s).setRegisters (g (f s).cpu.toRegisterSet) = f (s.setRegisters (g s.cpu.toRegisterSet))
    rw [h.registers, h.setRegisters])
  halt state s := Prod.ext rfl (h.halt s state)
  calculate _ _ := rfl

theorem executeNext (h : Unseen f) (s : Core) : (Processor.executeNext : Exec (UInt8 × Bool)) (f s) =
    (((Processor.executeNext : Exec (UInt8 × Bool)) s).1, f ((Processor.executeNext : Exec (UInt8 × Bool)) s).2) :=
  h.lockstep.executeNext s

/-- An unseen change that time does not see either can be made before or after a step. -/
theorem step (h : Unseen f) (hp : ∀ s cycles, (f s).pass cycles = f (s.pass cycles)) (s : Core) :
    (f s).step = (s.step.1, f s.step.2) := by
  have he := h.executeNext s
  refine Prod.ext ?_ ?_
  · simp only [step_fst, he]
  · simp only [step_snd, step_fst, he, hp]

end Unseen

/-! ## The cost of a step -/

end Core

/-- Whether an instruction is a branch that depends on a condition. -/
def Instruction.isConditional : Instruction → Bool
  | .branch .. | .branchBit .. | .branchUnequal .. | .decrementBranch | .decrementYBranch => true
  | _ => false

/-- Only a conditional branch is taken. -/
theorem Instruction.isConditional_of_taken (i : Instruction) {s : Core} (h : ((i.execute : Exec Bool) s).1 = true) :
    i.isConditional = true := by
  cases i with
  | branch | branchBit | branchUnequal | decrementBranch | decrementYBranch => rfl
  | _ => exact absurd h Bool.false_ne_true

/-- Conditional branches are cheap as long as they are not taken. -/
theorem Opcode.cycles_le_six {opcode : UInt8} (h : (Opcode.decode opcode).isConditional = true) :
    Opcode.cycles opcode ≤ 6 := by
  have hall : ∀ i j : Fin 16, Opcode.rows[i][j].isConditional = true → Opcode.cycleRows[i][j] ≤ 6 := by
    decide +kernel
  have hlt := opcode.toNat_lt
  exact hall ⟨opcode.toNat / 16, by omega⟩ ⟨opcode.toNat % 16, by omega⟩ h

namespace Core

/-- A step takes at most twelve cycles, those of a branch that is taken included. -/
theorem step_le_twelve (s : Core) : s.step.1 ≤ 12 := by
  rw [step_fst, Opcode.cost]
  split
  next taken =>
    have h := Opcode.cycles_le_six (Instruction.isConditional_of_taken _ taken)
    exact Nat.add_le_add_right (Nat.le_trans h (by decide : 6 ≤ 10)) Opcode.branchCycles
  next => exact (Opcode.cycles_mem _).2

/-- A step counts the cycles that it takes. -/
theorem cycles_step (s : Core) : s.step.2.cpu.cycles = s.cpu.cycles + s.step.1 := by
  have h := (stable_cycles s.cpu.cycles).executeNext rfl
  rw [step_snd]
  exact congrArg (· + s.step.1) h

end Core

end SnesSound
