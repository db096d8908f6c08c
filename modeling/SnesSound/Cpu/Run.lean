import SnesSound.Cpu.Execute
import SnesSound.Cpu.Opcode

/-!
# Running the CPU

Instructions are executed one by one as long as the budget lasts. A CPU that has been halted uses up its budget at
once.

Main statement: a step takes at least two cycles (`two_le_step`), so a run comes to its end.
-/

namespace SnesSound

/-- The cycles that an instruction takes; `taken` tells whether it is a conditional branch that was taken. -/
def Opcode.cost (opcode : UInt8) (taken : Bool) : Nat := cycles opcode + if taken then branchCycles else 0

/-- Fetches an opcode and executes the instruction that it stands for. Returns the opcode and whether a conditional
branch was taken. -/
@[specialize] def Processor.executeNext {m : Type → Type} [Processor m] : m (UInt8 × Bool) := do
  let opcode ← fetch
  let taken ← (Opcode.decode opcode).execute
  return (opcode, taken)

namespace Core

/-- Executes one instruction and returns the cycles it took. -/
def step (s : Core) : Nat × Core :=
  let ((opcode, taken), s) := (Processor.executeNext : Exec (UInt8 × Bool)) s
  let cycles := Opcode.cost opcode taken
  (cycles, s.pass cycles)

/-- A step takes at least two cycles. -/
theorem two_le_step (s : Core) : 2 ≤ (step s).1 := Nat.le_trans (Opcode.cycles_mem _).1 (Nat.le_add_right _ _)

/-- Spends a budget. What the last instruction overdraws stays as a negative budget. -/
def spend (s : Core) (budget : Int) : Core :=
  if budget ≤ 0 then { s with cpu := { s.cpu with budget } }
  else if s.cpu.runState = .running then
    let next := step s
    spend next.2 (budget - next.1)
  else { s with cpu := { s.cpu.pass budget.toNat with budget := 0 } }
termination_by budget.toNat
decreasing_by
  have h := two_le_step s
  omega

/-- Greatest budget that can be held. -/
def maxBudget : Int := 0x7FFFFFFFFFFFFFFF

/-- Runs the CPU for a number of cycles. -/
def run (s : Core) (cycles : Nat) : Core :=
  spend s (min (s.cpu.budget + min (cycles : Int) maxBudget) maxBudget)

end Core

end SnesSound
