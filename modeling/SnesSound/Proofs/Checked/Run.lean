import SnesSound.Proofs.Checked.Instruction
import SnesSound.Proofs.Cpu.Timer

/-!
# Checked runs of the CPU

The timers and the counts of cycles are the only numbers of the CPU that do not wrap around. Timers stay in their range
whatever a program does (`Core.lasting_timers`), and a run needs no more room in the count of cycles than what it is
given and the rest of one instruction.

Main statement: a run never stops the engine as long as its cycles can be counted (`run_eq`).
-/

namespace SnesSound

namespace Checked

/-! ## Timers -/

/-- Counts one period. -/
def count (t : Timer) : Checked Timer := do
  let position ← natural 16 (t.position + 1)
  if t.target ≤ position then do
    let next ← natural 8 (t.output.toNat + 1)
    return { t with position := 0, output := UInt8.ofNat next % 16 }
  else return { t with position }

/-- Counts one period if the timer is enabled. -/
def countIf (enabled : Bool) (t : Timer) : Checked Timer := if enabled then count t else return t

/-- Takes whole periods from a prescaler and counts them. -/
def drain (period : Nat) (enabled : Bool) (prescaler : Nat) (t : Timer) : Checked Timer :=
  if 0 < period ∧ period ≤ prescaler then do
    let _ ← subtract prescaler period
    let t ← countIf enabled t
    drain period enabled (prescaler - period) t
  else return { t with prescaler }
termination_by prescaler

/-- Lets CPU cycles pass. -/
def advanceTimer (period cycles : Nat) (enabled : Bool) (t : Timer) : Checked Timer := do
  let prescaler ← natural 64 (t.prescaler + cycles)
  drain period enabled prescaler t

/-- Lets CPU cycles pass for all timers. -/
def advanceTimers (ts : Timers) (cycles : Nat) (control : Control) : Checked Timers := do
  let t0 ← advanceTimer (Timers.period 0) cycles (control.timerEnabled 0) (ts.get 0)
  let t1 ← advanceTimer (Timers.period 1) cycles (control.timerEnabled 1) (ts.get 1)
  let t2 ← advanceTimer (Timers.period 2) cycles (control.timerEnabled 2) (ts.get 2)
  return #v[t0, t1, t2]

theorem count_eq {t : Timer} {period : Nat} (h : t.InRange period) : count t = .ok t.count := by
  have hposition := h.position
  have houtput := h.output
  rw [count, natural_ok (by omega), ok_bind, Timer.count]
  split
  · rw [natural_ok (by omega), ok_bind, UInt8.ofNat_add, UInt8.ofNat_toNat]
    rfl
  · rfl

theorem drain_eq {period : Nat} (hp : 0 < period) (enabled : Bool) (prescaler : Nat) {t : Timer}
    (h : t.InRange period) :
    drain period enabled prescaler t =
      .ok { (if enabled then Nat.repeat Timer.count (prescaler / period) t else t) with
        prescaler := prescaler % period } := by
  induction prescaler using Nat.strongRecOn generalizing t with
  | _ prescaler ih =>
    unfold drain
    split
    next hle =>
      have hlt : prescaler - period < prescaler := by omega
      have hdiv : prescaler / period = 1 + (prescaler - period) / period := by
        rw [Nat.div_eq_sub_div hp hle.2, Nat.add_comm]
      rw [subtract_ok hle.2, ok_bind, Nat.mod_eq_sub_mod hle.2]
      cases enabled with
      | true =>
        rw [countIf, if_pos rfl, count_eq h, ok_bind, ih _ hlt h.count, hdiv, Timer.repeat_count_add]
        rfl
      | false =>
        rw [countIf, if_neg Bool.false_ne_true, pure_bind, ih _ hlt h]
        rfl
    next hlt =>
      rw [Nat.div_eq_of_lt (by omega), Nat.mod_eq_of_lt (by omega)]
      cases enabled <;> rfl

theorem advanceTimer_eq {period cycles : Nat} (hp : 0 < period ∧ period ≤ 128) (hc : cycles < 2 ^ 63) (enabled : Bool)
    {t : Timer} (h : t.InRange period) :
    advanceTimer period cycles enabled t = .ok (t.advance period cycles enabled) := by
  have hprescaler := h.prescaler
  rw [advanceTimer, natural_ok (by omega), ok_bind, drain_eq hp.1 enabled _ h, Timer.advance]
  cases enabled with
  | true => simp only [if_true, Timer.repeat_count_setPrescaler]
  | false => rfl

theorem advanceTimers_eq {ts : Timers} (h : ts.InRange) {cycles : Nat} (hc : cycles < 2 ^ 63) (control : Control) :
    advanceTimers ts cycles control = .ok (ts.advance cycles control) := by
  have ht (i : Fin 3) : advanceTimer (Timers.period i) cycles (control.timerEnabled i) (ts.get i) =
      .ok ((ts.get i).advance (Timers.period i) cycles (control.timerEnabled i)) :=
    advanceTimer_eq (Timers.period_mem i) hc _ (h i)
  simp only [advanceTimers, ht, ok_bind]
  refine congrArg Except.ok (Vector.ext fun i hi => ?_)
  rw [Timers.advance, Vector.getElem_mapFinIdx]
  obtain rfl | rfl | rfl : i = 0 ∨ i = 1 ∨ i = 2 := by omega
  all_goals rfl

/-! ## Steps -/

/-- The cycles that an instruction takes, found in the table of all opcodes. -/
def cost (opcode : UInt8) (taken : Bool) : Checked Nat := do
  let row ← cell Opcode.cycleRows (opcode.toNat / 16)
  let cycles ← cell row (opcode.toNat % 16)
  natural 8 (cycles + if taken then Opcode.branchCycles else 0)

/-- Lets cycles pass. -/
def pass (s : Core) (cycles : Nat) : Checked Core := do
  let total ← natural 64 (s.cpu.cycles + cycles)
  let timers ← advanceTimers s.cpu.timers cycles s.cpu.control
  return { s with cpu := { s.cpu with cycles := total, timers } }

/-- Executes one instruction and returns the cycles it took. -/
def step (s : Core) : Checked (Nat × Core) := do
  let next ← executeNext s
  let cycles ← cost next.1.1 next.1.2
  let s ← pass next.2 cycles
  return (cycles, s)

theorem cost_eq (opcode : UInt8) (taken : Bool) : cost opcode taken = .ok (Opcode.cost opcode taken) := by
  have hlt := opcode.toNat_lt
  have hcycles := (Opcode.cycles_mem opcode).2
  have hextra : (if taken then Opcode.branchCycles else 0) ≤ 2 := by cases taken <;> decide
  have hrow : opcode.toNat / 16 < 16 := by omega
  have hcolumn : opcode.toNat % 16 < 16 := by omega
  rw [cost, cell_ok hrow, ok_bind, cell_ok hcolumn, ok_bind]
  exact natural_ok (Nat.lt_of_le_of_lt (Nat.add_le_add hcycles hextra) (by decide))

theorem pass_eq {s : Core} (h : s.cpu.timers.InRange) {cycles : Nat} (hc : s.cpu.cycles < 2 ^ 63)
    (hn : cycles < 2 ^ 63) : pass s cycles = .ok (s.pass cycles) := by
  rw [pass, natural_ok (by omega), ok_bind, advanceTimers_eq h hn]
  rfl

theorem step_eq {s : Core} (h : s.cpu.timers.InRange) (hc : s.cpu.cycles < 2 ^ 63) : step s = .ok s.step := by
  have hcycles : ((Processor.executeNext : Exec (UInt8 × Bool)) s).2.cpu.cycles = s.cpu.cycles :=
    (Core.stable_cycles s.cpu.cycles).executeNext rfl
  have hcost := s.step_le_twelve
  rw [Core.step_fst] at hcost
  rw [step, executeNext_eq, ok_bind, cost_eq, ok_bind,
    pass_eq (Core.lasting_timers.executeNext h) (by omega) (by omega)]
  rfl

/-- A checked step takes time as well. -/
theorem two_le_of_step {s : Core} {next : Nat × Core} (h : step s = .ok next) : 2 ≤ next.1 := by
  rw [step, executeNext_eq, ok_bind, cost_eq, ok_bind] at h
  cases hp : pass ((Processor.executeNext : Exec (UInt8 × Bool)) s).2 (Opcode.cost _ _) with
  | error fault =>
    rw [hp] at h
    nomatch h
  | ok t =>
    rw [hp] at h
    cases h
    exact s.two_le_step

/-! ## Runs -/

/-- Spends a budget. -/
def spend (s : Core) (budget : Int) : Checked Core :=
  if budget ≤ 0 then return { s with cpu := { s.cpu with budget } }
  else if s.cpu.runState = .running then
    match _h : step s with
    | .error fault => .error fault
    | .ok next => do
      let _ ← integer 64 (budget - next.1)
      spend next.2 (budget - next.1)
  else do
    let s ← pass s budget.toNat
    return { s with cpu := { s.cpu with budget := 0 } }
termination_by budget.toNat
decreasing_by
  have h := two_le_of_step ‹step s = .ok next›
  omega

/-- Runs the CPU for a number of cycles. -/
def run (s : Core) (cycles : Nat) : Checked Core :=
  spend s (min (s.cpu.budget + min (cycles : Int) Core.maxBudget) Core.maxBudget)

/-- Spending a budget never stops the engine as long as its cycles can be counted. -/
theorem spend_eq {s : Core} (h : s.cpu.timers.InRange) {budget : Int} (hb : -11 ≤ budget)
    (hc : s.cpu.cycles + budget < 2 ^ 63) :
    spend s budget = .ok (s.spend budget) := by
  induction s, budget using Core.spend.induct with
  | case1 s budget hle =>
    rw [spend, if_pos hle, Core.spend_of_nonpos _ hle]
    rfl
  | case2 s budget hle hr next ih =>
    have hstep := step_eq h (by omega)
    have hcycles : next.2.cpu.cycles = s.cpu.cycles + next.1 := s.cycles_step
    have hcost : next.1 ≤ 12 := s.step_le_twelve
    rw [spend, if_neg hle, if_pos hr, Core.spend_of_running (Int.not_le.mp hle) hr]
    split
    next fault hs =>
      rw [hstep] at hs
      cases hs
    next next' hs =>
      rw [hstep] at hs
      cases hs
      change integer 64 (budget - next.1) >>= _ = _
      rw [integer_ok (by omega), ok_bind]
      exact ih (Core.lasting_timers.step h) (by omega) (by omega)
  | case3 s budget hle hr =>
    rw [spend, if_neg hle, if_neg hr, Core.spend_of_halted (Int.not_le.mp hle) hr, pass_eq h (by omega) (by omega),
      ok_bind]
    rfl

/-- A run never stops the engine as long as its cycles can be counted. -/
theorem run_eq {s : Core} (h : s.cpu.timers.InRange) (hb : -11 ≤ s.cpu.budget ∧ s.cpu.budget ≤ 0) {cycles : Nat}
    (hc : (cycles : Int) ≤ Core.maxBudget) (hend : s.cpu.cycles + s.cpu.budget + cycles < 2 ^ 63) :
    run s cycles = .ok (s.run cycles) := by
  rw [run, Core.run]
  rw [Int.min_eq_left hc, Int.min_eq_left (by omega)]
  exact spend_eq h (by omega) (by omega)

end Checked

end SnesSound
