import SnesSound.Machine
import SnesSound.Proofs.Checked.Dsp
import SnesSound.Proofs.Checked.Run
import SnesSound.Proofs.Session.Drift

/-!
# Checked machines

A machine is in its range if its timers and its sound unit are and its CPU is on time. It can go on as long as the time
that it is given can be counted, where time is what the CPU has used and what it has left (`Machine.time`).

Main statement: producing frames never stops the engine as long as their time can be counted, be it a number of frames
or all that fit into a number of cycles (`produce_eq`, `produceWhole_eq`).
-/

namespace SnesSound

namespace Machine

/-- Whether a machine is in a state that it can get to. -/
structure InRange (m : Machine) : Prop where
  timers : m.cpu.timers.InRange
  dsp : m.dsp.InRange
  onTime : m.OnTime

/-- The time that the CPU was given so far. -/
def time (m : Machine) : Int := m.cpu.cycles + m.cpu.budget

theorem inRange_powerOn : powerOn.InRange where
  timers := Timers.inRange_initial
  dsp := Dsp.inRange_default
  onTime := Session.onTime_new.machine

end Machine

namespace Checked

variable {m : Machine}

/-! ## Parts of frames -/

/-- Runs the CPU. -/
def runMachine (m : Machine) (cycles : Nat) : Checked Machine :=
  if cycles = 0 then return m
  else do
    let core ← run m.toCore cycles
    return { m with toCore := core }

/-- Produces one frame. -/
def tickMachine (m : Machine) (mask : UInt8) : Checked (Frame × Machine) := do
  let next ← tick m.dsp m.registers m.memory mask
  return (next.1, { cpu := m.cpu, memory := next.2.2.2, registers := next.2.2.1, dsp := next.2.1 })

/-- Produces one frame and runs the CPU for some cycles. -/
def frame (mask : UInt8) (cycles : Nat) (m : Machine) (frames : Array Frame) : Checked (Machine × Array Frame) := do
  let next ← tickMachine m mask
  let m ← runMachine next.2 cycles
  return (m, frames.push next.1)

theorem runMachine_eq (h : m.InRange) {cycles : Nat} (hc : cycles ≤ Machine.cyclesPerFrame)
    (ht : m.time + cycles < 2 ^ 63) :
    runMachine m cycles = .ok (m.runCpu cycles) ∧ (m.runCpu cycles).InRange ∧
      (m.runCpu cycles).time = m.time + cycles := by
  have htime := Machine.cycles_add_budget_runCpu h.onTime cycles hc
  have hmax : (cycles : Int) ≤ Core.maxBudget := Int.le_trans (Int.ofNat_le.mpr hc) (by decide)
  have hon := h.onTime.runCpu cycles
  have hrun := run_eq h.timers h.onTime hmax ht
  have htimers := Core.lasting_timers.run h.timers cycles
  unfold runMachine
  unfold Machine.runCpu at htime hon ⊢
  split
  next h0 => exact ⟨rfl, h, by rw [h0]; exact (Int.add_zero _).symm⟩
  next h0 =>
    rw [if_neg h0] at htime hon
    rw [hrun]
    exact ⟨rfl, ⟨htimers, h.dsp, hon⟩, htime⟩

theorem tickMachine_eq (h : m.InRange) (mask : UInt8) :
    tickMachine m mask = .ok (m.tick mask) ∧ (m.tick mask).2.InRange := by
  obtain ⟨htick, hrange⟩ := tick_eq h.dsp m.registers m.memory mask
  rw [tickMachine, htick]
  exact ⟨rfl, h.timers, hrange, h.onTime⟩

theorem frame_eq (h : m.InRange) (mask : UInt8) {cycles : Nat} (hc : cycles ≤ Machine.cyclesPerFrame)
    (ht : m.time + cycles < 2 ^ 63) (frames : Array Frame) :
    frame mask cycles m frames = .ok ((m.tick mask).2.runCpu cycles, frames.push (m.tick mask).1) ∧
      ((m.tick mask).2.runCpu cycles).InRange ∧ ((m.tick mask).2.runCpu cycles).time = m.time + cycles := by
  obtain ⟨htick, hrange⟩ := tickMachine_eq h mask
  obtain ⟨hrun, hend⟩ := runMachine_eq hrange hc ht
  rw [frame, htick, ok_bind, hrun]
  exact ⟨rfl, hend⟩

/-! ## Frames -/

/-- Produces `n` frames behind those in `frames`. -/
def produce (mask : UInt8) : Nat → Machine → Array Frame → Checked (Machine × Array Frame)
  | 0, m, frames => return (m, frames)
  | n + 1, m, frames => do
    let next ← frame mask Machine.cyclesPerFrame m frames
    produce mask n next.1 next.2

/-- Produces the whole frames in a number of cycles. Returns the cycles that are left. -/
def produceWhole (mask : UInt8) (cycles : Nat) (m : Machine) (frames : Array Frame) :
    Checked (Nat × Machine × Array Frame) :=
  if 32 ≤ cycles then do
    let next ← frame mask Machine.cyclesPerFrame m frames
    let _ ← subtract cycles 32
    produceWhole mask (cycles - 32) next.1 next.2
  else return (cycles, m, frames)
termination_by cycles

/-- Producing frames never stops the engine as long as their time can be counted. -/
theorem produce_eq (h : m.InRange) (mask : UInt8) {n : Nat} (ht : m.time + 32 * n < 2 ^ 63) (frames : Array Frame) :
    produce mask n m frames = .ok (m.produce mask n frames) ∧ (m.produce mask n frames).1.InRange ∧
      (m.produce mask n frames).1.time = m.time + 32 * n := by
  induction n generalizing m frames with
  | zero => exact ⟨rfl, h, (Int.add_zero _).symm⟩
  | succ n ih =>
    have hcycles : Machine.cyclesPerFrame = 32 := rfl
    obtain ⟨hframe, hrange, htime⟩ := frame_eq h mask (Nat.le_refl _) (by omega) frames
    obtain ⟨hrest, hend, hendTime⟩ := ih hrange (by omega) (frames.push (m.tick mask).1)
    rw [produce, hframe, ok_bind, hrest]
    refine ⟨rfl, hend, ?_⟩
    change (((m.tick mask).2.runCpu Machine.cyclesPerFrame).produce mask n (frames.push (m.tick mask).1)).1.time = _
    omega

/-- The same frames are produced as long as there are enough cycles for another one. -/
theorem produceWhole_eq (h : m.InRange) (mask : UInt8) (cycles : Nat) (ht : m.time + cycles < 2 ^ 63)
    (frames : Array Frame) :
    produceWhole mask cycles m frames = .ok (cycles % 32, m.produce mask (cycles / 32) frames) := by
  induction cycles using Nat.strongRecOn generalizing m frames with
  | _ cycles ih =>
    unfold produceWhole
    split
    next hle =>
      have hcycles : Machine.cyclesPerFrame = 32 := rfl
      obtain ⟨hframe, hrange, htime⟩ := frame_eq h mask (Nat.le_refl _) (by omega) frames
      have hrest := ih (cycles - 32) (by omega) hrange (by omega) (frames.push (m.tick mask).1)
      rw [hframe, ok_bind, subtract_ok hle, ok_bind, hrest, Nat.mod_eq_sub_mod hle, Nat.div_eq_sub_div (by decide) hle]
      rfl
    next hlt =>
      rw [Nat.mod_eq_of_lt (by omega), Nat.div_eq_of_lt (by omega)]
      rfl

end Checked

end SnesSound
