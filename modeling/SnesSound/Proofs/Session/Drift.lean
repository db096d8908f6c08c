import SnesSound.Proofs.Session.Elapse

/-!
# Audio and CPU time do not drift apart

Every cycle of a run is a cycle of the CPU, and every frame stands for 32 of them. A frame is produced before its
cycles are run, so what is produced is ahead of the time that has passed by what is owed, and the time that the CPU has
used is ahead of it by what the last instruction has overdrawn.

Main statement: after any runs of a session that has just been created or loaded, its output, what it owes and the
cycles of its CPU are what the time that has passed says (`time_runAll`).
-/

namespace SnesSound

namespace Machine

variable {m : Machine}

/-- What the CPU has used and what it has left grow by the time that it is given. -/
theorem cycles_add_budget_runCpu (h : m.OnTime) (cycles : Nat) (hc : cycles ≤ cyclesPerFrame) :
    (m.runCpu cycles).cpu.cycles + (m.runCpu cycles).cpu.budget = m.cpu.cycles + m.cpu.budget + cycles := by
  unfold runCpu
  split
  next h0 => simp [h0]
  next => exact Core.cycles_add_budget_run h.2 (Int.le_trans (Int.ofNat_le.mpr hc) (by decide))

/-- The cycles that the CPU has used never get less. -/
theorem cycles_le_runCpu (h : m.OnTime) {cycles : Nat} (hc : cycles ≤ cyclesPerFrame) :
    m.cpu.cycles ≤ (m.runCpu cycles).cpu.cycles := by
  unfold runCpu
  split
  · exact Nat.le_refl _
  · have hlow := h.1
    have hrun := Core.run_eq_spend h.2 (Int.le_trans (Int.ofNat_le.mpr hc) (by decide))
    rw [hrun]
    exact m.toCore.cycles_le_spend (by omega)

end Machine

namespace Session

/-! ## Time that passes -/

variable {s : Session}

/-- What is owed pays for the frames that are ahead of the time that has passed. -/
theorem frames_elapse (s : Session) (n : Nat) :
    (s.elapse n).2.size * Machine.cyclesPerFrame + s.owed = n + (s.elapse n).1.owed := by
  refine elapse_induction (P := fun n t frames => frames.size * Machine.cyclesPerFrame + s.owed = n + t.owed)
    ?_ ?_ ?_ n
  · simp
  · intro n t frames h0 ih
    rw [Array.size_push]
    simp only [Machine.cyclesPerFrame] at ih ⊢
    omega
  · intro n t frames hpos ih
    dsimp only at ih ⊢
    omega

/-- The CPU is given the time that passes. -/
theorem cycles_elapse (h : s.OnTime) (n : Nat) :
    ((s.elapse n).1.totalCycles : Int) + (s.elapse n).1.machine.cpu.budget =
      s.totalCycles + s.machine.cpu.budget + n := by
  refine h.elapse_induction (P := fun n t _ =>
    (t.totalCycles : Int) + t.machine.cpu.budget = s.totalCycles + s.machine.cpu.budget + n) ?_ ?_ ?_ n
  · simp
  · intro n t frames ht h0 ih
    have hcycle := Machine.cycles_add_budget_runCpu (ht.machine.tick t.channelMask) 1 (by decide)
    rw [Machine.cpu_tick] at hcycle
    simp only [totalCycles] at ih ⊢
    omega
  · intro n t frames ht hpos ih
    have hcycle := Machine.cycles_add_budget_runCpu ht.machine 1 (by decide)
    simp only [totalCycles] at ih ⊢
    omega

/-- Time only passes. -/
theorem totalCycles_le_elapse (h : s.OnTime) (n : Nat) : s.totalCycles ≤ (s.elapse n).1.totalCycles := by
  refine h.elapse_induction (P := fun _ t _ => s.totalCycles ≤ t.totalCycles) ?_ ?_ ?_ n
  · exact Nat.le_refl _
  · intro n t frames ht h0 ih
    exact Nat.le_trans ih (Machine.cycles_le_runCpu (ht.machine.tick t.channelMask) (by decide))
  · intro n t frames ht hpos ih
    exact Nat.le_trans ih (Machine.cycles_le_runCpu ht.machine (by decide))

/-! ## Single runs -/

/-- A run returns whole frames. -/
theorem four_dvd_size_run (s : Session) (maxCycles : Option Nat) (maxBytes : Nat) :
    4 ∣ (s.run maxCycles maxBytes).2.size := by
  rw [size_run]
  exact Nat.dvd_mul_right bytesPerFrame _

/-- A run returns no more than it was asked for. -/
theorem size_run_le (s : Session) (maxCycles : Option Nat) (maxBytes : Nat) :
    (s.run maxCycles maxBytes).2.size ≤ maxBytes := by
  rw [size_run]
  calc bytesPerFrame * (s.schedule maxCycles maxBytes).frameCount
      ≤ bytesPerFrame * (maxBytes / bytesPerFrame) := Nat.mul_le_mul_left _ (Schedule.frameCount_le ..)
    _ ≤ maxBytes := Nat.mul_div_le _ _

/-- A run that has enough cycles returns all the frames that it was asked for. -/
theorem size_run_of_le {maxCycles : Option Nat} {maxBytes : Nat}
    (h : ∀ cycles ∈ maxCycles, 32 * (maxBytes / 4) + s.owed ≤ cycles) :
    (s.run maxCycles maxBytes).2.size = 4 * (maxBytes / 4) := by
  rw [size_run]
  cases maxCycles with
  | none => simp [schedule, Schedule.make, Schedule.frameCount, bytesPerFrame]
  | some cycles =>
    have hle : maxBytes / 4 * 32 + s.owed ≤ cycles := by
      rw [Nat.mul_comm]
      exact h cycles rfl
    simp [schedule, Schedule.make, Schedule.frameCount, bytesPerFrame, hle]

/-! ## Runs one after the other -/

/-- No time has passed yet. -/
theorem Fresh.start (h : Fresh s) : s.OnTime ∧ s.owed = 0 ∧ s.totalCycles = 0 ∧ s.machine.cpu.budget = 0 := by
  cases h with
  | new => exact ⟨onTime_new, rfl, rfl, rfl⟩
  | loaded h =>
    obtain ⟨snapshot, -, rfl⟩ := load_eq_ok h
    exact ⟨onTime_install _ snapshot, rfl, rfl, rfl⟩

/-- After any runs of a session that has just been created or loaded, with `t` cycles in total: there is a frame for
every 32 cycles that have begun, what is owed is the rest of the last one, and the CPU has used at most 11 cycles
more than `t`, whatever program it runs. Every single run returns whole frames, no more than it was asked for, and all
that it was asked for if it has the cycles. -/
theorem time_runAll (h : Fresh s) (limits : List (Option Nat × Nat)) :
    let t := s.totalDemand limits
    let r := s.runAll limits
    r.2.size = 4 * ((t + 31) / 32) ∧ r.1.owed = 32 * ((t + 31) / 32) - t ∧
      t ≤ r.1.totalCycles ∧ r.1.totalCycles ≤ t + 11 ∧
      ∀ before maxCycles maxBytes after, limits = before ++ (maxCycles, maxBytes) :: after →
        let u := (s.runAll before).1
        let size := (u.run maxCycles maxBytes).2.size
        4 ∣ size ∧ size ≤ maxBytes ∧
          ((∀ cycles ∈ maxCycles, 32 * (maxBytes / 4) + u.owed ≤ cycles) → size = 4 * (maxBytes / 4)) := by
  intro t r
  obtain ⟨hs, howed, hcycles, hbudget⟩ := h.start
  have hr : r = ((s.elapse t).1, Frame.encode (s.elapse t).2) := runAll_eq_elapse hs limits
  have hend := hs.elapse t
  have hframes := frames_elapse s t
  have htime := cycles_elapse hs t
  have hlt : (s.elapse t).1.owed < 32 := hend.owed
  obtain ⟨hlow, hhigh⟩ := hend.machine
  rw [howed, Machine.cyclesPerFrame] at hframes
  rw [hcycles, hbudget] at htime
  have hcount : (s.elapse t).2.size = (t + 31) / 32 := by omega
  rw [hr, Frame.size_encode, hcount]
  refine ⟨rfl, ?_, ?_, ?_, fun before maxCycles maxBytes after _ => ?_⟩
  · dsimp only
    omega
  · dsimp only
    omega
  · dsimp only
    omega
  · exact ⟨four_dvd_size_run .., size_run_le .., size_run_of_le⟩

/-- A cycle more than a frame stands for, with a second frame that is owed the rest. -/
theorem time_runAll_of_new :
    let r := ({} : Session).runAll [(some 33, 8)]
    r.2.size = 8 ∧ r.1.owed = 31 ∧ 33 ≤ r.1.totalCycles ∧ r.1.totalCycles ≤ 44 := by
  have ht : ({} : Session).totalDemand [(some 33, 8)] = 33 := by
    simp [totalDemand, demand, Machine.cyclesPerFrame, bytesPerFrame]
  obtain ⟨hsize, howed, hlow, hhigh, -⟩ := time_runAll Fresh.new [(some 33, 8)]
  rw [ht] at hsize howed hlow hhigh
  exact ⟨hsize, howed, hlow, hhigh⟩

end Session

end SnesSound
