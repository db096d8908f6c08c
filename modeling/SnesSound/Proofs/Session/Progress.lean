import SnesSound.Proofs.Session.Elapse

/-!
# Machines under way

A cycle of a machine on time is worth at most one instruction: the CPU either executes the next one or saves up for it,
and in front of every 32nd cycle the sound unit makes a tick. So what instructions, budgets and ticks keep is kept by
runs, and a program that gets nearer to its goal with every instruction is there after twelve cycles for each.

Main statements: invariants hold after any number of cycles (`Invariant.elapse`), and a phase in which every instruction
counts comes to its end in time (`Phase.elapse`).
-/

namespace SnesSound

namespace Machine

variable {m : Machine}

/-- The machine after one instruction. -/
def stepCpu (m : Machine) : Machine := { m with toCore := m.toCore.step.2 }

/-- The machine with another budget. -/
def withBudget (m : Machine) (budget : Int) : Machine := { m with toCore := m.toCore.withBudget budget }

/-- A CPU that has overdrawn its budget spends a cycle on it. -/
theorem runCpu_one_of_neg (h : m.OnTime) (hb : m.cpu.budget < 0) : m.runCpu 1 = m.withBudget (m.cpu.budget + 1) := by
  have hmax : ((1 : Nat) : Int) ≤ Core.maxBudget := by decide
  have hrun := Core.run_eq_spend h.2 hmax
  rw [runCpu, if_neg (by decide), hrun, Core.spend_of_nonpos _ (by omega)]
  rfl

/-- A running CPU whose budget is used up executes one instruction in a cycle. -/
theorem runCpu_one_of_zero (hr : m.cpu.runState = .running) (hb : m.cpu.budget = 0) :
    m.runCpu 1 = m.stepCpu.withBudget (1 - m.toCore.step.1) := by
  have hcost := m.toCore.two_le_step
  have hmax : ((1 : Nat) : Int) ≤ Core.maxBudget := by decide
  have hrun := Core.run_eq_spend (s := m.toCore) (Int.le_of_eq hb) hmax
  have hone : m.cpu.budget + (1 : Nat) = 1 := by rw [hb]; rfl
  rw [runCpu, if_neg (by decide), hrun, hone, Core.spend_of_running (by decide) hr, Core.spend_of_nonpos _ (by omega)]
  rfl

/-! ## Invariants -/

/-- A property of running machines that time cannot break. -/
structure Invariant (P : Machine → Prop) : Prop where
  running : ∀ {m}, P m → m.cpu.runState = .running
  stepCpu : ∀ {m}, P m → P m.stepCpu
  withBudget : ∀ {m} budget, P m → P (m.withBudget budget)
  tick : ∀ {m} mask, P m → P (m.tick mask).2

namespace Invariant

variable {P : Machine → Prop}

theorem runCpu_one (hP : Invariant P) (ht : m.OnTime) (h : P m) : P (m.runCpu 1) := by
  by_cases hb : m.cpu.budget < 0
  · rw [runCpu_one_of_neg ht hb]
    exact hP.withBudget _ h
  · rw [runCpu_one_of_zero (hP.running h) (Int.le_antisymm ht.2 (Int.not_lt.mp hb))]
    exact hP.withBudget _ (hP.stepCpu h)

/-- An invariant holds after any number of cycles. -/
theorem elapse (hP : Invariant P) {s : Session} (ht : s.OnTime) (h : P s.machine) (n : Nat) :
    P (s.elapse n).1.machine := by
  refine ht.elapse_induction (P := fun _ t _ => P t.machine) h ?_ ?_ n
  · intro n t frames ht h0 ih
    exact hP.runCpu_one (ht.machine.tick _) (hP.tick _ ih)
  · intro n t frames ht hpos ih
    exact hP.runCpu_one ht.machine ih

/-- What holds of the frames of an invariant's ticks holds of all frames. -/
theorem frames_elapse {Q : Frame → Prop} (hP : Invariant P) (hframe : ∀ {m} mask, P m → Q (m.tick mask).1)
    {s : Session} (ht : s.OnTime) (h : P s.machine) (n : Nat) : ∀ frame ∈ (s.elapse n).2, Q frame := by
  refine (ht.elapse_induction (P := fun _ t frames => P t.machine ∧ ∀ frame ∈ frames, Q frame) ?_ ?_ ?_ n).2
  · exact ⟨h, fun frame hf => absurd hf (Array.not_mem_empty frame)⟩
  · rintro n t frames ht h0 ⟨hm, hold⟩
    refine ⟨hP.runCpu_one (ht.machine.tick _) (hP.tick _ hm), fun frame hf => ?_⟩
    rcases Array.mem_push.mp hf with hmem | rfl
    · exact hold frame hmem
    · exact hframe _ hm
  · rintro n t frames ht hpos ⟨hm, hold⟩
    exact ⟨hP.runCpu_one ht.machine hm, hold⟩

/-- What a tick turns an invariant into holds as soon as a frame has been begun. -/
theorem elapse_of_tick {Q : Machine → Prop} (hP : Invariant P) (hQ : Invariant Q)
    (htick : ∀ {m} mask, P m → Q (m.tick mask).2) {s : Session} (ht : s.OnTime) (h : P s.machine) {n : Nat}
    (hn : s.owed < n) : Q (s.elapse n).1.machine := by
  obtain ⟨k, rfl⟩ := Nat.exists_eq_add_of_lt hn
  have hpaid := hP.elapse ht h s.owed
  have howed : (s.elapse s.owed).1.owed = 0 := by
    rw [Session.elapse, Session.iterate_cycle_pay ht (Nat.le_refl _)]
    exact Nat.sub_self _
  have htp := ht.elapse s.owed
  have ht1 := htp.elapse 1
  have hbegun : Q ((s.elapse s.owed).1.elapse 1).1.machine := by
    have hcycle := Session.cycle_of_owed_eq_zero howed #[]
    rw [Session.elapse, Function.iterate_one, hcycle]
    exact hQ.runCpu_one (htp.machine.tick _) (htick _ hpaid)
  rw [show s.owed + k + 1 = s.owed + (1 + k) by omega, Session.elapse_add, Session.elapse_add]
  exact hQ.elapse ht1 hbegun k

end Invariant

/-! ## Phases -/

/-- A phase of a program that ends in an invariant. `P n` holds of the machines that are at most `n` instructions away
from its end. -/
structure Phase (P : Nat → Machine → Prop) (Q : Machine → Prop) : Prop where
  running : ∀ {n m}, P n m → m.cpu.runState = .running
  stepCpu : ∀ {n m}, P n m → Q m.stepCpu ∨ ∃ k < n, P k m.stepCpu
  withBudget : ∀ {n m} budget, P n m → P n (m.withBudget budget)
  tick : ∀ {n m} mask, P n m → P n (m.tick mask).2
  goal : Invariant Q

namespace Phase

variable {P : Nat → Machine → Prop} {Q : Machine → Prop} {n : Nat}

/-- A cycle leads to the end of a phase, or it leaves fewer cycles to go: twelve for each instruction, and those that
are overdrawn. -/
theorem runCpu_one (h : Phase P Q) (ht : m.OnTime) (hm : P n m) :
    Q (m.runCpu 1) ∨ ∃ k, P k (m.runCpu 1) ∧ 12 * (k : Int) - (m.runCpu 1).cpu.budget < 12 * n - m.cpu.budget := by
  by_cases hb : m.cpu.budget < 0
  · right
    have hbudget : (m.withBudget (m.cpu.budget + 1)).cpu.budget = m.cpu.budget + 1 := rfl
    rw [runCpu_one_of_neg ht hb]
    exact ⟨n, h.withBudget _ hm, by omega⟩
  · have h0 : m.cpu.budget = 0 := Int.le_antisymm ht.2 (Int.not_lt.mp hb)
    have hcost := m.toCore.step_le_twelve
    rw [runCpu_one_of_zero (h.running hm) h0]
    rcases h.stepCpu hm with hQ | ⟨k, hk, hP⟩
    · exact .inl (h.goal.withBudget _ hQ)
    · right
      have hbudget : (m.stepCpu.withBudget (1 - m.toCore.step.1)).cpu.budget = 1 - m.toCore.step.1 := rfl
      exact ⟨k, h.withBudget _ hP, by omega⟩

/-- In the course of a phase either its end has been reached or it has come nearer with every cycle. -/
theorem elapse_or (h : Phase P Q) {s : Session} (ht : s.OnTime) (hs : P n s.machine) (cycles : Nat) :
    Q (s.elapse cycles).1.machine ∨ ∃ k, P k (s.elapse cycles).1.machine ∧
      12 * (k : Int) - (s.elapse cycles).1.machine.cpu.budget + cycles ≤ 12 * n - s.machine.cpu.budget := by
  refine ht.elapse_induction (P := fun cycles t _ => Q t.machine ∨ ∃ k, P k t.machine ∧
    12 * (k : Int) - t.machine.cpu.budget + cycles ≤ 12 * n - s.machine.cpu.budget) ?_ ?_ ?_ cycles
  · exact .inr ⟨n, hs, Int.le_of_eq (Int.add_zero _)⟩
  · rintro cycles t frames ht h0 (hQ | ⟨k, hP, hleft⟩)
    · exact .inl (h.goal.runCpu_one (ht.machine.tick _) (h.goal.tick _ hQ))
    · rcases h.runCpu_one (ht.machine.tick _) (h.tick t.channelMask hP) with hQ | ⟨k', hP', hless⟩
      · exact .inl hQ
      · rw [cpu_tick] at hless
        exact .inr ⟨k', hP', by dsimp only; omega⟩
  · rintro cycles t frames ht hpos (hQ | ⟨k, hP, hleft⟩)
    · exact .inl (h.goal.runCpu_one ht.machine hQ)
    · rcases h.runCpu_one ht.machine hP with hQ | ⟨k', hP', hless⟩
      · exact .inl hQ
      · exact .inr ⟨k', hP', by dsimp only; omega⟩

/-- A phase is over after twelve cycles for each instruction and for those that are overdrawn. -/
theorem elapse (h : Phase P Q) {s : Session} (ht : s.OnTime) (hs : P n s.machine) {cycles : Nat}
    (hn : 12 * n + 12 ≤ cycles) : Q (s.elapse cycles).1.machine := by
  rcases h.elapse_or ht hs cycles with hQ | ⟨k, -, hleft⟩
  · exact hQ
  · have hbudget := ht.machine.1
    have hbudget' := (ht.elapse cycles).machine.2
    omega

end Phase

end Machine

end SnesSound
