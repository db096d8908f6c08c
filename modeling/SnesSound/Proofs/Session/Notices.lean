import SnesSound.Proofs.Cpu.Budget
import SnesSound.Session

/-!
# Notices

The CPU gathers notices and never looks at them. A session therefore runs in the same way whether or not a host has
taken away the notices of earlier runs: they stand in front of those that are gathered later, and nothing else differs.

Main statement: a run neither sees nor changes the notices of earlier ones (`run_withEarlier`).
-/

namespace SnesSound

/-! ## Changes that neither instructions nor time see -/

namespace Core

/-- A change of the core that has no part in how it runs. -/
structure Inert (f : Core → Core) : Prop extends Unseen f where
  budget : ∀ s, (f s).cpu.budget = s.cpu.budget
  runState : ∀ s, (f s).cpu.runState = s.cpu.runState
  pass : ∀ s cycles, (f s).pass cycles = f (s.pass cycles)
  withBudget : ∀ s budget, (f s).withBudget budget = f (s.withBudget budget)

namespace Inert

variable {f : Core → Core}

theorem spend (h : Inert f) (s : Core) (budget : Int) : (f s).spend budget = f (s.spend budget) := by
  induction s, budget using spend.induct with
  | case1 s budget hb => rw [spend_of_nonpos _ hb, spend_of_nonpos _ hb, h.withBudget]
  | case2 s budget hb hr next ih =>
    have hpos := Int.not_le.mp hb
    have hr' : (f s).cpu.runState = .running := (h.runState s).trans hr
    rw [spend_of_running hpos hr, spend_of_running hpos hr', h.step h.pass]
    exact ih
  | case3 s budget hb hr =>
    have hpos := Int.not_le.mp hb
    have hr' : (f s).cpu.runState ≠ .running := h.runState s ▸ hr
    rw [spend_of_halted hpos hr, spend_of_halted hpos hr', h.pass, h.withBudget]

theorem run (h : Inert f) (s : Core) (cycles : Nat) : (f s).run cycles = f (s.run cycles) := by
  rw [Core.run, Core.run, h.budget, h.spend]

end Inert

/-- The core with notices that were gathered earlier. -/
def withEarlier (earlier : Array Notice) (s : Core) : Core :=
  { s with cpu := { s.cpu with notices := earlier ++ s.cpu.notices } }

theorem inert_withEarlier (earlier : Array Notice) : Inert (withEarlier earlier) where
  registers _ := rfl
  peek _ _ := rfl
  afterRead s address := by
    unfold afterRead
    split <;> rfl
  write s address value := by
    have h : (s.withEarlier earlier).writeIo address value = (s.writeIo address value).withEarlier earlier := by
      unfold writeIo
      split
      next => simp [withEarlier, Cpu.writeTest, Array.push_append]
      all_goals rfl
    unfold write
    rw [h]
    rfl
  setRegisters _ _ := rfl
  halt s state := by simp [withEarlier, Cpu.halt]
  budget _ := rfl
  runState _ := rfl
  pass _ _ := rfl
  withBudget _ _ := rfl

end Core

/-! ## Machines and sessions -/

namespace Machine

variable (earlier : Array Notice)

/-- The machine with notices that were gathered earlier. -/
def withEarlier (m : Machine) : Machine := { m with toCore := m.toCore.withEarlier earlier }

theorem runCpu_withEarlier (m : Machine) (cycles : Nat) :
    (m.withEarlier earlier).runCpu cycles = (m.runCpu cycles).withEarlier earlier := by
  unfold runCpu
  split
  next => rfl
  next => simp only [withEarlier, (Core.inert_withEarlier earlier).run]

theorem tick_withEarlier (m : Machine) (mask : UInt8) :
    (m.withEarlier earlier).tick mask = ((m.tick mask).1, (m.tick mask).2.withEarlier earlier) := rfl

theorem produce_withEarlier (mask : UInt8) (n : Nat) (m : Machine) (frames : Array Frame) :
    produce mask n (m.withEarlier earlier) frames =
      ((produce mask n m frames).1.withEarlier earlier, (produce mask n m frames).2) := by
  induction n generalizing m frames with
  | zero => rfl
  | succ n ih => simp only [produce, tick_withEarlier, runCpu_withEarlier, ih]

end Machine

namespace Session

variable (earlier : Array Notice)

/-- The session with notices that were gathered earlier. -/
def withEarlier (s : Session) : Session := { s with machine := s.machine.withEarlier earlier }

theorem withEarlier_withEarlier (first second : Array Notice) (s : Session) :
    (s.withEarlier second).withEarlier first = s.withEarlier (first ++ second) := by
  simp [withEarlier, Machine.withEarlier, Core.withEarlier]

/-- What was taken away is what was gathered earlier. -/
theorem withEarlier_takeNotices (s : Session) : s.takeNotices.2.withEarlier s.takeNotices.1 = s := by
  simp [takeNotices, withEarlier, Machine.withEarlier, Core.withEarlier]

theorem follow_withEarlier (s : Session) (schedule : Schedule) :
    (s.withEarlier earlier).follow schedule =
      ((s.follow schedule).1.withEarlier earlier, (s.follow schedule).2) := by
  simp only [follow, withEarlier, Machine.runCpu_withEarlier, Machine.produce_withEarlier, Machine.tick_withEarlier]
  split <;> rfl

/-- A run neither sees nor changes the notices of earlier ones. -/
theorem run_withEarlier (s : Session) (maxCycles : Option Nat) (maxBytes : Nat) :
    (s.withEarlier earlier).run maxCycles maxBytes =
      ((s.run maxCycles maxBytes).1.withEarlier earlier, (s.run maxCycles maxBytes).2) := by
  have hfollow := s.follow_withEarlier earlier (s.schedule maxCycles maxBytes)
  change (((s.withEarlier earlier).follow (s.schedule maxCycles maxBytes)).1,
    Frame.encode ((s.withEarlier earlier).follow (s.schedule maxCycles maxBytes)).2) = _
  rw [hfollow]
  rfl

end Session

end SnesSound
