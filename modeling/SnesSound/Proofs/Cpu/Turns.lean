import Mathlib.Algebra.Ring.Int.Defs
import Mathlib.Algebra.Ring.Nat
import Mathlib.Logic.Function.Iterate
import SnesSound.Proofs.Cpu.Budget

/-!
# Turns of a run

A run is a loop: as long as there is a budget left, it executes one instruction and pays for it, or, if the CPU is
halted, lets all the time pass that is left. Every turn of the loop costs at least two cycles or all that there are, so
the loop comes to its end; and since what is left in the end is kept for the next run, it does not matter how the time
is divided that the CPU is given. This is so for every budget to begin with, also for one that no run leaves.

Main statement: runs add up, their loops end, and they leave a budget between -11 and 0 (`runs_add_and_end`).
-/

namespace SnesSound

namespace Core

/-- One turn of the loop of a run. -/
def turn (s : Core) : Core :=
  if s.cpu.runState = .running then s.step.2.withBudget (s.cpu.budget - s.step.1)
  else (s.withBudget 0).pass s.cpu.budget.toNat

/-- The core at the beginning of a run: its budget grows by the cycles that it is given, up to the greatest one that can
be held. -/
def grant (s : Core) (cycles : Nat) : Core :=
  s.withBudget (min (s.cpu.budget + min (cycles : Int) maxBudget) maxBudget)

variable {s : Core} {budget : Int}

/-! ## The end of the loop -/

theorem turn_of_running (hr : s.cpu.runState = .running) (budget : Int) :
    (s.withBudget budget).turn = s.step.2.withBudget (budget - s.step.1) := by
  have hrunning : (s.withBudget budget).cpu.runState = .running := hr
  rw [turn, if_pos hrunning, step_withBudget]
  rfl

theorem turn_of_halted (hr : s.cpu.runState ≠ .running) (budget : Int) :
    (s.withBudget budget).turn = (s.pass budget.toNat).withBudget 0 := by
  have hhalted : (s.withBudget budget).cpu.runState ≠ .running := hr
  rw [turn, if_neg hhalted]
  rfl

/-- A turn costs at least two cycles or all that there are. -/
theorem budget_turn (s : Core) : s.turn.cpu.budget ≤ s.cpu.budget - 2 ∨ s.turn.cpu.budget = 0 := by
  by_cases hr : s.cpu.runState = .running
  · have hcost := s.two_le_step
    left
    rw [turn, if_pos hr]
    change s.cpu.budget - s.step.1 ≤ s.cpu.budget - 2
    omega
  · right
    rw [turn, if_neg hr]
    rfl

/-- What the loop of a run does in `n` turns: there is some budget left before each of them and none after the last one,
and there are at most half as many turns as cycles. -/
structure EndsAfter (s : Core) (n : Nat) : Prop where
  before : ∀ k < n, 0 < (turn^[k] s).cpu.budget
  after : (turn^[n] s).cpu.budget ≤ 0
  count : (n : Int) ≤ max 0 ((s.cpu.budget + 1) / 2)

theorem endsAfter_zero (h : s.cpu.budget ≤ 0) : s.EndsAfter 0 where
  before _ hk := absurd hk (Nat.not_lt_zero _)
  after := h
  count := Int.le_max_left ..

theorem EndsAfter.succ {n : Nat} (h : s.turn.EndsAfter n) (hpos : 0 < s.cpu.budget) : s.EndsAfter (n + 1) where
  before
    | 0, _ => hpos
    | k + 1, hk => h.before k (Nat.lt_of_succ_lt_succ hk)
  after := h.after
  count := by
    have hcount := h.count
    have hturn := s.budget_turn
    omega

/-- To spend a budget is to go through the loop until it ends. -/
theorem exists_spend_eq (s : Core) (budget : Int) :
    ∃ n, s.spend budget = turn^[n] (s.withBudget budget) ∧ (s.withBudget budget).EndsAfter n := by
  induction s, budget using spend.induct with
  | case1 s budget h => exact ⟨0, spend_of_nonpos s h, endsAfter_zero h⟩
  | case2 s budget h hr next ih =>
    obtain ⟨n, hspend, hends⟩ := ih
    have hpos := Int.not_le.mp h
    have hturn : (s.withBudget budget).turn = next.2.withBudget (budget - next.1) := turn_of_running hr budget
    rw [← hturn] at hspend hends
    exact ⟨n + 1, (spend_of_running hpos hr).trans hspend, hends.succ hpos⟩
  | case3 s budget h hr =>
    have hpos := Int.not_le.mp h
    have hturn := turn_of_halted hr budget
    have hends : (s.withBudget budget).turn.EndsAfter 0 := endsAfter_zero (by rw [hturn]; exact Int.le_refl 0)
    exact ⟨1, (spend_of_halted hpos hr).trans hturn.symm, hends.succ hpos⟩

theorem exists_run_eq (s : Core) (cycles : Nat) :
    ∃ n, s.run cycles = turn^[n] (s.grant cycles) ∧ (s.grant cycles).EndsAfter n :=
  exists_spend_eq s _

/-- **Runs add up, and they end.** Two runs one after the other leave the same CPU, RAM and registers of the sound unit
as one run for the time of both, for every core, as long as this time fits into the budget, alone and together with
what was left before. The loop of every run ends: it executes the turns that are due while there is some budget left,
each of which lowers the budget by at least 2 or sets it to 0. And a run that starts with a budget between -11 and 0
leaves one. -/
theorem runs_add_and_end :
    (∀ (s : Core) (a b : Nat), a + b < 2 ^ 63 → s.cpu.budget + a + b < 2 ^ 63 → (s.run a).run b = s.run (a + b)) ∧
    (∀ (s : Core) (cycles : Nat), ∃ n, s.run cycles = turn^[n] (s.grant cycles) ∧ (s.grant cycles).EndsAfter n) ∧
    (∀ s : Core, 0 < s.cpu.budget → s.turn.cpu.budget ≤ s.cpu.budget - 2 ∨ s.turn.cpu.budget = 0) ∧
    ∀ (s : Core) (cycles : Nat), -11 ≤ s.cpu.budget → s.cpu.budget ≤ 0 →
      -11 ≤ (s.run cycles).cpu.budget ∧ (s.run cycles).cpu.budget ≤ 0 := by
  refine ⟨fun s a b hab h => ?_, exists_run_eq, fun s _ => s.budget_turn, fun s cycles h _ => budget_run h cycles⟩
  have hmax : maxBudget = 2 ^ 63 - 1 := rfl
  exact run_add (by omega) (by omega)

/-- A core about to execute MUL, which takes nine cycles, and then SLEEP. -/
def drowsy : Core where
  cpu := { pc := 0x0200 }
  memory := (Memory.zero.set 0x0200 0xCF).set 0x0201 0xEF

/-- A run that ends inside MUL, another one that begins there and ends in the sleep: the first one leaves -4 cycles, the
second one the core that one run leaves. -/
theorem runs_add_and_end_inside_an_instruction :
    (drowsy.run 5).run 200 = drowsy.run 205 ∧
    (∃ n, drowsy.run 205 = turn^[n] (drowsy.grant 205) ∧ (drowsy.grant 205).EndsAfter n) ∧
    ((drowsy.grant 5).turn.cpu.budget = -4 ∧
      ((drowsy.grant 5).turn.cpu.budget ≤ (drowsy.grant 5).cpu.budget - 2 ∨ (drowsy.grant 5).turn.cpu.budget = 0)) ∧
    -11 ≤ (drowsy.run 5).cpu.budget ∧ (drowsy.run 5).cpu.budget ≤ 0 :=
  ⟨runs_add_and_end.1 drowsy 5 200 (by decide) (by decide), runs_add_and_end.2.1 drowsy 205,
    ⟨by decide +kernel, runs_add_and_end.2.2.1 (drowsy.grant 5) (by decide +kernel)⟩,
    runs_add_and_end.2.2.2 drowsy 5 (by decide) (by decide)⟩

end Core

end SnesSound
