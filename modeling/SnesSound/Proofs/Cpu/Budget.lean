import SnesSound.Proofs.Cpu.Step

/-!
# The budget of the CPU

What an instruction overdraws is taken from the next budget, so the time that the CPU has used is never far from the
time that it was given, and it does not matter how the time it is given is divided.

Main statements: a run for `a` and then for `b` cycles is one for `a + b` cycles (`run_add`), the budget that a run
leaves is between -11 and 0 (`budget_run`), what it has used and what it has left add up (`cycles_add_budget_run`), and
a run keeps what neither instructions nor time break (`Lasting.run`).
-/

namespace SnesSound

theorem Timers.period_mem (n : Fin 3) : 0 < period n ∧ period n ≤ 128 := by
  unfold period
  split <;> decide

/-- Only the sum of the cycles matters, not how they are divided. -/
theorem Timers.advance_add (ts : Timers) (a b : Nat) (control : Control) :
    (ts.advance a control).advance b control = ts.advance (a + b) control := by
  apply Vector.ext
  intro i h
  simp only [advance, Vector.getElem_mapFinIdx]
  exact Timer.advance_add (period_mem ⟨i, h⟩).1 _ a b _

namespace Core

/-- The core with another budget. -/
def withBudget (s : Core) (budget : Int) : Core := { s with cpu := { s.cpu with budget } }

/-- No part of an instruction sees the budget. -/
theorem unseen_withBudget (budget : Int) : Unseen (withBudget · budget) where
  registers _ := rfl
  peek _ _ := rfl
  afterRead s address := by
    unfold afterRead
    split <;> rfl
  write s address value := by
    have h : (s.withBudget budget).writeIo address value = (s.writeIo address value).withBudget budget := by
      unfold writeIo
      split <;> rfl
    unfold write
    rw [h]
    rfl
  setRegisters _ _ := rfl
  halt _ _ := rfl

theorem step_withBudget (s : Core) (budget : Int) :
    (s.withBudget budget).step = (s.step.1, s.step.2.withBudget budget) :=
  (unseen_withBudget budget).step (fun _ _ => rfl) s

theorem pass_pass (s : Core) (a b : Nat) : (s.pass a).pass b = s.pass (a + b) := by
  simp only [pass, Cpu.pass, Timers.advance_add, Nat.add_assoc]

/-! ## Spending -/

theorem spend_of_nonpos (s : Core) {budget : Int} (h : budget ≤ 0) : s.spend budget = s.withBudget budget := by
  rw [spend, if_pos h, withBudget]

theorem spend_of_running {s : Core} {budget : Int} (h : 0 < budget) (hr : s.cpu.runState = .running) :
    s.spend budget = s.step.2.spend (budget - s.step.1) := by
  rw [spend, if_neg (Int.not_le.mpr h), if_pos hr]

theorem spend_of_halted {s : Core} {budget : Int} (h : 0 < budget) (hr : s.cpu.runState ≠ .running) :
    s.spend budget = (s.pass budget.toNat).withBudget 0 := by
  rw [spend, if_neg (Int.not_le.mpr h), if_neg hr]
  rfl

/-- The budget that was there before does not matter. -/
theorem spend_withBudget (s : Core) (old budget : Int) : (s.withBudget old).spend budget = s.spend budget := by
  induction s, budget using spend.induct with
  | case1 s budget h => rw [spend_of_nonpos _ h, spend_of_nonpos _ h]; rfl
  | case2 s budget h hr next ih =>
    have hpos := Int.not_le.mp h
    rw [spend_of_running hpos hr, spend_of_running (s := s.withBudget old) hpos hr, step_withBudget]
    exact ih
  | case3 s budget h hr =>
    have hpos := Int.not_le.mp h
    rw [spend_of_halted hpos hr, spend_of_halted (s := s.withBudget old) hpos hr]
    rfl

/-- A budget that is spent leaves nothing, and at most one instruction overdraws it. -/
theorem budget_spend (s : Core) {budget : Int} (h : -11 ≤ budget) :
    -11 ≤ (s.spend budget).cpu.budget ∧ (s.spend budget).cpu.budget ≤ 0 := by
  induction s, budget using spend.induct with
  | case1 s budget hb => rw [spend_of_nonpos _ hb]; exact ⟨h, hb⟩
  | case2 s budget hb hr next ih =>
    have hpos := Int.not_le.mp hb
    have hcost : next.1 ≤ 12 := s.step_le_twelve
    rw [spend_of_running hpos hr]
    exact ih (by omega)
  | case3 s budget hb hr =>
    rw [spend_of_halted (Int.not_le.mp hb) hr]
    exact ⟨(by decide : (-11 : Int) ≤ 0), (by decide : (0 : Int) ≤ 0)⟩

/-- No budget is left, whatever there was before. -/
theorem budget_spend_nonpos (s : Core) (budget : Int) : (s.spend budget).cpu.budget ≤ 0 := by
  by_cases h : -11 ≤ budget
  · exact (s.budget_spend h).2
  · have hb : budget ≤ 0 := by omega
    rw [spend_of_nonpos s hb]
    exact hb

/-- What is used and what is left of a budget add up to it. -/
theorem cycles_add_budget_spend (s : Core) (budget : Int) :
    (s.spend budget).cpu.cycles + (s.spend budget).cpu.budget = s.cpu.cycles + budget := by
  induction s, budget using spend.induct with
  | case1 s budget h => rw [spend_of_nonpos _ h]; rfl
  | case2 s budget h hr next ih =>
    have hc : next.2.cpu.cycles = s.cpu.cycles + next.1 := s.cycles_step
    rw [spend_of_running (Int.not_le.mp h) hr]
    change _ = _ at ih
    rw [ih, hc]
    omega
  | case3 s budget h hr =>
    rw [spend_of_halted (Int.not_le.mp h) hr]
    change ((s.cpu.cycles + budget.toNat : Nat) : Int) + 0 = _
    omega

/-- The cycles that the CPU has used never get less. -/
theorem cycles_le_spend (s : Core) {budget : Int} (h : -11 ≤ budget) : s.cpu.cycles ≤ (s.spend budget).cpu.cycles := by
  by_cases hb : budget ≤ 0
  · rw [spend_of_nonpos _ hb]
    exact Nat.le_refl _
  · have hleft := (s.budget_spend h).2
    have htime := s.cycles_add_budget_spend budget
    omega

/-- What is left of a budget can be spent together with the next one. -/
theorem spend_spend (s : Core) (budget : Int) (more : Nat) :
    (s.spend budget).spend ((s.spend budget).cpu.budget + more) = s.spend (budget + more) := by
  induction s, budget using spend.induct with
  | case1 s budget h =>
    rw [spend_of_nonpos _ h, spend_withBudget]
    rfl
  | case2 s budget h hr next ih =>
    have hpos := Int.not_le.mp h
    have hmore : 0 < budget + more := by omega
    rw [spend_of_running hpos hr, spend_of_running hmore hr,
      show budget + more - s.step.1 = budget - s.step.1 + more by omega]
    exact ih
  | case3 s budget h hr =>
    have hpos := Int.not_le.mp h
    have hmore : 0 < budget + more := by omega
    rw [spend_of_halted hpos hr, spend_of_halted hmore hr, spend_withBudget]
    change (s.pass budget.toNat).spend (0 + more) = _
    by_cases hm : more = 0
    · subst hm
      rw [spend_of_nonpos _ (by decide)]
      simp
    · rw [spend_of_halted (s := s.pass budget.toNat) (by omega) hr, pass_pass,
        show budget.toNat + (0 + (more : Int)).toNat = (budget + more).toNat by omega]

/-! ## Lasting properties -/

/-- A property of cores that neither instructions nor time break. -/
structure Lasting (P : Core → Prop) : Prop extends Stable P where
  pass : ∀ {s : Core} (cycles : Nat), P s → P (s.pass cycles)
  withBudget : ∀ {s : Core} (budget : Int), P s → P (s.withBudget budget)

namespace Lasting

variable {P : Core → Prop} {s : Core}

theorem step (h : Lasting P) (hs : P s) : P s.step.2 := by
  rw [step_snd]
  exact h.pass _ (h.executeNext hs)

theorem spend (h : Lasting P) (hs : P s) (budget : Int) : P (s.spend budget) := by
  induction s, budget using spend.induct with
  | case1 s budget hb =>
    rw [spend_of_nonpos _ hb]
    exact h.withBudget _ hs
  | case2 s budget hb hr next ih =>
    rw [spend_of_running (Int.not_le.mp hb) hr]
    exact ih (h.step hs)
  | case3 s budget hb hr =>
    rw [spend_of_halted (Int.not_le.mp hb) hr]
    exact h.withBudget _ (h.pass _ hs)

/-- What neither instructions nor time break, no run breaks. -/
theorem run (h : Lasting P) (hs : P s) (cycles : Nat) : P (s.run cycles) := h.spend hs _

end Lasting

/-! ## Runs -/

/-- A run spends what was left and what it is given, if both can be held together. -/
theorem run_eq_spend_of_le {s : Core} {cycles : Nat} (hc : (cycles : Int) ≤ maxBudget)
    (h : s.cpu.budget + cycles ≤ maxBudget) : s.run cycles = s.spend (s.cpu.budget + cycles) := by
  rw [run, Int.min_eq_left hc, Int.min_eq_left h]

theorem run_eq_spend {s : Core} (h : s.cpu.budget ≤ 0) {cycles : Nat} (hc : (cycles : Int) ≤ maxBudget) :
    s.run cycles = s.spend (s.cpu.budget + cycles) := run_eq_spend_of_le hc (by omega)

/-- A run leaves a budget between -11 and 0 if it starts with one, however long it is. -/
theorem budget_run {s : Core} (h : -11 ≤ s.cpu.budget) (cycles : Nat) :
    -11 ≤ (s.run cycles).cpu.budget ∧ (s.run cycles).cpu.budget ≤ 0 := by
  have hmax : maxBudget = 0x7FFFFFFFFFFFFFFF := rfl
  exact s.budget_spend (by omega)

/-- What the CPU has used and what it has left grow by the time that it is given. -/
theorem cycles_add_budget_run {s : Core} (h : s.cpu.budget ≤ 0) {cycles : Nat} (hc : (cycles : Int) ≤ maxBudget) :
    (s.run cycles).cpu.cycles + (s.run cycles).cpu.budget = s.cpu.cycles + s.cpu.budget + cycles := by
  rw [run_eq_spend h hc, cycles_add_budget_spend]
  omega

/-- It does not matter how the time is divided that the CPU is given. -/
theorem run_add {s : Core} {a b : Nat} (hab : ((a + b : Nat) : Int) ≤ maxBudget)
    (h : s.cpu.budget + (a + b : Nat) ≤ maxBudget) : (s.run a).run b = s.run (a + b) := by
  have hfirst : s.run a = s.spend (s.cpu.budget + a) := run_eq_spend_of_le (by omega) (by omega)
  have hleft := s.budget_spend_nonpos (s.cpu.budget + a)
  rw [hfirst, run_eq_spend hleft (by omega), run_eq_spend_of_le hab h, spend_spend]
  congr 1
  omega

end Core

end SnesSound
