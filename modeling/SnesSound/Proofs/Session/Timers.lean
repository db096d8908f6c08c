import SnesSound.Proofs.Cpu.Timer
import SnesSound.Proofs.Session.Elapse

/-!
# Timers of sessions

Nothing that a host can do takes a timer out of its range, since neither the CPU nor the time that passes does and the
sound unit does not touch the CPU. Together with what a history on the bus makes of a timer this says all about how
timers keep the time.

Main statement: timers lose and invent no ticks (`timers_keep_time`).
-/

namespace SnesSound

/-- A run of the CPU keeps what neither instructions nor time break. -/
theorem Core.Lasting.runCpu {P : Core → Prop} (h : Lasting P) {m : Machine} (hm : P m.toCore) (cycles : Nat) :
    P (m.runCpu cycles).toCore := by
  unfold Machine.runCpu
  split
  · exact hm
  · exact h.run hm cycles

namespace Session

/-- Cycles take no timer out of its range. -/
theorem OnTime.timers_elapse {s : Session} (h : s.OnTime) (hs : s.machine.cpu.timers.InRange) (n : Nat) :
    (s.elapse n).1.machine.cpu.timers.InRange := by
  refine h.elapse_induction (P := fun _ t _ => t.machine.cpu.timers.InRange) hs ?_ ?_ n
  · intro n t frames _ _ ht
    exact Core.lasting_timers.runCpu (m := (t.machine.tick t.channelMask).2) ht 1
  · intro n t frames _ _ ht
    exact Core.lasting_timers.runCpu ht 1

/-- **The timers of every session that a host can get to are in their range.** -/
theorem Reachable.timers {s : Session} (h : Reachable s) : s.machine.cpu.timers.InRange := by
  have hboth : s.OnTime ∧ s.machine.cpu.timers.InRange := by
    refine h.induction (P := fun s => s.OnTime ∧ s.machine.cpu.timers.InRange) ?_ ?_ ?_ ?_ ?_
    · exact ⟨onTime_new, Timers.inRange_initial⟩
    · intro s snapshot
      exact ⟨onTime_install s snapshot, Cpu.inRange_restore _ _⟩
    · rintro s maxCycles maxBytes ⟨htime, hs⟩
      refine ⟨htime.run maxCycles maxBytes, ?_⟩
      rw [run_eq_elapse htime]
      exact htime.timers_elapse hs _
    · rintro s p value ⟨htime, hs⟩
      exact ⟨⟨htime.owed, htime.machine⟩, hs⟩
    · rintro s mask ⟨htime, hs⟩
      exact ⟨⟨htime.owed, htime.machine⟩, hs⟩
  exact hboth.2

end Session

/-- **Timers lose and invent no ticks.** While a timer is enabled and counts towards its divisor, any history on the bus
makes of it what the sum of the cycles in it says, and therefore the same as any other history with the same sum. While
it is not enabled, only its prescaler moves. In every session that a host can get to, its output, its position and its
prescaler are in their ranges, and they stay there in any history, whenever the divisor is written to. -/
theorem timers_keep_time :
    (∀ (s : Core) (n : Fin 3), s.cpu.control.timerEnabled n = true → (s.timer n).prescaler < Timers.period n →
      (s.timer n).position < (s.timer n).target →
        (∀ events : List BusEvent, (∀ e ∈ events, e.Leaves n true) → s.KeepsTime n events) ∧
        ∀ xs ys : List BusEvent, (∀ e ∈ xs, e.Leaves n true) → (∀ e ∈ ys, e.Leaves n true) →
          (xs.map BusEvent.cycles).sum = (ys.map BusEvent.cycles).sum →
            ((s.happenAll xs).timer n).prescaler = ((s.happenAll ys).timer n).prescaler ∧
            ((s.happenAll xs).timer n).position = ((s.happenAll ys).timer n).position ∧
            Core.readings n s xs + ((s.happenAll xs).timer n).output.toNat ≡
              Core.readings n s ys + ((s.happenAll ys).timer n).output.toNat [MOD 16]) ∧
    (∀ (s : Core) (n : Fin 3), s.cpu.control.timerEnabled n = false → (s.timer n).prescaler < Timers.period n →
      ∀ events : List BusEvent,
        (∀ e ∈ events, e.Leaves n false ∧ e ≠ .read (IoRegister.timerOutput n).address) →
          (s.happenAll events).timer n =
            { s.timer n with
              prescaler := ((s.timer n).prescaler + (events.map BusEvent.cycles).sum) % Timers.period n }) ∧
    (∀ s : Session, Session.Reachable s → ∀ (events : List BusEvent) (n : Fin 3),
      ((s.machine.toCore.happenAll events).timer n).output.toNat ≤ 15 ∧
      ((s.machine.toCore.happenAll events).timer n).position ≤ 255 ∧
      ((s.machine.toCore.happenAll events).timer n).prescaler < Timers.period n) := by
  refine ⟨?counting, ?idle, ?reachable⟩
  case counting =>
    intro s n henabled hprescaler hposition
    have hkeeps (events : List BusEvent) (he : ∀ e ∈ events, e.Leaves n true) : s.KeepsTime n events :=
      Core.Counts.keepsTime ⟨henabled, rfl, hposition, hprescaler⟩ he
    refine ⟨hkeeps, fun xs ys hxs hys hsum => ?_⟩
    have hx := hkeeps xs hxs
    have hy := hkeeps ys hys
    refine ⟨?_, ?_, ?_⟩
    · rw [hx.prescaler, hy.prescaler, hsum]
    · rw [hx.position, hy.position, hsum]
    · have htotal := hx.total
      rw [hsum] at htotal
      exact htotal.trans hy.total.symm
  case idle =>
    intro s n henabled hprescaler events he
    exact Core.idle_happenAll henabled hprescaler he
  case reachable =>
    intro s hs events n
    obtain ⟨hposition, houtput, hprescaler⟩ := Core.inRange_happenAll hs.timers events n
    exact ⟨Nat.le_of_lt_succ houtput, Nat.le_of_lt_succ hposition, hprescaler⟩

/-- A core whose first timer counts to 2 and is about to get there. -/
def ticking : Core := { cpu := { control := ⟨1⟩, timers := #v[⟨2, 0, 1, 100⟩, {}, {}] } }

/-- Time that passes in two parts, with a read of the first timer's output in between and a write to the divisor of the
third one. -/
def twoParts : List BusEvent := [.pass 50, .read 0xFD, .write 0xFC 7, .pass 200]

/-- The first timer counts in both parts and the second one in neither; a new session has no timer out of its range. -/
theorem timers_keep_time_two_parts :
    ((ticking.cpu.control.timerEnabled 0 = true ∧ (ticking.timer 0).prescaler < Timers.period 0 ∧
        (ticking.timer 0).position < (ticking.timer 0).target ∧ ∀ e ∈ twoParts, e.Leaves 0 true) ∧
      ticking.KeepsTime 0 twoParts ∧ ((ticking.happenAll twoParts).timer 0).prescaler = 94 ∧
      ((ticking.happenAll twoParts).timer 0).position = 1) ∧
    (ticking.happenAll twoParts).timer 1 = { prescaler := 122 } ∧
    ((({} : Session).machine.toCore.happenAll [.write 0xFA 3]).timer 0).position ≤ 255 := by
  obtain ⟨hcounting, hidle, hreachable⟩ := timers_keep_time
  have hleaves : ∀ e ∈ twoParts, e.Leaves 0 true := by simp [twoParts, BusEvent.Leaves, IoRegister.address]
  have hkeeps := (hcounting ticking 0 (by decide) (by decide) (by decide)).1 twoParts hleaves
  refine ⟨⟨⟨by decide, by decide, by decide, hleaves⟩, hkeeps, ?_, ?_⟩, ?_, ?_⟩
  · rw [hkeeps.prescaler]
    decide
  · rw [hkeeps.position]
    decide
  · rw [hidle ticking 1 (by decide) (by decide) twoParts (by simp [twoParts, BusEvent.Leaves, IoRegister.address])]
    decide
  · exact (hreachable {} .new [.write 0xFA 3] 0).2.1

end SnesSound
