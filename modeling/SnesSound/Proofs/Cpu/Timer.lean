import Mathlib.Data.Nat.ModEq
import SnesSound.Proofs.Cpu.Budget
import SnesSound.Proofs.Cpu.Bus

/-!
# Timers and the time that passes

A timer that counts is a number in three digits: its output, its position and its prescaler. The two lower digits run up
to its divisor and to its period. A cycle adds one to this number, a read of the output takes away what it returns, and
all that is ever lost are sixteen steps when the output wraps around. So the digits can be told from the time that has
passed, however it was divided and whatever else happened on the bus in between.

Main statements: a counting timer keeps its account (`Counts.happenAll`), so its digits are what the total time makes of
them (`Counts.keepsTime`); a timer that is not enabled keeps everything but its prescaler (`idle_happenAll`); and
neither instructions, nor time, nor anything else on the bus takes a timer out of its range (`lasting_timers`,
`inRange_happenAll`).
-/

namespace SnesSound

/-! ## Single timers -/

namespace Timer

theorem target_le (t : Timer) : t.target ≤ 256 := by
  have hlt := t.divisor.toNat_lt
  unfold target
  split <;> omega

theorem target_congr {t u : Timer} (h : u.divisor = t.divisor) : u.target = t.target := by
  rw [target, target, h]

theorem divisor_count (t : Timer) : t.count.divisor = t.divisor := by
  unfold count
  split <;> rfl

theorem divisor_repeat_count (n : Nat) (t : Timer) : (Nat.repeat count n t).divisor = t.divisor := by
  induction n with
  | zero => rfl
  | succ n ih => exact (divisor_count _).trans ih

theorem divisor_advance (t : Timer) (period cycles : Nat) (enabled : Bool) :
    (t.advance period cycles enabled).divisor = t.divisor := by
  unfold advance
  dsimp only
  split
  · exact divisor_repeat_count _ _
  · rfl

/-- The number that a timer shows, in periods: its output and its position as two digits. -/
def periods (t : Timer) : Nat := t.output.toNat * t.target + t.position

/-- Whether counting one period makes the output fall back. -/
def Wraps (t : Timer) : Prop := t.count.output < t.output

/-- A timer that is below its divisor stays there. -/
theorem position_count_lt {t : Timer} (h : t.position < t.target) : t.count.position < t.target := by
  unfold count
  split
  · exact Nat.zero_lt_of_lt h
  · exact Nat.lt_of_not_le ‹_›

/-- A step of the output, with the steps that are lost when it wraps around. -/
theorem toNat_step (output : UInt8) :
    ((output + 1) % 16).toNat + 16 * ((output.toNat + 1) / 16) = output.toNat + 1 := by
  have hlt := output.toNat_lt
  have hstep : ((output + 1) % 16).toNat = (output.toNat + 1) % 256 % 16 := by
    rw [UInt8.toNat_mod, UInt8.toNat_add]
    rfl
  omega

/-- Counting a period adds one to what a timer shows, unless its output wraps around. -/
theorem periods_count {t : Timer} (h : t.position < t.target) :
    ∃ lost, (lost = 0 ↔ ¬t.Wraps) ∧ t.count.periods + 16 * lost * t.target = t.periods + 1 := by
  rw [periods, periods, target_congr t.divisor_count]
  by_cases hle : t.target ≤ t.position + 1
  · have hcount : t.count = { t with position := 0, output := (t.output + 1) % 16 } := if_pos hle
    have hstep := toNat_step t.output
    refine ⟨(t.output.toNat + 1) / 16, ?_, ?_⟩
    · rw [Wraps, hcount, UInt8.lt_iff_toNat_lt]
      dsimp only
      omega
    · rw [hcount, Nat.add_zero, ← Nat.add_mul, hstep, Nat.succ_mul]
      omega
  · have hcount : t.count = { t with position := t.position + 1 } := if_neg hle
    refine ⟨0, ?_, ?_⟩
    · rw [Wraps, hcount]
      exact iff_of_true rfl (UInt8.lt_irrefl _)
    · rw [hcount]
      dsimp only
      omega

/-- The same for any number of periods, as long as the output wraps around in none of them. -/
theorem periods_repeat_count {t : Timer} (h : t.position < t.target) (n : Nat) :
    (Nat.repeat count n t).position < t.target ∧
      ∃ lost, (lost = 0 ↔ ∀ k < n, ¬(Nat.repeat count k t).Wraps) ∧
        (Nat.repeat count n t).periods + 16 * lost * t.target = t.periods + n := by
  induction n with
  | zero => exact ⟨h, 0, iff_of_true rfl fun k hk => absurd hk (Nat.not_lt_zero k), by simp [Nat.repeat]⟩
  | succ n ih =>
    obtain ⟨hlt, lost, hzero, hsum⟩ := ih
    have htarget := target_congr (divisor_repeat_count n t)
    rw [← htarget] at hlt
    obtain ⟨more, hmore, hcount⟩ := periods_count hlt
    rw [htarget] at hcount
    refine ⟨htarget ▸ position_count_lt hlt, lost + more, ?_, ?_⟩
    · rw [Nat.add_eq_zero_iff, hzero, hmore, Nat.forall_lt_succ_right]
    · change (Nat.repeat count n t).count.periods + 16 * (lost + more) * t.target = _
      rw [Nat.mul_add, Nat.add_mul]
      omega

/-- The number that a timer shows, in cycles. -/
def elapsed (t : Timer) (period : Nat) : Nat := t.periods * period + t.prescaler

/-- Whether the output wraps around while cycles pass. -/
def WrapsDuring (t : Timer) (period cycles : Nat) : Prop :=
  ∃ k < (t.prescaler + cycles) / period, (Nat.repeat count k t).Wraps

theorem advance_enabled (t : Timer) (period cycles : Nat) :
    t.advance period cycles true =
      { Nat.repeat count ((t.prescaler + cycles) / period) t with prescaler := (t.prescaler + cycles) % period } :=
  repeat_count_setPrescaler ..

/-- Whether a timer counts towards a divisor `d`, with both of its digits below their bounds. -/
structure Below (t : Timer) (period d : Nat) : Prop where
  target : t.target = d
  position : t.position < d
  prescaler : t.prescaler < period

/-- **A cycle that passes adds one to what a timer shows.** -/
theorem Below.advance {t : Timer} {period d : Nat} (h : t.Below period d) (cycles : Nat) :
    (t.advance period cycles true).Below period d ∧ ∃ lost, (lost = 0 ↔ ¬t.WrapsDuring period cycles) ∧
      (t.advance period cycles true).elapsed period + 16 * lost * (d * period) = t.elapsed period + cycles := by
  obtain ⟨rfl, hposition, hprescaler⟩ := h
  obtain ⟨hlt, lost, hzero, hsum⟩ := periods_repeat_count hposition ((t.prescaler + cycles) / period)
  have hdiv := Nat.div_add_mod' (t.prescaler + cycles) period
  have htarget := target_congr (t.divisor_advance period cycles true)
  rw [advance_enabled] at htarget ⊢
  refine ⟨⟨htarget, hlt, Nat.mod_lt _ (Nat.zero_lt_of_lt hprescaler)⟩, lost, by simp [hzero, WrapsDuring], ?_⟩
  generalize Nat.repeat count ((t.prescaler + cycles) / period) t = u at hsum ⊢
  change u.periods * period + (t.prescaler + cycles) % period + 16 * lost * (t.target * period) = _
  calc u.periods * period + (t.prescaler + cycles) % period + 16 * lost * (t.target * period)
      = (u.periods + 16 * lost * t.target) * period + (t.prescaler + cycles) % period := by
        rw [Nat.add_mul, Nat.mul_assoc (16 * lost)]
        omega
    _ = t.periods * period + (t.prescaler + cycles) := by
        rw [hsum, Nat.add_mul]
        omega
    _ = t.elapsed period + cycles := (Nat.add_assoc ..).symm

theorem Below.clearOutput {t : Timer} {period d : Nat} (h : t.Below period d) : t.clearOutput.Below period d :=
  ⟨h.target, h.position, h.prescaler⟩

/-- A read of the output takes its steps away. -/
theorem elapsed_clearOutput (t : Timer) (period : Nat) :
    t.clearOutput.elapsed period + t.output.toNat * (t.target * period) = t.elapsed period := by
  have hcleared : t.clearOutput.periods = t.position := by simp [periods, clearOutput]
  rw [elapsed, elapsed, hcleared, periods, Nat.add_mul, Nat.mul_assoc]
  change t.position * period + t.prescaler + _ = _
  omega

end Timer

namespace BusEvent

open IoRegister

/-! ## Timers on the bus -/

/-- The cycles that pass. -/
def cycles : BusEvent → Nat
  | .pass cycles => cycles
  | _ => 0

/-- Whether an event leaves the divisor of a timer as it is, and the timer enabled or not enabled. -/
def Leaves (n : Fin 3) (enabled : Bool) : BusEvent → Prop
  | .write address value =>
    address ≠ (timerDivisor n).address ∧
      (address = control.address → (⟨value⟩ : Control).timerEnabled n = enabled)
  | _ => True

end BusEvent

namespace Core

open IoRegister

variable {s : Core} {n : Fin 3}

/-- A timer of a core. -/
def timer (s : Core) (n : Fin 3) : Timer := s.cpu.timers.get n

/-- What the CPU reads of the output of a timer in an event. -/
def reading (s : Core) (n : Fin 3) : BusEvent → Nat
  | .read address => if address = (timerOutput n).address then (s.peek address).toNat else 0
  | _ => 0

/-- Whether the output of a timer wraps around in an event. -/
def WrapsIn (s : Core) (n : Fin 3) : BusEvent → Prop
  | .pass cycles => (s.timer n).WrapsDuring (Timers.period n) cycles
  | _ => False

/-- What an event does to a timer that it leaves enabled, or not enabled: nothing, unless the output is read or time
passes. -/
theorem timer_happen_cases {enabled : Bool} (hs : s.cpu.control.timerEnabled n = enabled) {e : BusEvent}
    (he : e.Leaves n enabled) :
    (s.happen e).cpu.control.timerEnabled n = enabled ∧
      (((s.happen e).timer n = s.timer n ∧ s.reading n e = 0 ∧ e.cycles = 0 ∧ ¬s.WrapsIn n e) ∨
        (e = .read (timerOutput n).address ∧ (s.happen e).timer n = (s.timer n).clearOutput) ∨
        ∃ cycles, e = .pass cycles ∧
          (s.happen e).timer n = (s.timer n).advance (Timers.period n) cycles enabled) := by
  have hevent := s.timer_happen n e
  have hcontrol := congrArg Prod.fst hevent
  have htimer := congrArg Prod.snd hevent
  simp only at hcontrol htimer
  rw [hcontrol, timer, htimer]
  cases e with
  | read address =>
    refine ⟨hs, ?_⟩
    by_cases h : address = (timerOutput n).address
    · subst h
      exact .inr (.inl ⟨rfl, if_pos rfl⟩)
    · exact .inl ⟨if_neg h, if_neg h, rfl, id⟩
  | write address value =>
    obtain ⟨hdivisor, hwritten⟩ := he
    simp only [BusEvent.onTimer]
    by_cases h : address = control.address
    · -- a timer restarts only when it was not enabled before
      have hvalue := hwritten h
      rw [if_pos h]
      refine ⟨hvalue, .inl ⟨if_neg ?_, rfl, rfl, id⟩⟩
      rw [hs, hvalue]
      cases enabled <;> decide
    · rw [if_neg h, if_neg hdivisor]
      exact ⟨hs, .inl ⟨rfl, rfl, rfl, id⟩⟩
  | hostWrite => exact ⟨hs, .inl ⟨rfl, rfl, rfl, id⟩⟩
  | pass cycles =>
    refine ⟨hs, .inr (.inr ⟨cycles, rfl, ?_⟩)⟩
    simp only [BusEvent.onTimer, hs]
    rfl

/-! ## What a counting timer makes of the time -/

/-- Whether a timer is enabled and counts towards its divisor `d`. -/
structure Counts (s : Core) (n : Fin 3) (d : Nat) : Prop where
  enabled : s.cpu.control.timerEnabled n = true
  below : (s.timer n).Below (Timers.period n) d

/-- The sum of all that the CPU reads of the output of a timer. -/
def readings (n : Fin 3) : Core → List BusEvent → Nat
  | _, [] => 0
  | s, e :: events => s.reading n e + readings n (s.happen e) events

/-- Whether the output of a timer wraps around in one of the events. -/
def Wraps (n : Fin 3) : Core → List BusEvent → Prop
  | _, [] => False
  | s, e :: events => s.WrapsIn n e ∨ Wraps n (s.happen e) events

/-- **An event keeps the account of a counting timer**: a cycle adds one to what it shows, and a read takes away what
it returns. -/
theorem Counts.happen {d : Nat} (h : s.Counts n d) {e : BusEvent} (he : e.Leaves n true) :
    (s.happen e).Counts n d ∧ ∃ lost, (lost = 0 ↔ ¬s.WrapsIn n e) ∧
      ((s.happen e).timer n).elapsed (Timers.period n) + (s.reading n e + 16 * lost) * (d * Timers.period n) =
        (s.timer n).elapsed (Timers.period n) + e.cycles := by
  obtain ⟨hs, htimer⟩ := timer_happen_cases h.enabled he
  rcases htimer with ⟨hsame, hreading, hcycles, hwraps⟩ | ⟨rfl, hcleared⟩ | ⟨cycles, rfl, hpassed⟩
  · refine ⟨⟨hs, hsame ▸ h.below⟩, 0, iff_of_true rfl hwraps, ?_⟩
    rw [hsame, hreading, hcycles, Nat.zero_mul]
  · have hreading : s.reading n (.read (timerOutput n).address) = (s.timer n).output.toNat := by
      rw [reading, if_pos rfl, peek_register]
      rfl
    refine ⟨⟨hs, hcleared ▸ h.below.clearOutput⟩, 0, iff_of_true rfl id, ?_⟩
    rw [hcleared, hreading, ← h.below.target]
    exact (s.timer n).elapsed_clearOutput _
  · obtain ⟨hbelow, lost, hzero, hsum⟩ := h.below.advance cycles
    have hreading : s.reading n (.pass cycles) = 0 := rfl
    refine ⟨⟨hs, hpassed ▸ hbelow⟩, lost, hzero, ?_⟩
    rw [hpassed, hreading, Nat.zero_add]
    exact hsum

/-- **A counting timer keeps its account**: what it shows in the end and what was read of it in between are what it
showed at first and the cycles that have passed, apart from sixteen steps whenever its output wrapped around. -/
theorem Counts.happenAll {d : Nat} (h : s.Counts n d) {events : List BusEvent} (he : ∀ e ∈ events, e.Leaves n true) :
    (s.happenAll events).Counts n d ∧ ∃ lost, (lost = 0 ↔ ¬Wraps n s events) ∧
      ((s.happenAll events).timer n).elapsed (Timers.period n) +
          (readings n s events + 16 * lost) * (d * Timers.period n) =
        (s.timer n).elapsed (Timers.period n) + (events.map BusEvent.cycles).sum := by
  induction events generalizing s with
  | nil => exact ⟨h, 0, iff_of_true rfl id, by simp [happenAll, readings]⟩
  | cons e events ih =>
    obtain ⟨hnext, first, hfirst, hsum⟩ := h.happen (he e List.mem_cons_self)
    obtain ⟨hend, rest, hrest, hsums⟩ := ih hnext fun e' he' => he e' (List.mem_cons_of_mem _ he')
    refine ⟨hend, first + rest, ?_, ?_⟩
    · rw [Nat.add_eq_zero_iff, hfirst, hrest, Wraps, not_or]
    · rw [List.map_cons, List.sum_cons, ← Nat.add_assoc, ← hsum, Nat.add_right_comm, ← hsums, readings]
      change _ = ((s.happenAll (e :: events)).timer n).elapsed _ + _ + _
      simp only [Nat.add_mul, Nat.mul_add]
      omega

/-- What a history makes of a counting timer: its digits depend on the sum of the cycles that have passed and on nothing
else, where all that was read of its output counts as well as what is left of it. -/
structure KeepsTime (s : Core) (n : Fin 3) (events : List BusEvent) : Prop where
  prescaler : ((s.happenAll events).timer n).prescaler =
    ((s.timer n).prescaler + (events.map BusEvent.cycles).sum) % Timers.period n
  position : ((s.happenAll events).timer n).position =
    ((s.timer n).position +
      ((s.timer n).prescaler + (events.map BusEvent.cycles).sum) / Timers.period n) % (s.timer n).target
  total : readings n s events + ((s.happenAll events).timer n).output.toNat ≡
    (s.timer n).output.toNat + ((s.timer n).position +
      ((s.timer n).prescaler + (events.map BusEvent.cycles).sum) / Timers.period n) / (s.timer n).target [MOD 16]
  /-- Nothing is lost if and only if the output never wraps around. -/
  exactly : readings n s events + ((s.happenAll events).timer n).output.toNat =
    (s.timer n).output.toNat + ((s.timer n).position +
      ((s.timer n).prescaler + (events.map BusEvent.cycles).sum) / Timers.period n) / (s.timer n).target ↔
    ¬Wraps n s events

/-- The digits of a number to which cycles are added. -/
theorem digits_add {P d output position prescaler output' position' prescaler' cycles : Nat} (hp : prescaler' < P)
    (hq : position' < d)
    (h : (output' * d + position') * P + prescaler' = (output * d + position) * P + prescaler + cycles) :
    prescaler' = (prescaler + cycles) % P ∧ position' = (position + (prescaler + cycles) / P) % d ∧
      output' = output + (position + (prescaler + cycles) / P) / d := by
  have hP : 0 < P := Nat.zero_lt_of_lt hp
  have hd : 0 < d := Nat.zero_lt_of_lt hq
  have hlow : prescaler' + P * (output' * d + position') = (prescaler + cycles) + P * (output * d + position) := by
    rw [Nat.mul_comm P, Nat.mul_comm P]
    omega
  obtain ⟨hdiv, hmod⟩ := (Nat.div_mod_unique hP).mpr ⟨hlow, hp⟩
  rw [Nat.add_mul_div_left _ _ hP] at hdiv
  rw [Nat.add_mul_mod_self_left] at hmod
  have hhigh : position' + d * output' = (position + (prescaler + cycles) / P) + d * output := by
    rw [Nat.mul_comm d, Nat.mul_comm d]
    omega
  obtain ⟨hdiv', hmod'⟩ := (Nat.div_mod_unique hd).mpr ⟨hhigh, hq⟩
  rw [Nat.add_mul_div_left _ _ hd] at hdiv'
  rw [Nat.add_mul_mod_self_left] at hmod'
  exact ⟨hmod.symm, hmod'.symm, by omega⟩

/-- **A counting timer keeps the time**, however it is divided and however often its output is read. -/
theorem Counts.keepsTime (h : s.Counts n (s.timer n).target) {events : List BusEvent}
    (he : ∀ e ∈ events, e.Leaves n true) : s.KeepsTime n events := by
  obtain ⟨hend, lost, hlost, hsum⟩ := h.happenAll he
  have hdigits : ((readings n s events + 16 * lost + ((s.happenAll events).timer n).output.toNat) *
        (s.timer n).target + ((s.happenAll events).timer n).position) * Timers.period n +
        ((s.happenAll events).timer n).prescaler =
      ((s.timer n).output.toNat * (s.timer n).target + (s.timer n).position) * Timers.period n +
        (s.timer n).prescaler + (events.map BusEvent.cycles).sum := by
    rw [Timer.elapsed, Timer.elapsed, Timer.periods, Timer.periods, hend.below.target] at hsum
    rw [← hsum, ← Nat.mul_assoc]
    simp only [Nat.add_mul]
    omega
  obtain ⟨hprescaler, hposition, houtput⟩ := digits_add hend.below.prescaler hend.below.position hdigits
  refine ⟨hprescaler, hposition, ?_, ?_⟩
  · rw [← houtput, Nat.add_right_comm]
    exact Nat.left_modEq_add_iff.mpr (Nat.dvd_mul_right 16 lost)
  · rw [← houtput, ← hlost]
    omega

/-! ## Timers that are not enabled -/

/-- **Nothing but its prescaler moves of a timer that is not enabled.** -/
theorem idle_happenAll (hs : s.cpu.control.timerEnabled n = false) (hp : (s.timer n).prescaler < Timers.period n)
    {events : List BusEvent}
    (he : ∀ e ∈ events, e.Leaves n false ∧ e ≠ .read (timerOutput n).address) :
    (s.happenAll events).timer n =
      { s.timer n with
        prescaler := ((s.timer n).prescaler + (events.map BusEvent.cycles).sum) % Timers.period n } := by
  induction events generalizing s with
  | nil => simp [happenAll, Nat.mod_eq_of_lt hp]
  | cons e events ih =>
    obtain ⟨hleaves, hread⟩ := he e List.mem_cons_self
    obtain ⟨hnext, htimer⟩ := timer_happen_cases hs hleaves
    have hfirst : (s.happen e).timer n =
        { s.timer n with prescaler := ((s.timer n).prescaler + e.cycles) % Timers.period n } := by
      rcases htimer with ⟨hsame, -, hcycles, -⟩ | ⟨rfl, -⟩ | ⟨cycles, rfl, hpassed⟩
      · rw [hsame, hcycles, Nat.add_zero, Nat.mod_eq_of_lt hp]
      · exact absurd rfl hread
      · exact hpassed
    have hrest := ih hnext (by rw [hfirst]; exact Nat.mod_lt _ (Timers.period_mem n).1)
      fun e' he' => he e' (List.mem_cons_of_mem _ he')
    change ((s.happen e).happenAll events).timer n = _
    rw [hrest, hfirst, List.map_cons, List.sum_cons]
    simp only [Nat.mod_add_mod, Nat.add_assoc]

end Core

/-! ## Ranges -/

/-- Whether a timer is in a state that it can get to. -/
structure Timer.InRange (t : Timer) (period : Nat) : Prop where
  position : t.position < 256
  output : t.output.toNat < 16
  prescaler : t.prescaler < period

/-- Whether all timers are. -/
def Timers.InRange (ts : Timers) : Prop := ∀ n : Fin 3, (ts.get n).InRange (period n)

namespace Timer

variable {t : Timer} {period : Nat}

theorem InRange.count (h : t.InRange period) : t.count.InRange period := by
  have htarget := t.target_le
  unfold Timer.count
  split
  · refine ⟨by simp, ?_, h.prescaler⟩
    rw [UInt8.toNat_mod]
    exact Nat.mod_lt _ (by decide)
  · exact ⟨by simp only; omega, h.output, h.prescaler⟩

theorem InRange.repeat_count (h : t.InRange period) (n : Nat) : (Nat.repeat Timer.count n t).InRange period := by
  induction n with
  | zero => exact h
  | succ n ih => exact ih.count

theorem InRange.advance (h : t.InRange period) (cycles : Nat) (enabled : Bool) :
    (t.advance period cycles enabled).InRange period := by
  have hpos : 0 < period := Nat.zero_lt_of_lt h.prescaler
  have hnew : ({ t with prescaler := (t.prescaler + cycles) % period } : Timer).InRange period :=
    ⟨h.position, h.output, Nat.mod_lt _ hpos⟩
  unfold Timer.advance
  dsimp only
  split
  · exact hnew.repeat_count _
  · exact hnew

/-- A timer that is restored has an output of four bits. -/
theorem inRange_restored (divisor output : UInt8) (hp : 0 < period) :
    ({ divisor, output := output % 16 } : Timer).InRange period where
  position := (by decide : 0 < 256)
  output := by
    rw [UInt8.toNat_mod]
    exact Nat.mod_lt _ (by decide)
  prescaler := hp

end Timer

namespace Timers

variable {ts : Timers}

theorem InRange.advance (h : ts.InRange) (cycles : Nat) (control : Control) : (ts.advance cycles control).InRange := by
  intro n
  rw [Timers.advance, get_eq_getElem, Fin.getElem_fin, Vector.getElem_mapFinIdx]
  exact (h n).advance cycles _

theorem InRange.set (h : ts.InRange) (k : Fin 3) {t : Timer} (ht : t.InRange (period k)) :
    InRange (ts.set k t k.isLt) := by
  intro n
  rw [Core.get_set_timer]
  split
  next hk => exact hk ▸ ht
  next => exact h n

theorem inRange_initial : initial.InRange := by
  intro n
  rw [initial, get_eq_getElem, Fin.getElem_fin, Vector.getElem_replicate]
  exact ⟨by decide, by decide, (period_mem n).1⟩

end Timers

theorem Cpu.inRange_restore (registers : CpuRegisters) (m : Memory) : (restore registers m).timers.InRange := by
  intro n
  have hp := (Timers.period_mem n).1
  match n with
  | 0 | 1 | 2 => exact Timer.inRange_restored _ _ hp

namespace Core

/-- Neither instructions nor time take a timer out of its range, whatever is written to its divisor. -/
theorem lasting_timers : Lasting fun s => s.cpu.timers.InRange where
  afterRead {s} address hs := by
    unfold afterRead
    split
    next n _ => exact hs.set n ⟨(hs n).position, (by decide : (0 : UInt8).toNat < 16), (hs n).prescaler⟩
    next => exact hs
  write {s} address value hs := by
    change (s.writeIo address value).cpu.timers.InRange
    unfold writeIo
    split
    case h_2 =>
      intro n
      simp only [Cpu.writeControl, get_eq_getElem, Fin.getElem_fin, Vector.getElem_mapFinIdx]
      split
      · exact ⟨(by decide : 0 < 256), (by decide : (0 : UInt8).toNat < 16), (hs n).prescaler⟩
      · exact hs n
    case h_6 n _ => exact hs.set n ⟨(hs n).position, (hs n).output, (hs n).prescaler⟩
    all_goals exact hs
  setRegisters _ hs := hs
  halt _ hs := hs
  pass cycles hs := hs.advance cycles _
  withBudget _ hs := hs

/-- No event on the bus takes a timer out of its range. -/
theorem inRange_happenAll {s : Core} (hs : s.cpu.timers.InRange) (events : List BusEvent) :
    (s.happenAll events).cpu.timers.InRange := by
  induction events generalizing s with
  | nil => exact hs
  | cons e events ih =>
    apply ih
    cases e with
    | read address => exact lasting_timers.afterRead address hs
    | write address value => exact lasting_timers.write address value hs
    | hostWrite => exact hs
    | pass cycles => exact lasting_timers.pass cycles hs

end Core

end SnesSound
