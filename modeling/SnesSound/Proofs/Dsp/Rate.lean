import Mathlib.Algebra.BigOperators.Intervals
import Mathlib.Data.Nat.Count
import SnesSound.Dsp.Registers
import SnesSound.Proofs.Dsp.Envelope

/-!
# Rate counters lose no time

A counter that has run out is loaded anew, whatever was missing. Since every amount that a rate takes is a part of what
the counter is loaded with, nothing is missing at a constant rate, and the steps come as evenly as whole samples allow.
When the rate changes in between, what has been taken so far stays taken.

Main statement: `counters_lose_no_time`, about envelopes in any calls, about attacks that nothing disturbs, and about
the noise generator.
-/

namespace SnesSound

open Finset

namespace Rate

theorem tick_due_iff {counter taken : Int} : (tick counter taken).2 = true ↔ counter ≤ taken := by
  unfold tick
  split
  next hle => simpa using Int.le_of_sub_nonpos hle
  next hlt => simpa using hlt

theorem tick_of_due {counter taken : Int} (h : counter ≤ taken) : tick counter taken = (reload, true) :=
  if_pos (Int.sub_nonpos_of_le h)

theorem tick_of_not_due {counter taken : Int} (h : taken < counter) : tick counter taken = (counter - taken, false) :=
  if_neg (Int.not_le.mpr (Int.sub_pos_of_lt h))

/-! ## Constant rates -/

/-- Only rate 0 takes nothing. -/
theorem amount_pos {rate : Nat} (h : rate % 32 ≠ 0) : 0 < amount rate := by
  have hall : ∀ i : Fin 32, i.val ≠ 0 → 0 < amounts[i] := by decide +kernel
  exact hall ⟨rate % 32, Nat.mod_lt _ (by decide)⟩ h

/-- Only the lowest five bits of a rate count. -/
theorem amount_congr {rate rate' : Nat} (h : rate % 32 = rate' % 32) : amount rate = amount rate' := by
  simp only [amount, h]

theorem amount_eq_zero_or_dvd (rate : Nat) : amount rate = 0 ∨ amount rate ∣ reload := by
  have hall : ∀ i : Fin 32, amounts[i] = 0 ∨ amounts[i] ∣ reload := by decide +kernel
  exact hall ⟨rate % 32, Nat.mod_lt _ (by decide)⟩

/-- What a fresh counter has left after some samples at a constant rate. -/
def left (rate n : Nat) : Int := reload - n * amount rate % reload

/-- How many steps are due in these samples. -/
def steps (rate n : Nat) : Int := n * amount rate / reload

@[simp] theorem left_zero (rate : Nat) : left rate 0 = reload := by simp [left]

@[simp] theorem steps_zero (rate : Nat) : steps rate 0 = 0 := by simp [steps]

/-- When there have been `k` steps. -/
theorem steps_lt_iff {rate : Nat} (h : 0 < amount rate) (n k : Nat) :
    steps rate n < k ↔ (n : Int) < k * reload / amount rate := by
  have hdvd : amount rate ∣ k * reload :=
    Dvd.dvd.mul_left ((amount_eq_zero_or_dvd rate).resolve_left (Int.ne_of_gt h)) _
  rw [steps, Int.ediv_lt_iff_lt_mul (by decide), Int.lt_ediv_iff_mul_lt h hdvd]

/-- One more sample: either it takes its amount and there is some left, or it takes exactly the rest. -/
theorem left_succ_or (rate n : Nat) :
    (0 < left rate n - amount rate ∧ left rate (n + 1) = left rate n - amount rate ∧
        steps rate (n + 1) = steps rate n) ∨
      (left rate n = amount rate ∧ left rate (n + 1) = reload ∧ steps rate (n + 1) = steps rate n + 1) := by
  have hreload : reload = 0x7800 := rfl
  have hamount := amount_mem rate
  have hdvd := amount_eq_zero_or_dvd rate
  have hpart : amount rate ∣ n * amount rate := Dvd.intro_left _ rfl
  have hcast : ((n + 1 : Nat) : Int) * amount rate = n * amount rate + amount rate := by
    rw [Int.natCast_succ, Int.add_mul, Int.one_mul]
  unfold left steps
  rw [hcast]
  generalize (n : Int) * amount rate = total at hpart
  generalize amount rate = a at *
  rw [hreload] at *
  by_cases hlt : total % 0x7800 + a < 0x7800
  · left
    omega
  · right
    have hrest : a ∣ 0x7800 - total % 0x7800 := by
      rcases hdvd with rfl | hdvd
      · omega
      · rw [Int.emod_def]
        exact Int.dvd_sub hdvd (Int.dvd_sub hpart (hdvd.mul_right _))
    have hle : a ≤ 0x7800 - total % 0x7800 := Int.le_of_dvd (by omega) hrest
    omega

/-- A sample at a constant rate. -/
theorem tick_left (rate n : Nat) :
    (tick (left rate n) (amount rate)).1 = left rate (n + 1) ∧
      steps rate (n + 1) = steps rate n + if (tick (left rate n) (amount rate)).2 then 1 else 0 := by
  rcases left_succ_or rate n with ⟨hpos, hleft, hsteps⟩ | ⟨hrest, hleft, hsteps⟩
  · rw [tick_of_not_due (Int.sub_pos.mp hpos), hleft, hsteps]
    simp
  · rw [tick_of_due hrest.le, hleft, hsteps]
    exact ⟨rfl, rfl⟩

/-- A fresh counter that runs in some samples, always at the same rate, gives the steps that are due in these. -/
theorem count_due (counters : Nat → Int) (runs : Nat → Prop) {due : Nat → Prop} [DecidablePred runs]
    [DecidablePred due] {rate n : Nat} (h : counters 0 = reload)
    (hruns : ∀ i < n, runs i → (due i ↔ counters i ≤ amount rate) ∧
      counters (i + 1) = (tick (counters i) (amount rate)).1)
    (hrests : ∀ i < n, ¬runs i → ¬due i ∧ counters (i + 1) = counters i) :
    counters n = left rate (Nat.count runs n) ∧ Nat.count due n = steps rate (Nat.count runs n) := by
  induction n with
  | zero => simpa using h
  | succ n ih =>
    obtain ⟨hcounter, hcount⟩ := ih (fun i hi => hruns i (Nat.lt_succ_of_lt hi))
      fun i hi => hrests i (Nat.lt_succ_of_lt hi)
    rw [Nat.count_succ, Nat.count_succ]
    by_cases hrun : runs n
    · obtain ⟨hdue, hnext⟩ := hruns n (Nat.lt_succ_self n) hrun
      obtain ⟨hleft, hsteps⟩ := tick_left rate (Nat.count runs n)
      simp only [tick_due_iff, ← hcounter, ← hdue] at hsteps
      rw [if_pos hrun, hnext, hcounter, hsteps, ← hcount]
      refine ⟨hleft, ?_⟩
      split <;> rfl
    · obtain ⟨hdue, hnext⟩ := hrests n (Nat.lt_succ_self n) hrun
      rw [if_neg hrun, if_neg hdue, hnext]
      exact ⟨hcounter, hcount⟩

end Rate

namespace EnvelopeMode

/-- The rate at which a phase runs. -/
def rate : EnvelopeMode → Phase → Nat
  | .adsr attack _ _ _, .attack => attack
  | .adsr _ decay _ _, .decay => decay
  | .adsr _ _ sustain _, _ => sustain
  | .slope rate _, _ => rate
  | .fixed _, _ => 0

/-- What a step of a phase changes. -/
def change : EnvelopeMode → Phase → Envelope → Envelope
  | .adsr .., .attack => .rise 0x20
  | .adsr .., _ => .fall
  | .slope _ s, _ => .follow s
  | .fixed _, _ => id

/-- A step has nothing to do with the counter. -/
theorem change_with (mode : EnvelopeMode) (phase : Phase) (e : Envelope) (counter : Int) :
    mode.change phase { e with counter } = { mode.change phase e with counter } := by
  cases mode with
  | fixed level => rfl
  | slope rate slope => cases slope <;> rfl
  | adsr attack decay sustain sustainLevel =>
    cases phase with
    | attack =>
      simp only [change, Envelope.rise]
      split <;> rfl
    | decay | sustain | release => rfl

end EnvelopeMode

namespace Envelope

/-! ## Samples that count -/

/-- Whether the counter of an envelope runs in a sample: the envelope is not released, its level is not set, and it is
not in the fastest attack. -/
structure Counted (e : Envelope) (x : Settings) : Prop where
  release : e.phase ≠ .release
  fixed : x.isAdsr = true ∨ x.isSlope = true
  fastest : ¬(x.isAdsr = true ∧ e.phase = .attack ∧ x.attackRate = 31)

instance (e : Envelope) (x : Settings) : Decidable (e.Counted x) :=
  decidable_of_iff (e.phase ≠ .release ∧ (x.isAdsr = true ∨ x.isSlope = true) ∧
    ¬(x.isAdsr = true ∧ e.phase = .attack ∧ x.attackRate = 31))
    ⟨fun h => ⟨h.1, h.2.1, h.2.2⟩, fun h => ⟨h.release, h.fixed, h.fastest⟩⟩

variable {e : Envelope} {x : Settings}

/-- The rate at which it runs. -/
def rate (e : Envelope) (x : Settings) : Nat := x.mode.rate e.phase

/-- Whether a sample takes a step of the level. -/
def Steps (e : Envelope) (x : Settings) : Prop :=
  e.Counted x ∧ (Rate.tick e.counter (Rate.amount (e.rate x))).2 = true

instance (e : Envelope) (x : Settings) : Decidable (e.Steps x) := inferInstanceAs (Decidable (_ ∧ _))

theorem counter_settle (e : Envelope) (sustainLevel : Int) : (e.settle sustainLevel).counter = e.counter := by
  unfold settle
  split <;> rfl

/-- In a sample that counts, the level is changed when the counter runs out, and may settle in any case. -/
theorem Counted.next_eq (h : e.Counted x) : e.next x = e.atRate (e.rate x) (x.mode.change e.phase) ∨
    ∃ sustainLevel, e.next x = (e.atRate (e.rate x) (x.mode.change e.phase)).settle sustainLevel := by
  rw [next_of_ne_release h.release]
  cases hadsr : x.isAdsr with
  | true =>
    obtain ⟨decay, sustain, sustainLevel, hmode⟩ := Settings.mode_of_isAdsr hadsr
    cases hphase : e.phase with
    | attack =>
      have hrate : x.attackRate ≠ 31 := fun hrate => h.fastest ⟨hadsr, hphase, hrate⟩
      left
      simp [advance, rate, EnvelopeMode.rate, EnvelopeMode.change, hmode, hphase, hrate]
    | decay =>
      right
      exact ⟨sustainLevel, by simp [advance, rate, EnvelopeMode.rate, EnvelopeMode.change, hmode, hphase]⟩
    | sustain =>
      left
      simp [advance, rate, EnvelopeMode.rate, EnvelopeMode.change, hmode, hphase]
    | release => exact absurd hphase h.release
  | false =>
    have hslope : x.isSlope = true := by simpa [hadsr] using h.fixed
    obtain ⟨rate, slope, hmode⟩ := Settings.mode_of_isSlope hadsr hslope
    left
    simp [advance, Envelope.rate, EnvelopeMode.rate, EnvelopeMode.change, hmode]

/-- What a sample that counts does to the counter and to the level. -/
theorem Counted.next (h : e.Counted x) :
    (e.next x).counter = (Rate.tick e.counter (Rate.amount (e.rate x))).1 ∧
      (e.next x).level = if e.Steps x then (x.mode.change e.phase e).level else e.level := by
  have hrate : (e.atRate (e.rate x) (x.mode.change e.phase)).counter =
        (Rate.tick e.counter (Rate.amount (e.rate x))).1 ∧
      (e.atRate (e.rate x) (x.mode.change e.phase)).level =
        if e.Steps x then (x.mode.change e.phase e).level else e.level := by
    by_cases hdue : (Rate.tick e.counter (Rate.amount (e.rate x))).2 = true
    · rw [atRate_of_due hdue, if_pos ⟨h, hdue⟩, EnvelopeMode.change_with]
      exact ⟨rfl, rfl⟩
    · rw [atRate_of_not_due hdue, if_neg fun hsteps => hdue hsteps.2]
      exact ⟨rfl, rfl⟩
  rcases h.next_eq with hnext | ⟨sustainLevel, hnext⟩
  · rw [hnext]
    exact hrate
  · rw [hnext, counter_settle, level_settle]
    exact hrate

/-- Any other sample leaves the counter alone. -/
theorem counter_next_of_not_counted (h : ¬e.Counted x) : (e.next x).counter = e.counter := by
  by_cases hrelease : e.phase = .release
  · rw [next_of_release hrelease]
  rw [next_of_ne_release hrelease]
  cases hadsr : x.isAdsr with
  | true =>
    have hfastest : e.phase = .attack ∧ x.attackRate = 31 := by
      by_contra hnot
      exact h ⟨hrelease, .inl hadsr, fun hfastest => hnot hfastest.2⟩
    obtain ⟨decay, sustain, sustainLevel, hmode⟩ := Settings.mode_of_isAdsr hadsr
    simp only [hmode, advance, hfastest, if_true, rise]
    split <;> rfl
  | false =>
    have hfixed : x.isSlope = false := by
      by_contra hslope
      exact h ⟨hrelease, .inr (by simpa using hslope), by simp [hadsr]⟩
    obtain ⟨level, hmode⟩ := Settings.mode_of_not_isSlope hadsr hfixed
    rw [hmode]
    rfl

/-! ## Calls -/

/-- Whether a call is a sample with settings of some kind. -/
def Call.IsSample (P : Settings → Prop) : Call → Prop
  | .step x => P x
  | .keyOn | .release => False

instance {P : Settings → Prop} [DecidablePred P] : DecidablePred (Call.IsSample P)
  | .step x => inferInstanceAs (Decidable (P x))
  | .keyOn | .release => inferInstanceAs (Decidable False)

section Calls

variable (e : Envelope) (calls : Nat → Call) (t : Nat)

/-- Whether a call is a sample that counts. -/
def CountedAt : Prop := (calls t).IsSample (e.after calls t).Counted

/-- Whether a call is a sample that takes a step of the level. -/
def StepsAt : Prop := (calls t).IsSample (e.after calls t).Steps

instance : Decidable (e.CountedAt calls t) := inferInstanceAs (Decidable (Call.IsSample _ _))

instance : Decidable (e.StepsAt calls t) := inferInstanceAs (Decidable (Call.IsSample _ _))

/-- The rate at which the counter runs in a call. -/
def rateAt : Nat :=
  match calls t with
  | .step x => (e.after calls t).rate x
  | .keyOn | .release => 0

/-- What a call takes from the counter. -/
def takenAt : Int := if e.CountedAt calls t then Rate.amount (e.rateAt calls t) else 0

/-- The first call since the last step or key-on before call `t`. -/
def since : Nat → Nat
  | 0 => 0
  | t + 1 => if e.StepsAt calls t ∨ calls t = .keyOn then t + 1 else since t

theorem since_le : e.since calls t ≤ t := by
  induction t with
  | zero => exact Nat.le_refl 0
  | succ t ih =>
    unfold since
    split
    · exact Nat.le_refl _
    · exact Nat.le_succ_of_le ih

variable {e calls t}

theorem stepsAt_iff : e.StepsAt calls t ↔
    e.CountedAt calls t ∧ (e.after calls t).counter ≤ Rate.amount (e.rateAt calls t) := by
  unfold StepsAt CountedAt rateAt
  cases calls t with
  | step x => exact and_congr_right fun _ => Rate.tick_due_iff
  | keyOn | release => simp [Call.IsSample]

theorem CountedAt.counter_succ (h : e.CountedAt calls t) : (e.after calls (t + 1)).counter =
    (Rate.tick (e.after calls t).counter (Rate.amount (e.rateAt calls t))).1 := by
  unfold CountedAt at h
  unfold rateAt
  rw [after_succ]
  cases hcall : calls t with
  | step x =>
    rw [hcall] at h
    exact (Counted.next h).1
  | keyOn | release =>
    rw [hcall] at h
    exact h.elim

theorem counter_succ_of_not_countedAt (h : ¬e.CountedAt calls t) (hno : calls t ≠ .keyOn) :
    (e.after calls (t + 1)).counter = (e.after calls t).counter := by
  unfold CountedAt at h
  rw [after_succ]
  cases hcall : calls t with
  | step x =>
    rw [hcall] at h
    exact counter_next_of_not_counted h
  | keyOn => exact absurd hcall hno
  | release => rfl

/-- What has been taken since the last step or key-on is missing from the counter. -/
theorem counter_after (h : e.counter = Rate.reload) (t : Nat) :
    (e.after calls t).counter = Rate.reload - ∑ i ∈ Ico (e.since calls t) t, e.takenAt calls i := by
  induction t with
  | zero => simpa [since] using h
  | succ t ih =>
    unfold since
    by_cases hfresh : e.StepsAt calls t ∨ calls t = .keyOn
    · rw [if_pos hfresh, Ico_self, sum_empty, Int.sub_zero]
      rcases hfresh with hsteps | hcall
      · obtain ⟨hcounted, hle⟩ := stepsAt_iff.mp hsteps
        rw [hcounted.counter_succ, Rate.tick_of_due hle]
      · rw [after_succ, hcall]
        rfl
    · obtain ⟨hsteps, hcall⟩ := not_or.mp hfresh
      rw [if_neg hfresh, sum_Ico_succ_top (e.since_le calls t), takenAt]
      by_cases hcounted : e.CountedAt calls t
      · have hlt : Rate.amount (e.rateAt calls t) < (e.after calls t).counter :=
          Int.not_le.mp fun hle => hsteps (stepsAt_iff.mpr ⟨hcounted, hle⟩)
        rw [hcounted.counter_succ, Rate.tick_of_not_due hlt, if_pos hcounted, ih]
        omega
      · rw [counter_succ_of_not_countedAt hcounted hcall, if_neg hcounted, ih]
        omega

/-- A sample that counts takes a step when what has been taken since the last one fills the counter. -/
theorem stepsAt_iff_le_sum (h : e.counter = Rate.reload) (hcounted : e.CountedAt calls t) :
    e.StepsAt calls t ↔ Rate.reload ≤ ∑ i ∈ Ico (e.since calls t) (t + 1), e.takenAt calls i := by
  have hcounter : (e.after calls t).counter = Rate.reload - ∑ i ∈ Ico (e.since calls t) t, e.takenAt calls i :=
    counter_after h t
  rw [stepsAt_iff, and_iff_right hcounted, sum_Ico_succ_top (e.since_le calls t), takenAt, if_pos hcounted]
  omega

/-- At a constant rate, a fresh counter gives the steps that are due. -/
theorem count_stepsAt (h : e.counter = Rate.reload) {rate n : Nat} (hno : ∀ i < n, calls i ≠ .keyOn)
    (hrate : ∀ i < n, e.CountedAt calls i → e.rateAt calls i = rate) :
    Nat.count (e.StepsAt calls) n = Rate.steps rate (Nat.count (e.CountedAt calls) n) := by
  refine (Rate.count_due (fun i => (e.after calls i).counter) (e.CountedAt calls) h (fun i hi hcounted => ?_)
    fun i hi hcounted => ?_).2
  · rw [← hrate i hi hcounted, stepsAt_iff, and_iff_right hcounted]
    exact ⟨Iff.rfl, hcounted.counter_succ⟩
  · exact ⟨fun hsteps => hcounted (stepsAt_iff.mp hsteps).1, counter_succ_of_not_countedAt hcounted (hno i hi)⟩

end Calls

/-! ## Attacks that nothing disturbs -/

section Attack

variable {settings : Nat → Settings} {attack : Nat}

/-- The rate of an attack. -/
theorem rate_of_attack {e : Envelope} {x : Settings} (hadsr : x.isAdsr = true) (hphase : e.phase = .attack) :
    e.rate x = x.attackRate := by
  obtain ⟨decay, sustain, sustainLevel, hmode⟩ := Settings.mode_of_isAdsr hadsr
  rw [rate, hmode, hphase]
  rfl

/-- One sample of an attack whose counter has been running since its key-on. -/
theorem climb {e : Envelope} {x : Settings} {n : Nat} (hattack : attack < 15) (hadsr : x.isAdsr = true)
    (hrate : x.attackRate = 2 * attack + 1) (hphase : e.phase = .attack)
    (hcounter : e.counter = Rate.left (2 * attack + 1) n)
    (hlevel : e.level = 0x20 * Rate.steps (2 * attack + 1) n) (hsteps : Rate.steps (2 * attack + 1) n < 64) :
    (e.next x).counter = Rate.left (2 * attack + 1) (n + 1) ∧
      (e.next x).level = min 0x7FF (0x20 * Rate.steps (2 * attack + 1) (n + 1)) ∧
      (e.next x).phase = if Rate.steps (2 * attack + 1) (n + 1) < 64 then .attack else .decay := by
  have hne : x.attackRate ≠ 31 := by omega
  have hcounted : e.Counted x := ⟨by simp [hphase], .inl hadsr, fun hfastest => hne hfastest.2.2⟩
  obtain ⟨hleft, hsucc⟩ := Rate.tick_left (2 * attack + 1) n
  have hnext := (Counted.next hcounted).1
  rw [rate_of_attack hadsr hphase, hrate, hcounter, hleft] at hnext
  refine ⟨hnext, ?_⟩
  by_cases hdue : (Rate.tick e.counter (Rate.amount x.attackRate)).2 = true
  · have hattacks : e.Attacks x 0x20 := ⟨hadsr, hphase, .inr ⟨hne, hdue, rfl⟩⟩
    rw [hcounter, hrate] at hdue
    rw [hdue, if_pos rfl] at hsucc
    rw [hsucc]
    by_cases hlast : Rate.steps (2 * attack + 1) n = 63
    · obtain ⟨hlevel', hphase'⟩ := hattacks.next_of_gt (by rw [hlevel, hlast]; decide)
      rw [hlevel', hphase', hlast]
      exact ⟨rfl, rfl⟩
    · obtain ⟨hlevel', hphase'⟩ := hattacks.next_of_le (by rw [hlevel, maxLevel]; omega)
      rw [hlevel', hphase', hlevel, if_pos (by omega)]
      exact ⟨by omega, rfl⟩
  · rw [next_of_attack_not_due hadsr hphase hne hdue]
    rw [hcounter, hrate] at hdue
    rw [if_neg hdue, Int.add_zero] at hsucc
    rw [hsucc, if_pos hsteps, hphase, hlevel]
    exact ⟨by omega, rfl⟩

/-- The increments of an attack come when they are due, and the last one ends it. -/
theorem attack_climbs (hattack : attack < 15) {n : Nat}
    (h : ∀ i < n, (settings i).isAdsr = true ∧ (settings i).adsr1.toNat % 16 = attack)
    (hbefore : ∀ i < n, Rate.steps (2 * attack + 1) i < 64) :
    let e := keyOn.after (fun i => .step (settings i)) n
    e.counter = Rate.left (2 * attack + 1) n ∧ e.level = min 0x7FF (0x20 * Rate.steps (2 * attack + 1) n) ∧
      e.phase = if Rate.steps (2 * attack + 1) n < 64 then .attack else .decay := by
  induction n with
  | zero => simp [keyOn]
  | succ n ih =>
    obtain ⟨hcounter, hlevel, hphase⟩ := ih (fun i hi => h i (Nat.lt_succ_of_lt hi))
      fun i hi => hbefore i (Nat.lt_succ_of_lt hi)
    obtain ⟨hadsr, hrate⟩ := h n (Nat.lt_succ_self n)
    have hsteps := hbefore n (Nat.lt_succ_self n)
    rw [if_pos hsteps] at hphase
    have hbelow : min 0x7FF (0x20 * Rate.steps (2 * attack + 1) n) = 0x20 * Rate.steps (2 * attack + 1) n := by omega
    have hattackRate : (settings n).attackRate = 2 * attack + 1 := by
      rw [Settings.attackRate, hrate]
      omega
    exact climb hattack hadsr hattackRate hphase hcounter (hlevel.trans hbelow) hsteps

end Attack

end Envelope

namespace Noise

/-! ## Noise -/

section Runs

variable (noise : Noise) (amounts : Nat → Int)

/-- The noise generator after some samples, each taking its amount from the counter. -/
def after : Nat → Noise
  | 0 => noise
  | t + 1 => (after t).tick (amounts t)

/-- Whether a sample shifts the register. -/
def ShiftsAt (t : Nat) : Prop := (Rate.tick (noise.after amounts t).counter (amounts t)).2 = true

instance (t : Nat) : Decidable (noise.ShiftsAt amounts t) := inferInstanceAs (Decidable (_ = _))

variable {noise amounts}

theorem shiftsAt_iff {t : Nat} : noise.ShiftsAt amounts t ↔ (noise.after amounts t).counter ≤ amounts t :=
  Rate.tick_due_iff

theorem counter_succ (t : Nat) : (noise.after amounts (t + 1)).counter =
    (Rate.tick (noise.after amounts t).counter (amounts t)).1 := by
  rw [after, tick]
  split
  next h => rw [h]
  next h => rw [h]

theorem shift_succ (t : Nat) : (noise.after amounts (t + 1)).shift =
    if noise.ShiftsAt amounts t then next (noise.after amounts t).shift else (noise.after amounts t).shift := by
  rw [after, tick]
  by_cases hdue : noise.ShiftsAt amounts t
  · rw [if_pos hdue, Rate.tick_of_due (shiftsAt_iff.mp hdue)]
  · rw [if_neg hdue, Rate.tick_of_not_due (Int.not_le.mp (mt shiftsAt_iff.mpr hdue))]

/-- The register has been shifted as often as the counter has run out. -/
theorem shift_after (n : Nat) :
    (noise.after amounts n).shift = next^[Nat.count (noise.ShiftsAt amounts) n] noise.shift := by
  induction n with
  | zero => rfl
  | succ n ih =>
    rw [shift_succ, ih, Nat.count_succ]
    split
    · rw [Function.iterate_succ_apply']
    · rfl

/-- At a constant rate, a fresh counter gives the shifts that are due. -/
theorem count_shiftsAt (h : noise.counter = Rate.reload) {rate n : Nat}
    (hrate : ∀ i < n, amounts i = Rate.amount rate) : Nat.count (noise.ShiftsAt amounts) n = Rate.steps rate n := by
  have hcount : Nat.count (noise.ShiftsAt amounts) n = Rate.steps rate (Nat.count (fun _ => True) n) := by
    refine (Rate.count_due (fun i => (noise.after amounts i).counter) _ h (fun i hi _ => ?_)
      fun _ _ hnot => absurd trivial hnot).2
    rw [← hrate i hi]
    exact ⟨shiftsAt_iff, counter_succ i⟩
  rwa [Nat.count_true] at hcount

end Runs

end Noise

namespace Rate

open Envelope

/-! ## All counters -/

/-- Rate counters lose no time. In any calls to an envelope, a sample that counts changes the level by a step if and
only if the amounts of the samples that count since the last step or key-on, its own included, fill the counter. At a
constant rate a fresh counter therefore gives as many steps as fit into the amounts of all samples that count; an attack
that nothing disturbs, at any rate but the greatest one, climbs by 32 with every step and ends in the sample that
completes the 64th; and the noise generator shifts as often as the amounts of all samples fill its counter. -/
theorem counters_lose_no_time :
    (∀ (calls : Nat → Call) (t : Nat) (x : Settings), calls t = .step x → (keyOn.after calls t).Counted x →
      let e := keyOn.after calls t
      let taken := ∑ i ∈ Ico (keyOn.since calls t) (t + 1), keyOn.takenAt calls i
      (e.Steps x ↔ 0x7800 ≤ taken) ∧
        (e.next x).level = if 0x7800 ≤ taken then (x.mode.change e.phase e).level else e.level) ∧
    (∀ (e : Envelope) (calls : Nat → Call) (rate n : Nat), e.counter = 0x7800 → (∀ i < n, calls i ≠ .keyOn) →
      (∀ i < n, e.CountedAt calls i → e.rateAt calls i = rate) →
      Nat.count (e.StepsAt calls) n = Nat.count (e.CountedAt calls) n * amount rate / 0x7800) ∧
    (∀ (settings : Nat → Settings) (attack n : Nat), attack < 15 →
      (∀ i < n, (settings i).isAdsr = true ∧ (settings i).adsr1.toNat % 16 = attack) →
      let e := keyOn.after (fun i => .step (settings i)) n
      let taken := amount (2 * attack + 1)
      let last := 64 * 0x7800 / taken
      n ≤ last → e.level = min 0x7FF (0x20 * (n * taken / 0x7800)) ∧ e.phase = if n < last then .attack else .decay) ∧
    ∀ (noise : Noise) (registers : Nat → Registers) (rate n : Nat), noise.counter = 0x7800 →
      (∀ i < n, ((registers i).get Register.flg).toNat % 32 = rate) →
      let amounts : Nat → Int := fun i => (registers i).noiseAmount
      let shifts := Nat.count (noise.ShiftsAt amounts) n
      shifts = n * amount rate / 0x7800 ∧ (noise.after amounts n).shift = Noise.next^[shifts] noise.shift := by
  refine ⟨?_, ?_, ?_, ?_⟩
  · intro calls t x hcall hcounted e taken
    have hcountedAt : keyOn.CountedAt calls t := by
      rw [CountedAt, hcall]
      exact hcounted
    have hsteps : e.Steps x ↔ 0x7800 ≤ taken := by
      have hfull := stepsAt_iff_le_sum rfl hcountedAt
      rw [StepsAt, hcall] at hfull
      exact hfull
    refine ⟨hsteps, ?_⟩
    rw [(Counted.next hcounted).2]
    simp only [e, hsteps]
  · intro e calls rate n hfresh hno hrate
    exact count_stepsAt hfresh hno hrate
  · intro settings attack n hattack h e taken last hn
    have hpos : 0 < taken := amount_pos (by omega)
    have hlast (i : Nat) : steps (2 * attack + 1) i < 64 ↔ (i : Int) < last := steps_lt_iff hpos i 64
    obtain ⟨-, hlevel, hphase⟩ := attack_climbs hattack h fun i hi => (hlast i).mpr (by omega)
    simp only [hlast] at hphase
    exact ⟨hlevel, hphase⟩
  · intro noise registers rate n hfresh hrate amounts shifts
    have hconstant (i : Nat) (hi : i < n) : amounts i = amount rate := by
      refine amount_congr ?_
      rw [hrate i hi, ← hrate i hi, Nat.mod_mod]
    exact ⟨Noise.count_shiftsAt hfresh hconstant, Noise.shift_after n⟩

/-- Eleven samples of a linear increase at rate 20 and ten of an attack at rate 21 do not fill the counter, but one more
does. -/
theorem counters_lose_no_time_across_modes :
    let calls : Nat → Call := fun t =>
      .step (if t = 0 then ⟨0, 0, 0x40⟩ else if t < 12 then ⟨0, 0, 0xD4⟩ else ⟨0x8A, 0, 0⟩)
    ¬(keyOn.after calls 21).Steps ⟨0x8A, 0, 0⟩ ∧ (keyOn.after calls 22).Steps ⟨0x8A, 0, 0⟩ := by
  intro calls
  have hbefore := (counters_lose_no_time.1 calls 21 ⟨0x8A, 0, 0⟩ rfl (by decide +kernel)).1
  have hafter := (counters_lose_no_time.1 calls 22 ⟨0x8A, 0, 0⟩ rfl (by decide +kernel)).1
  rw [hbefore, hafter]
  decide +kernel

end Rate

end SnesSound
