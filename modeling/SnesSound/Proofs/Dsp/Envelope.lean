import Mathlib.Logic.Relation
import SnesSound.Proofs.Checked.Envelope

/-!
# The way of an envelope

An envelope is keyed on, released, and moved on by one sample at a time; the registers of its voice, which say how it
moves, may hold something else at every sample. Whatever they hold, level and counter stay within their bounds, the
phases follow each other in one direction, and a release goes straight down to zero (`behaves_after`).

An attack that takes the level beyond the greatest one ends there. A note that has been in gain mode may come to the
greatest level exactly, and then its attack goes on for one more increment. Main statements: this is the only exception,
and notes that stay in attack, decay and sustain mode never meet it (`attack_after`); there is a note that does
(`attack_goes_on_at_full_level`).
-/

namespace SnesSound

/-- Whether a phase comes right after another one when a note is neither keyed on nor released. -/
inductive Phase.Follows : Phase → Phase → Prop
  | decay : Follows .attack .decay
  | sustain : Follows .decay .sustain

/-- The attack phase follows no other one. -/
theorem Phase.eq_attack {p : Phase} (h : Relation.ReflGen Follows p .attack) : p = .attack := by
  cases h with
  | refl => rfl
  | single h => cases h

namespace Envelope

/-! ## Calls -/

/-- What the ADSR and GAIN registers of a voice hold. -/
structure Settings where
  adsr1 : UInt8
  adsr2 : UInt8
  gain : UInt8
  deriving DecidableEq

namespace Settings

variable (x : Settings)

/-- Whether the registers ask for attack, decay and sustain, and not for a gain. -/
def isAdsr : Bool := bit x.adsr1 7

/-- Whether a gain changes the level at a rate, and does not set it. -/
def isSlope : Bool := bit x.gain 7

/-- The rate of the attack. -/
def attackRate : Nat := x.adsr1.toNat % 16 * 2 + 1

/-- What the registers ask for. -/
def mode : EnvelopeMode := .ofRegisters x.adsr1 x.adsr2 x.gain

variable {x}

theorem mode_of_isAdsr (h : x.isAdsr = true) :
    ∃ decay sustain sustainLevel, x.mode = .adsr x.attackRate decay sustain sustainLevel := ⟨_, _, _, if_pos h⟩

theorem mode_of_isSlope (h : x.isAdsr = false) (hslope : x.isSlope = true) :
    ∃ rate slope, x.mode = .slope rate slope :=
  ⟨_, _, (if_neg (ne_true_of_eq_false h)).trans (if_pos hslope)⟩

theorem mode_of_not_isSlope (h : x.isAdsr = false) (hfixed : x.isSlope = false) : ∃ level, x.mode = .fixed level :=
  ⟨_, (if_neg (ne_true_of_eq_false h)).trans (if_neg (ne_true_of_eq_false hfixed))⟩

end Settings

/-- What is done with an envelope. -/
inductive Call
  | keyOn
  | release
  /-- One sample, with what the registers hold. -/
  | step (x : Settings)
  deriving DecidableEq

variable {e : Envelope} {x : Settings}

/-- The envelope after a sample. -/
def next (e : Envelope) (x : Settings) : Envelope := (e.step x.adsr1 x.adsr2 x.gain).1

/-- Whether the voice goes on after a sample. -/
def outcome (e : Envelope) (x : Settings) : Outcome := (e.step x.adsr1 x.adsr2 x.gain).2

/-- The envelope after a call. -/
def perform (e : Envelope) : Call → Envelope
  | .keyOn => .keyOn
  | .release => e.release
  | .step x => e.next x

/-- The envelope after the first calls. -/
def after (e : Envelope) (calls : Nat → Call) : Nat → Envelope
  | 0 => e
  | t + 1 => (e.after calls t).perform (calls t)

@[simp] theorem after_zero (e : Envelope) (calls : Nat → Call) : e.after calls 0 = e := rfl

theorem after_succ (e : Envelope) (calls : Nat → Call) (t : Nat) :
    e.after calls (t + 1) = (e.after calls t).perform (calls t) := rfl

/-! ## Samples -/

theorem next_of_release (h : e.phase = .release) : e.next x = { e with level := max (e.level - 8) 0 } := by
  unfold next step
  rw [if_pos h]
  split
  next hle =>
    have hmax : max (e.level - 8) 0 = 0 := by omega
    rw [hmax]
  next hlt =>
    have hmax : max (e.level - 8) 0 = e.level - 8 := by omega
    rw [hmax]

theorem next_of_ne_release (h : e.phase ≠ .release) : e.next x = e.advance x.mode := by
  simp [next, step, h, Settings.mode]

theorem outcome_eq_finished_iff : e.outcome x = .finished ↔ e.phase = .release ∧ e.level ≤ 8 := by
  unfold outcome step
  split
  next h => split <;> simp_all
  next h => simp [h]

/-- What holds whether or not the counter runs out. -/
theorem atRate_induction {P : Envelope → Prop} {change : Envelope → Envelope} (rate : Nat)
    (hrest : ∀ counter, P { e with counter }) (hchange : ∀ counter, P (change { e with counter })) :
    P (e.atRate rate change) := by
  unfold atRate
  split
  · exact hchange _
  · exact hrest _

/-! ### Phases -/

theorem phase_fall (e : Envelope) : e.fall.phase = e.phase := rfl

theorem phase_follow (slope : Slope) (e : Envelope) : (e.follow slope).phase = e.phase := by
  cases slope <;> rfl

theorem follows_rise (h : e.phase = .attack) (amount : Int) :
    Relation.ReflGen Phase.Follows e.phase (e.rise amount).phase := by
  unfold rise
  split
  · rw [h]
    exact .single .decay
  · exact .refl

theorem follows_settle (h : e.phase = .decay) (sustainLevel : Int) :
    Relation.ReflGen Phase.Follows .decay (e.settle sustainLevel).phase := by
  unfold settle
  split
  · exact .single .sustain
  · rw [h]

theorem phase_atRate {change : Envelope → Envelope} (hchange : ∀ e : Envelope, (change e).phase = e.phase)
    (e : Envelope) (rate : Nat) : (e.atRate rate change).phase = e.phase :=
  atRate_induction (P := fun e' => e'.phase = e.phase) rate (fun _ => rfl) fun _ => hchange _

/-- A sample keeps the phase or goes on to the one that follows it. -/
theorem follows_advance (e : Envelope) (mode : EnvelopeMode) :
    Relation.ReflGen Phase.Follows e.phase (e.advance mode).phase := by
  unfold advance
  cases mode with
  | fixed level => exact .refl
  | slope rate slope =>
    dsimp only
    rw [phase_atRate (phase_follow slope)]
  | adsr attack decay sustain sustainLevel =>
    cases hphase : e.phase with
    | attack =>
      dsimp only
      rw [← hphase]
      split
      · exact follows_rise hphase _
      · exact atRate_induction (P := fun e' => Relation.ReflGen Phase.Follows e.phase e'.phase) attack
          (fun _ => .refl) fun counter => follows_rise (e := { e with counter }) hphase _
    | decay => exact follows_settle ((phase_atRate phase_fall e decay).trans hphase) sustainLevel
    | sustain =>
      dsimp only
      rw [phase_atRate phase_fall, hphase]
    | release =>
      dsimp only
      rw [hphase]

/-- A gain keeps the phase. -/
theorem phase_advance_of_not_isAdsr (h : x.isAdsr = false) (e : Envelope) : (e.advance x.mode).phase = e.phase := by
  cases hslope : x.isSlope with
  | true =>
    obtain ⟨rate, slope, hmode⟩ := Settings.mode_of_isSlope h hslope
    rw [hmode]
    exact phase_atRate (phase_follow slope) e rate
  | false =>
    obtain ⟨level, hmode⟩ := Settings.mode_of_not_isSlope h hslope
    rw [hmode]
    rfl

/-! ### Levels -/

theorem le_level_rise (h : e.level ≤ maxLevel) {amount : Int} (ha : 0 ≤ amount) :
    e.level ≤ (e.rise amount).level := by
  unfold rise
  split
  · exact h
  · exact Int.le_add_of_nonneg_right ha

theorem level_fall_le (h : 0 ≤ e.level) : e.fall.level ≤ e.level := by
  change e.level - ((e.level - 1) / 256 + 1) ≤ e.level
  omega

theorem level_settle (e : Envelope) (sustainLevel : Int) : (e.settle sustainLevel).level = e.level := by
  unfold settle
  split <;> rfl

/-- In the attack phase the level does not fall. -/
theorem le_level_advance (h : e.InRange) (hadsr : x.isAdsr = true) (hphase : e.phase = .attack) :
    e.level ≤ (e.advance x.mode).level := by
  obtain ⟨decay, sustain, sustainLevel, hmode⟩ := Settings.mode_of_isAdsr hadsr
  simp only [hmode, advance, hphase]
  split
  · exact le_level_rise h.level.2 (by decide)
  · exact atRate_induction (P := fun e' => e.level ≤ e'.level) _ (fun _ => Int.le_refl _)
      fun counter => le_level_rise (e := { e with counter }) h.level.2 (by decide)

/-- After that it does not rise. -/
theorem level_advance_le (h : e.InRange) (hadsr : x.isAdsr = true) (hphase : e.phase = .decay ∨ e.phase = .sustain) :
    (e.advance x.mode).level ≤ e.level := by
  have hfall (rate : Nat) : (e.atRate rate fall).level ≤ e.level :=
    atRate_induction (P := fun e' => e'.level ≤ e.level) rate (fun _ => Int.le_refl _)
      fun counter => level_fall_le (e := { e with counter }) h.level.1
  obtain ⟨decay, sustain, sustainLevel, hmode⟩ := Settings.mode_of_isAdsr hadsr
  rcases hphase with hphase | hphase
  · simp only [hmode, advance, hphase, level_settle]
    exact hfall decay
  · simp only [hmode, advance, hphase]
    exact hfall sustain

/-! ## Bounds and phases -/

/-- How an envelope behaves in a sample. -/
structure Behaves (e : Envelope) (x : Settings) : Prop where
  /-- Attack, decay and sustain come in this order, one at a time, and a release stays. -/
  forward : Relation.ReflGen Phase.Follows e.phase (e.next x).phase
  gain (h : x.isAdsr = false) : (e.next x).phase = e.phase
  attack (h : x.isAdsr = true) (hphase : e.phase = .attack) : e.level ≤ (e.next x).level
  decay (h : x.isAdsr = true) (hphase : e.phase = .decay ∨ e.phase = .sustain) : (e.next x).level ≤ e.level
  release (h : e.phase = .release) : (e.next x).phase = .release ∧ (e.next x).level = max (e.level - 8) 0
  finished : e.outcome x = .finished ↔ e.phase = .release ∧ e.level ≤ 8
  silent (h : e.outcome x = .finished) : (e.next x).level = 0

theorem InRange.behaves (h : e.InRange) (x : Settings) : e.Behaves x where
  forward := by
    by_cases hr : e.phase = .release
    · rw [next_of_release hr]
    · rw [next_of_ne_release hr]
      exact follows_advance e x.mode
  gain hgain := by
    by_cases hr : e.phase = .release
    · rw [next_of_release hr]
    · rw [next_of_ne_release hr]
      exact phase_advance_of_not_isAdsr hgain e
  attack hadsr hphase := by
    rw [next_of_ne_release (by simp [hphase])]
    exact le_level_advance h hadsr hphase
  decay hadsr hphase := by
    have hr : e.phase ≠ .release := by rcases hphase with hphase | hphase <;> simp [hphase]
    rw [next_of_ne_release hr]
    exact level_advance_le h hadsr hphase
  release hr := by
    rw [next_of_release hr]
    exact ⟨hr, rfl⟩
  finished := outcome_eq_finished_iff
  silent hfinished := by
    obtain ⟨hr, hle⟩ := outcome_eq_finished_iff.mp hfinished
    rw [next_of_release hr]
    exact Int.max_eq_right (Int.sub_nonpos_of_le hle)

theorem inRange_keyOn : keyOn.InRange := ⟨⟨by decide, by decide⟩, by decide, by decide⟩

theorem InRange.perform (h : e.InRange) (call : Call) : (e.perform call).InRange := by
  cases call with
  | keyOn => exact inRange_keyOn
  | release => exact ⟨h.level, h.counter⟩
  | step x => exact (Checked.stepEnvelope_eq h x.adsr1 x.adsr2 x.gain).2

theorem InRange.after (h : e.InRange) (calls : Nat → Call) (t : Nat) : (e.after calls t).InRange := by
  induction t with
  | zero => exact h
  | succ t ih => exact ih.perform (calls t)

/-- Phases follow each other while a note is neither keyed on nor released. -/
theorem follows_after (h : e.InRange) {calls : Nat → Call} {s t : Nat} (hst : s ≤ t)
    (hsteps : ∀ i, s ≤ i → i < t → ∃ x, calls i = .step x) :
    Relation.ReflTransGen Phase.Follows (e.after calls s).phase (e.after calls t).phase := by
  induction t, hst using Nat.le_induction with
  | base => exact .refl
  | succ t hst ih =>
    obtain ⟨x, hx⟩ := hsteps t hst (Nat.lt_succ_self t)
    have hbefore := ih fun i h1 h2 => hsteps i h1 (Nat.lt_succ_of_lt h2)
    have hnext := ((h.after calls t).behaves x).forward
    rw [after_succ, hx]
    exact hbefore.trans hnext.to_reflTransGen

/-- A release lasts until the next key-on. -/
theorem phase_after_release {calls : Nat → Call} {s t : Nat} (hst : s < t) (hs : calls s = .release)
    (hno : ∀ i, s < i → i < t → calls i ≠ .keyOn) : (e.after calls t).phase = .release := by
  induction t, hst using Nat.le_induction with
  | base => rw [after_succ, hs, perform, release]
  | succ t hst ih =>
    have hbefore := ih fun i h1 h2 => hno i h1 (Nat.lt_succ_of_lt h2)
    rw [after_succ]
    cases hcall : calls t with
    | keyOn => exact absurd hcall (hno t hst (Nat.lt_succ_self t))
    | release => rfl
    | step x => rw [perform, next_of_release hbefore, hbefore]

/-- The way of an envelope through any calls. Level and counter stay within their bounds; every sample behaves; without
key-on and release the phases follow each other from attack to sustain; and a release lasts until the next key-on. -/
theorem behaves_after (calls : Nat → Call) (t : Nat) :
    let e := keyOn.after calls t
    (0 ≤ e.level ∧ e.level ≤ 0x7FF) ∧ (1 ≤ e.counter ∧ e.counter ≤ 0x7800) ∧ (∀ x, e.Behaves x) ∧
      (∀ s ≤ t, (∀ i, s ≤ i → i < t → ∃ x, calls i = .step x) →
        Relation.ReflTransGen Phase.Follows (keyOn.after calls s).phase e.phase) ∧
      ∀ s < t, calls s = .release → (∀ i, s < i → i < t → calls i ≠ .keyOn) → e.phase = .release := by
  intro e
  have h : e.InRange := inRange_keyOn.after calls t
  exact ⟨h.level, h.counter, h.behaves, fun _ hst hsteps => follows_after inRange_keyOn hst hsteps,
    fun _ hst hs hno => phase_after_release hst hs hno⟩

/-- An envelope that has been released in its attack stays released, although its registers ask for a level. -/
theorem behaves_after_early_release :
    let calls : Nat → Call := fun t => if t = 1 then .release else .step ⟨0x8F, 0, 0x7F⟩
    calls 1 = .release ∧ (keyOn.after calls 4).phase = .release := by
  intro calls
  have hno (i : Nat) (h1 : 1 < i) (_ : i < 4) : calls i ≠ .keyOn := by
    have hne : i ≠ 1 := by omega
    simp [calls, hne]
  exact ⟨rfl, (behaves_after calls 4).2.2.2.2 1 (by decide) rfl hno⟩

/-! ## The end of the attack -/

/-- Whether a sample raises the level in the attack phase, and by how much: at the greatest rate always, at any other
one when the counter runs out. -/
structure Attacks (e : Envelope) (x : Settings) (amount : Int) : Prop where
  isAdsr : x.isAdsr = true
  phase : e.phase = .attack
  due : x.attackRate = 31 ∧ amount = 0x400 ∨
    x.attackRate ≠ 31 ∧ (Rate.tick e.counter (Rate.amount x.attackRate)).2 = true ∧ amount = 0x20

variable {amount : Int}

theorem Attacks.amount_mem (h : e.Attacks x amount) : 0x20 ≤ amount ∧ amount ≤ 0x400 ∧ 32 ∣ amount := by
  rcases h.due with ⟨-, rfl⟩ | ⟨-, -, rfl⟩ <;> decide

theorem atRate_of_due {rate : Nat} (h : (Rate.tick e.counter (Rate.amount rate)).2 = true)
    (change : Envelope → Envelope) :
    e.atRate rate change = change { e with counter := (Rate.tick e.counter (Rate.amount rate)).1 } := by
  unfold atRate
  split
  next counter htick => rw [htick]
  next counter htick => simp [htick] at h

theorem atRate_of_not_due {rate : Nat} (h : ¬(Rate.tick e.counter (Rate.amount rate)).2 = true)
    (change : Envelope → Envelope) :
    e.atRate rate change = { e with counter := (Rate.tick e.counter (Rate.amount rate)).1 } := by
  unfold atRate
  split
  next counter htick => simp [htick] at h
  next counter htick => rw [htick]

theorem Attacks.next_eq (h : e.Attacks x amount) : ∃ counter, e.next x = rise amount { e with counter } := by
  obtain ⟨decay, sustain, sustainLevel, hmode⟩ := Settings.mode_of_isAdsr h.isAdsr
  rw [next_of_ne_release (by simp [h.phase]), hmode]
  simp only [advance, h.phase]
  rcases h.due with ⟨hrate, rfl⟩ | ⟨hrate, hdue, rfl⟩
  · rw [if_pos hrate]
    exact ⟨e.counter, by rw [← h.phase]⟩
  · rw [if_neg hrate, atRate_of_due hdue, ← h.phase]
    exact ⟨_, rfl⟩

/-- An increment that would go beyond the greatest level is cut off there and ends the attack. -/
theorem Attacks.next_of_gt (h : e.Attacks x amount) (hgt : maxLevel < e.level + amount) :
    (e.next x).level = maxLevel ∧ (e.next x).phase = .decay := by
  obtain ⟨counter, hnext⟩ := h.next_eq
  rw [hnext]
  simp [rise, hgt]

/-- Any other one is added, and the attack goes on. -/
theorem Attacks.next_of_le (h : e.Attacks x amount) (hle : e.level + amount ≤ maxLevel) :
    (e.next x).level = e.level + amount ∧ (e.next x).phase = .attack := by
  obtain ⟨counter, hnext⟩ := h.next_eq
  rw [hnext]
  simp [rise, Int.not_lt.mpr hle, h.phase]

/-- Between its increments, an attack waits. -/
theorem next_of_attack_not_due (hadsr : x.isAdsr = true) (hphase : e.phase = .attack) (hrate : x.attackRate ≠ 31)
    (hdue : ¬(Rate.tick e.counter (Rate.amount x.attackRate)).2 = true) :
    e.next x = { e with counter := (Rate.tick e.counter (Rate.amount x.attackRate)).1 } := by
  obtain ⟨decay, sustain, sustainLevel, hmode⟩ := Settings.mode_of_isAdsr hadsr
  rw [next_of_ne_release (by simp [hphase]), hmode]
  simp only [advance, hphase, if_neg hrate, atRate_of_not_due hdue]

/-- A sample in the attack phase changes the level only by an increment. -/
theorem level_next_of_attack (hadsr : x.isAdsr = true) (hphase : e.phase = .attack) :
    (e.next x).level = e.level ∨ ∃ amount, e.Attacks x amount := by
  by_cases hrate : x.attackRate = 31
  · exact .inr ⟨0x400, hadsr, hphase, .inl ⟨hrate, rfl⟩⟩
  by_cases hdue : (Rate.tick e.counter (Rate.amount x.attackRate)).2 = true
  · exact .inr ⟨0x20, hadsr, hphase, .inr ⟨hrate, hdue, rfl⟩⟩
  · left
    rw [next_of_attack_not_due hadsr hphase hrate hdue]

/-- In notes that stay in attack, decay and sustain mode, the attack climbs in steps of 32. -/
theorem dvd_level_after {settings : Nat → Settings} {t : Nat} (hadsr : ∀ i < t, (settings i).isAdsr = true)
    (hphase : (keyOn.after (fun i => .step (settings i)) t).phase = .attack) :
    32 ∣ (keyOn.after (fun i => .step (settings i)) t).level := by
  induction t with
  | zero => exact Int.dvd_zero _
  | succ t ih =>
    have hforward := ((inRange_keyOn.after (fun i => .step (settings i)) t).behaves (settings t)).forward
    change (next _ (settings t)).phase = .attack at hphase
    change 32 ∣ (next _ (settings t)).level
    have hbefore := Phase.eq_attack (hphase ▸ hforward)
    have hdvd := ih (fun i hi => hadsr i (Nat.lt_succ_of_lt hi)) hbefore
    rcases level_next_of_attack (hadsr t (Nat.lt_succ_self t)) hbefore with hlevel | ⟨amount, hattacks⟩
    · rwa [hlevel]
    · obtain ⟨-, -, hamount⟩ := hattacks.amount_mem
      -- An increment that had been cut off would have ended the attack.
      have hle : (keyOn.after (fun i => .step (settings i)) t).level + amount ≤ maxLevel := by
        by_contra hgt
        have hdecay := (hattacks.next_of_gt (Int.not_le.mp hgt)).2
        exact Phase.noConfusion (hphase.symm.trans hdecay)
      rw [(hattacks.next_of_le hle).1]
      exact Int.dvd_add hdvd hamount

/-- How a note that is neither keyed on again nor released ends its attack, whatever its registers hold in its samples.
When an increment is applied in the attack phase, it ends the attack if and only if it goes beyond the greatest level;
the greatest level is reached without ending the attack if and only if the increment leads to it exactly, which the next
increment makes good; and that never happens to a note that has been in attack, decay and sustain mode all the time. -/
theorem attack_after (settings : Nat → Settings) (t : Nat) (amount : Int)
    (h : (keyOn.after (fun i => .step (settings i)) t).Attacks (settings t) amount) :
    let e := keyOn.after (fun i => .step (settings i)) t
    let e' := keyOn.after (fun i => .step (settings i)) (t + 1)
    e'.level = min (e.level + amount) 0x7FF ∧ e'.phase = (if 0x7FF < e.level + amount then .decay else .attack) ∧
      (e'.level = 0x7FF → (e'.phase = .decay ↔ e.level ≠ 0x7FF - amount)) ∧
      (e'.level = 0x7FF → ∀ x amount', e'.Attacks x amount' → (e'.next x).phase = .decay) ∧
      ((∀ i < t, (settings i).isAdsr = true) → e'.level = 0x7FF → e'.phase = .decay) := by
  intro e e'
  have hamount := h.amount_mem
  have hmax : maxLevel = 0x7FF := rfl
  have hlater (hfull : e'.level = 0x7FF) (x : Settings) (amount' : Int) (h' : e'.Attacks x amount') :
      (e'.next x).phase = .decay := by
    have hpos := h'.amount_mem.1
    exact (h'.next_of_gt (by omega)).2
  by_cases hgt : maxLevel < e.level + amount
  · obtain ⟨hlevel, hphase⟩ : e'.level = maxLevel ∧ e'.phase = .decay := h.next_of_gt hgt
    refine ⟨by omega, hphase.trans (if_pos hgt).symm, fun _ => ?_, hlater, fun _ _ => hphase⟩
    simp only [hphase, true_iff]
    omega
  · obtain ⟨hlevel, hphase⟩ : e'.level = e.level + amount ∧ e'.phase = .attack := h.next_of_le (Int.not_lt.mp hgt)
    refine ⟨by omega, hphase.trans (if_neg hgt).symm, fun hfull => ?_, hlater, fun hadsr hfull => ?_⟩
    · simp only [hphase, reduceCtorEq, false_iff, not_not]
      omega
    · have hdvd : 32 ∣ e.level := dvd_level_after hadsr h.phase
      omega

/-- The second increment of the fastest attack ends it. -/
theorem attack_after_fastest :
    let note : Nat → Settings := fun _ => ⟨0x8F, 0, 0⟩
    (keyOn.after (fun i => .step (note i)) 1).Attacks (note 1) 0x400 ∧
      (keyOn.after (fun i => .step (note i)) 2).phase = .decay := by
  intro note
  have hattacks : (keyOn.after (fun i => .step (note i)) 1).Attacks (note 1) 0x400 :=
    ⟨by decide, by decide, .inl ⟨by decide, rfl⟩⟩
  have hmain := attack_after note 1 0x400 hattacks
  exact ⟨hattacks, hmain.2.1.trans (if_pos (by decide))⟩

/-- A note that goes up to the greatest level and one step back in gain mode before it attacks. -/
def setBack : Nat → Settings
  | 0 => ⟨0, 0, 0x7F⟩
  | 1 => ⟨0, 0, 0xDF⟩
  | 2 => ⟨0, 0, 0x9F⟩
  | _ => ⟨0x8E, 0, 0⟩

/-- When its attack comes to the greatest level, it does not end. -/
theorem attack_goes_on_at_full_level :
    (keyOn.after (fun i => .step (setBack i)) 5).Attacks (setBack 5) 0x20 ∧
      (keyOn.after (fun i => .step (setBack i)) 6).level = 0x7FF ∧
      (keyOn.after (fun i => .step (setBack i)) 6).phase ≠ .decay := by
  have hattack : (keyOn.after (fun i => .step (setBack i)) 6).phase = .attack := by decide
  refine ⟨⟨rfl, by decide, .inr ⟨by decide, by decide, rfl⟩⟩, by decide, ?_⟩
  simp [hattack]

end Envelope

end SnesSound
