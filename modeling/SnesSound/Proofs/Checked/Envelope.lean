import SnesSound.Dsp.Envelope
import SnesSound.Dsp.Noise
import SnesSound.Proofs.Checked.Basic

/-!
# Checked envelopes

Rate counters stay between 1 and what they are loaded with, and levels between 0 and the greatest one
(`Envelope.InRange`), whatever the registers of a voice ask for and however often that changes.

Main statements: neither a step of an envelope nor the clock of the noise generator stops the engine, and they keep
their ranges (`stepEnvelope_eq`, `tickNoise_eq`).
-/

namespace SnesSound

/-! ## Ranges -/

/-- Whether a rate counter has not run out. -/
def Rate.InRange (counter : Int) : Prop := 1 ≤ counter ∧ counter ≤ Rate.reload

/-- Whether the rates of a mode exist and the level that it sets does. -/
def EnvelopeMode.InRange : EnvelopeMode → Prop
  | .adsr attack decay sustain _ => attack < 32 ∧ decay < 32 ∧ sustain < 32
  | .fixed level => 0 ≤ level ∧ level ≤ Envelope.maxLevel
  | .slope rate _ => rate < 32

/-- Whether the level and the counter of an envelope are ones that it can get to. -/
structure Envelope.InRange (e : Envelope) : Prop where
  level : 0 ≤ e.level ∧ e.level ≤ maxLevel
  counter : Rate.InRange e.counter

theorem Rate.amount_mem (rate : Nat) : 0 ≤ amount rate ∧ amount rate ≤ reload := by
  have hall : ∀ i : Fin 32, 0 ≤ amounts[i] ∧ amounts[i] ≤ reload := by decide +kernel
  exact hall ⟨rate % 32, Nat.mod_lt _ (by decide)⟩

theorem Envelope.maxLevel_nonneg : 0 ≤ maxLevel := by decide

theorem Envelope.InRange.settle {e : Envelope} (h : e.InRange) (sustainLevel : Int) :
    (e.settle sustainLevel).InRange := by
  unfold Envelope.settle
  split
  · exact ⟨h.level, h.counter⟩
  · exact h

theorem EnvelopeMode.inRange_ofRegisters (adsr1 adsr2 gain : UInt8) : (ofRegisters adsr1 adsr2 gain).InRange := by
  unfold ofRegisters
  split
  · exact ⟨by omega, by omega, by omega⟩
  · split
    · exact Nat.mod_lt _ (by decide)
    · change (0 : Int) ≤ _ ∧ _ ≤ (2047 : Int)
      omega

namespace Checked

variable {e : Envelope}

/-! ## Rate counters -/

/-- Takes what a rate selects from a counter. Returns the new counter and whether a step is due. -/
def tickRate (counter : Int) (rate : Nat) : Checked (Int × Bool) := do
  let amount ← cell Rate.amounts rate
  let rest ← i32 (counter - amount)
  return if rest ≤ 0 then (Rate.reload, true) else (rest, false)

theorem tickRate_eq {counter : Int} (h : Rate.InRange counter) {rate : Nat} (hr : rate < 32) :
    tickRate counter rate = .ok (Rate.tick counter (Rate.amount rate)) ∧
      Rate.InRange (Rate.tick counter (Rate.amount rate)).1 := by
  have hamount := Rate.amount_mem rate
  have hlow := h.1
  have hhigh : counter ≤ 30720 := h.2
  have hreload : Rate.reload = 30720 := rfl
  have hcell : Rate.amounts[rate] = Rate.amount rate := by simp only [Rate.amount, Nat.mod_eq_of_lt hr]
  rw [tickRate, cell_ok hr, ok_bind, hcell, i32_ok (by omega)]
  exact ⟨rfl, Rate.tick_mem h.2 hamount.1⟩

/-- Clocks the noise generator for one sample at a rate. -/
def tickNoise (noise : Noise) (rate : Nat) : Checked Noise := do
  let next ← tickRate noise.counter rate
  return { shift := if next.2 then Noise.next noise.shift else noise.shift, counter := next.1 }

/-- The noise generator never stops the engine. -/
theorem tickNoise_eq {noise : Noise} (h : Rate.InRange noise.counter) {rate : Nat} (hr : rate < 32) :
    tickNoise noise rate = .ok (noise.tick (Rate.amount rate)) ∧
      Rate.InRange (noise.tick (Rate.amount rate)).counter := by
  obtain ⟨htick, hrange⟩ := tickRate_eq h hr
  rw [tickNoise, htick, ok_bind, Noise.tick]
  rcases hnext : Rate.tick noise.counter (Rate.amount rate) with ⟨counter, due⟩
  rw [hnext] at hrange
  cases due <;> exact ⟨rfl, hrange⟩

/-! ## Envelopes -/

/-- Reads the two ADSR registers and the GAIN register of a voice. -/
def envelopeMode (adsr1 adsr2 gain : UInt8) : Checked EnvelopeMode :=
  if bit adsr1 7 then do
    let attack ← natural 8 (adsr1.toNat % 16 * 2 + 1)
    let decay ← natural 8 (adsr1.toNat / 16 % 8 * 2 + 16)
    let sustainLevel ← i32 ((adsr2.toNat / 32 + 1) * 256)
    return .adsr attack decay (adsr2.toNat % 32) sustainLevel
  else if bit gain 7 then return .slope (gain.toNat % 32) (EnvelopeMode.slopeOfBits (gain.toNat / 32))
  else return .fixed (gain.toNat % 128 * 16)

/-- Runs the rate counter for one sample. When a step is due, `change` is applied. -/
def atRate (e : Envelope) (rate : Nat) (change : Envelope → Checked Envelope) : Checked Envelope := do
  let next ← tickRate e.counter rate
  if next.2 then change { e with counter := next.1 } else return { e with counter := next.1 }

/-- Raises the level in the attack phase. -/
def rise (amount : Int) (e : Envelope) : Checked Envelope := do
  let level ← i32 (e.level + amount)
  return if level > Envelope.maxLevel then { e with level := Envelope.maxLevel, phase := .decay } else { e with level }

/-- Lowers the level by a 256th of itself. -/
def fall (e : Envelope) : Checked Envelope := do
  let below ← i32 (e.level - 1)
  let amount ← i32 (below / 256 + 1)
  let level ← i32 (e.level - amount)
  return { e with level }

/-- One step of a custom gain. -/
def follow (slope : Slope) (e : Envelope) : Checked Envelope :=
  match slope with
  | .linearDecrease => do
    let level ← i32 (e.level - 0x20)
    return { e with level := max level 0 }
  | .exponentialDecrease => fall e
  | .linearIncrease => do
    let level ← i32 (e.level + 0x20)
    return { e with level := min level Envelope.maxLevel }
  | .bentIncrease => do
    let level ← i32 (e.level + if e.level < 0x600 then 0x20 else 0x08)
    return { e with level := min level Envelope.maxLevel }

/-- One sample outside the release phase. -/
def advanceEnvelope (e : Envelope) (mode : EnvelopeMode) : Checked Envelope :=
  match mode with
  | .adsr attack decay sustain sustainLevel =>
    match e.phase with
    | .attack => if attack = 31 then rise 0x400 e else atRate e attack (rise 0x20)
    | .decay => Envelope.settle sustainLevel <$> atRate e decay fall
    | .sustain => atRate e sustain fall
    | .release => return e
  | .fixed level => return { e with level }
  | .slope rate slope => atRate e rate (follow slope)

/-- One sample, with the voice's current ADSR and GAIN registers. -/
def stepEnvelope (e : Envelope) (adsr1 adsr2 gain : UInt8) : Checked (Envelope × Envelope.Outcome) :=
  if e.phase = .release then do
    let level ← i32 (e.level - 8)
    return if level ≤ 0 then ({ e with level := 0 }, .finished) else ({ e with level }, .continues)
  else do
    let mode ← envelopeMode adsr1 adsr2 gain
    let e ← advanceEnvelope e mode
    return (e, .continues)

theorem envelopeMode_eq (adsr1 adsr2 gain : UInt8) :
    envelopeMode adsr1 adsr2 gain = .ok (EnvelopeMode.ofRegisters adsr1 adsr2 gain) := by
  have hlt := adsr2.toNat_lt
  unfold envelopeMode EnvelopeMode.ofRegisters
  split
  · rw [natural_ok (by omega), ok_bind, natural_ok (by omega), ok_bind, i32_ok (by omega)]
    rfl
  · split <;> rfl

/-- A step that is due whenever the counter runs out. -/
theorem atRate_eq (h : e.InRange) {rate : Nat} (hr : rate < 32) {f : Envelope → Checked Envelope}
    {g : Envelope → Envelope} (hf : ∀ e : Envelope, e.InRange → f e = .ok (g e) ∧ (g e).InRange) :
    atRate e rate f = .ok (e.atRate rate g) ∧ (e.atRate rate g).InRange := by
  obtain ⟨htick, hcounter⟩ := tickRate_eq h.counter hr
  rw [atRate, htick, ok_bind, Envelope.atRate]
  rcases hnext : Rate.tick e.counter (Rate.amount rate) with ⟨counter, due⟩
  rw [hnext] at hcounter
  cases due with
  | true => exact hf _ ⟨h.level, hcounter⟩
  | false => exact ⟨rfl, h.level, hcounter⟩

theorem rise_eq {amount : Int} (ha : 0 ≤ amount ∧ amount ≤ 0x400) (e : Envelope) (h : e.InRange) :
    rise amount e = .ok (e.rise amount) ∧ (e.rise amount).InRange := by
  have hlevel : 0 ≤ e.level ∧ e.level ≤ 2047 := h.level
  rw [rise, i32_ok (by omega), ok_bind, Envelope.rise]
  split
  · exact ⟨rfl, ⟨Envelope.maxLevel_nonneg, Int.le_refl _⟩, h.counter⟩
  next hle => exact ⟨rfl, ⟨by simp only; omega, Int.not_lt.mp hle⟩, h.counter⟩

theorem fall_eq (e : Envelope) (h : e.InRange) : fall e = .ok e.fall ∧ e.fall.InRange := by
  have hlevel : 0 ≤ e.level ∧ e.level ≤ 2047 := h.level
  rw [fall, i32_ok (by omega), ok_bind, i32_ok (by omega), ok_bind, i32_ok (by omega)]
  refine ⟨rfl, ?_, h.counter⟩
  change 0 ≤ e.level - ((e.level - 1) / 256 + 1) ∧ e.level - ((e.level - 1) / 256 + 1) ≤ 2047
  omega

theorem follow_eq (slope : Slope) (e : Envelope) (h : e.InRange) :
    follow slope e = .ok (e.follow slope) ∧ (e.follow slope).InRange := by
  have hlevel : 0 ≤ e.level ∧ e.level ≤ 2047 := h.level
  have hmax : Envelope.maxLevel = 2047 := rfl
  cases slope with
  | exponentialDecrease => exact fall_eq e h
  | linearDecrease =>
    rw [follow, i32_ok (by omega)]
    exact ⟨rfl, by simp only [Envelope.follow]; omega, h.counter⟩
  | linearIncrease =>
    rw [follow, i32_ok (by omega)]
    exact ⟨rfl, by simp only [Envelope.follow]; omega, h.counter⟩
  | bentIncrease =>
    rw [follow, i32_ok (by split <;> omega)]
    exact ⟨rfl, by simp only [Envelope.follow]; split <;> omega, h.counter⟩

theorem advanceEnvelope_eq (h : e.InRange) {mode : EnvelopeMode} (hm : mode.InRange) :
    advanceEnvelope e mode = .ok (e.advance mode) ∧ (e.advance mode).InRange := by
  unfold advanceEnvelope Envelope.advance
  cases mode with
  | adsr attack decay sustain sustainLevel =>
    cases e.phase with
    | attack =>
      dsimp only
      split
      · exact rise_eq (by decide) e h
      · exact atRate_eq h hm.1 (rise_eq (by decide))
    | decay =>
      obtain ⟨hrate, hrange⟩ := atRate_eq h hm.2.1 fall_eq
      exact ⟨by simp only [hrate, map_ok], hrange.settle sustainLevel⟩
    | sustain => exact atRate_eq h hm.2.2 fall_eq
    | release => exact ⟨rfl, h⟩
  | fixed level => exact ⟨rfl, hm, h.counter⟩
  | slope rate slope => exact atRate_eq h hm (follow_eq slope)

/-- A step of an envelope never stops the engine. -/
theorem stepEnvelope_eq (h : e.InRange) (adsr1 adsr2 gain : UInt8) :
    stepEnvelope e adsr1 adsr2 gain = .ok (e.step adsr1 adsr2 gain) ∧ (e.step adsr1 adsr2 gain).1.InRange := by
  have hlevel : 0 ≤ e.level ∧ e.level ≤ 2047 := h.level
  unfold stepEnvelope Envelope.step
  split
  · rw [i32_ok (by omega), ok_bind]
    by_cases hle : e.level ≤ 8
    · rw [if_pos hle, if_pos (by omega)]
      exact ⟨rfl, ⟨Int.le_refl _, Envelope.maxLevel_nonneg⟩, h.counter⟩
    · rw [if_neg hle, if_neg (by omega)]
      exact ⟨rfl, ⟨by simp only; omega, Int.le_trans (Int.sub_le_self _ (by decide)) hlevel.2⟩, h.counter⟩
  · obtain ⟨hadvance, hrange⟩ := advanceEnvelope_eq h (EnvelopeMode.inRange_ofRegisters adsr1 adsr2 gain)
    rw [envelopeMode_eq, ok_bind, hadvance]
    exact ⟨rfl, hrange⟩

end Checked

end SnesSound
