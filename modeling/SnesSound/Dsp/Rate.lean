/-!
# Rate counters

Envelopes and the noise generator move in steps that are not due at every sample. Each has a counter that loses, at
every sample, the amount that its 5-bit rate selects; when the counter runs out it is reloaded and one step is taken.
The reload does not depend on what was left, so a step is taken at the sample at which the amounts taken since the
last one first reach `reload`.
-/

namespace SnesSound.Rate

/-- What a counter is loaded with. -/
def reload : Int := 0x7800

/-- The amount that each rate takes from a counter: rate 0 never runs out, rate 31 does at every sample. -/
def amounts : Vector Int 32 := #v[
  0x0000, 0x000F, 0x0014, 0x0018, 0x001E, 0x0028, 0x0030, 0x003C,
  0x0050, 0x0060, 0x0078, 0x00A0, 0x00C0, 0x00F0, 0x0140, 0x0180,
  0x01E0, 0x0280, 0x0300, 0x03C0, 0x0500, 0x0600, 0x0780, 0x0A00,
  0x0C00, 0x0F00, 0x1400, 0x1800, 0x1E00, 0x2800, 0x3C00, 0x7800]

/-- The amount that a rate takes from a counter; only the lowest five bits of the rate count. -/
def amount (rate : Nat) : Int := amounts[rate % 32]

/-- Takes an amount from a counter. Returns the new counter and whether a step is due. -/
def tick (counter amount : Int) : Int × Bool :=
  if counter - amount ≤ 0 then (reload, true) else (counter - amount, false)

/-- A counter that has not run out stays between 1 and `reload`, whatever is taken from it. -/
theorem tick_mem {counter taken : Int} (h : counter ≤ reload) (ht : 0 ≤ taken) :
    1 ≤ (tick counter taken).1 ∧ (tick counter taken).1 ≤ reload := by
  unfold tick
  unfold reload at *
  split
  · simp
  · simp only
    omega

end SnesSound.Rate
