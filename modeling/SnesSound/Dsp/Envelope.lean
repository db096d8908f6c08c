import SnesSound.Dsp.Rate
import SnesSound.Word

/-!
# Envelopes

The level of a voice follows an attack, decay, sustain and release envelope or, in gain mode, a level or slope that
the program writes directly. The registers that choose the mode are read again at every sample; the rate counter is
shared by all modes and carries over when the mode changes.
-/

namespace SnesSound

/-- Phase of an envelope. In gain mode only `release` matters. -/
inductive Phase
  | attack
  | decay
  | sustain
  | release
  deriving DecidableEq, Repr, Inhabited

/-- How a custom gain changes the level. -/
inductive Slope
  /-- Down by 32. -/
  | linearDecrease
  /-- Down by 1/256 of the level. -/
  | exponentialDecrease
  /-- Up by 32. -/
  | linearIncrease
  /-- Up by 32 below three quarters, by 8 above. -/
  | bentIncrease
  deriving DecidableEq, Repr

/-- What the envelope registers of a voice ask for. -/
inductive EnvelopeMode
  /-- Attack, decay and sustain at the given rates; decay ends at the given level. -/
  | adsr (attack decay sustain : Nat) (sustainLevel : Int)
  /-- A fixed level. -/
  | fixed (level : Int)
  /-- A slope at the given rate. -/
  | slope (rate : Nat) (slope : Slope)
  deriving DecidableEq, Repr

namespace EnvelopeMode

/-- The slope with a 2-bit number. -/
def slopeOfBits (n : Nat) : Slope :=
  match n % 4 with
  | 0 => .linearDecrease
  | 1 => .exponentialDecrease
  | 2 => .linearIncrease
  | _ => .bentIncrease

/-- Reads the two ADSR registers and the GAIN register of a voice. -/
def ofRegisters (adsr1 adsr2 gain : UInt8) : EnvelopeMode :=
  if bit adsr1 7 then
    .adsr (adsr1.toNat % 16 * 2 + 1) (adsr1.toNat / 16 % 8 * 2 + 16) (adsr2.toNat % 32)
      ((adsr2.toNat / 32 + 1) * 256)
  else if bit gain 7 then .slope (gain.toNat % 32) (slopeOfBits (gain.toNat / 32))
  else .fixed (gain.toNat % 128 * 16)

end EnvelopeMode

/-- The envelope generator of a voice. -/
structure Envelope where
  /-- Level, 0 to 2047. -/
  level : Int := 0
  phase : Phase := .attack
  /-- Rate counter. -/
  counter : Int := Rate.reload
  deriving DecidableEq, Repr, Inhabited

namespace Envelope

/-- Greatest level. -/
def maxLevel : Int := 0x7FF

/-- Whether a voice goes on after a step of its envelope. -/
inductive Outcome
  | continues
  /-- The release has reached level 0. -/
  | finished
  deriving DecidableEq, Repr

/-- The envelope at the start of a note. -/
def keyOn : Envelope := {}

/-- Enters the release phase. -/
def release (e : Envelope) : Envelope := { e with phase := .release }

/-- The upper seven bits of the level, as the ENVX register shows them. -/
def envx (e : Envelope) : UInt8 := UInt8.ofInt (e.level / 16)

/-- Runs the rate counter for one sample. When a step is due, `change` is applied. -/
def atRate (e : Envelope) (rate : Nat) (change : Envelope → Envelope) : Envelope :=
  match Rate.tick e.counter (Rate.amount rate) with
  | (counter, true) => change { e with counter }
  | (counter, false) => { e with counter }

/-- Raises the level in the attack phase; decay begins once the level would pass the greatest one. -/
def rise (amount : Int) (e : Envelope) : Envelope :=
  if e.level + amount > maxLevel then { e with level := maxLevel, phase := .decay }
  else { e with level := e.level + amount }

/-- Lowers the level by a 256th of itself. -/
def fall (e : Envelope) : Envelope := { e with level := e.level - ((e.level - 1) / 256 + 1) }

/-- One step of a custom gain. -/
def follow (slope : Slope) (e : Envelope) : Envelope :=
  match slope with
  | .linearDecrease => { e with level := max (e.level - 0x20) 0 }
  | .exponentialDecrease => e.fall
  | .linearIncrease => { e with level := min (e.level + 0x20) maxLevel }
  | .bentIncrease => { e with level := min (e.level + if e.level < 0x600 then 0x20 else 0x08) maxLevel }

/-- Goes from decay to sustain once the sustain level is reached. -/
def settle (sustainLevel : Int) (e : Envelope) : Envelope :=
  if e.level ≤ sustainLevel then { e with phase := .sustain } else e

/-- One sample outside the release phase. -/
def advance (e : Envelope) (mode : EnvelopeMode) : Envelope :=
  match mode with
  | .adsr attack decay sustain sustainLevel =>
    match e.phase with
    | .attack => if attack = 31 then e.rise 0x400 else e.atRate attack (rise 0x20)
    | .decay => (e.atRate decay fall).settle sustainLevel
    | .sustain => e.atRate sustain fall
    | .release => e
  | .fixed level => { e with level }
  | .slope rate slope => e.atRate rate (follow slope)

/-- One sample, with the voice's current ADSR and GAIN registers. The release falls by 8 in every mode. -/
def step (e : Envelope) (adsr1 adsr2 gain : UInt8) : Envelope × Outcome :=
  if e.phase = .release then
    if e.level ≤ 8 then ({ e with level := 0 }, .finished) else ({ e with level := e.level - 8 }, .continues)
  else (e.advance (.ofRegisters adsr1 adsr2 gain), .continues)

end Envelope

end SnesSound
