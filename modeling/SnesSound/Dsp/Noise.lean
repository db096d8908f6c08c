import SnesSound.Dsp.Rate
import SnesSound.Word

/-!
# Noise

One generator serves all voices: a 15-bit shift register that is shifted down at the rate set in the FLG register. The
bit shifted in is the sum of the two lowest bits.
-/

namespace SnesSound

/-- The noise generator. -/
structure Noise where
  /-- The shift register. -/
  shift : UInt16 := 0x4000
  /-- Rate counter. -/
  counter : Int := Rate.reload
  deriving DecidableEq, Repr, Inhabited

namespace Noise

/-- The shift register after one shift. -/
def next (shift : UInt16) : UInt16 := (((shift <<< 13) ^^^ (shift <<< 14)) &&& (0x4000 : UInt16)) ||| (shift >>> 1)

/-- Clocks the generator for one sample; `amount` is taken from the rate counter. -/
def tick (noise : Noise) (amount : Int) : Noise :=
  match Rate.tick noise.counter amount with
  | (counter, true) => { shift := next noise.shift, counter }
  | (counter, false) => { noise with counter }

/-- The sample that the noise puts in place of a voice's own. -/
def sample (noise : Noise) : Int := signed16 (noise.shift <<< 1)

end Noise

end SnesSound
