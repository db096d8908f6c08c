import SnesSound.Dsp.Echo
import SnesSound.Dsp.Noise
import SnesSound.Dsp.Voice

/-!
# The sound unit

The sound unit produces one stereo frame per tick. A tick sees the key registers, clocks the noise generator, runs the
eight voices in ascending order, since each may be modulated by the one before, mixes their outputs, and passes the
mix of the voices with echo through the echo unit. Voices may be left out of the mix; they run all the same.
-/

namespace SnesSound

/-- The state of the sound unit behind its registers. -/
structure Dsp where
  voices : Vector Voice 8 := Vector.replicate 8 {}
  noise : Noise := {}
  echo : Echo := {}
  /-- The last frame. -/
  lastFrame : Frame := .both 0
  deriving DecidableEq

namespace Dsp

instance : Inhabited Dsp := ⟨{}⟩

/-! ## Key registers -/

/-- The voices that a tick keys on: those whose KON bit is set while their KOFF bit is clear. -/
def starting (r : Registers) : UInt8 := r.get Register.kon &&& ~~~r.get Register.koff

/-- What a tick does to the voices before it runs them. -/
def prepareVoices (voices : Vector Voice 8) (r : Registers) : Vector Voice 8 :=
  let voices := if r.softReset then voices.map Voice.reset else voices
  voices.mapFinIdx fun i v _ => if bit (starting r) i then v.keyOn else v

/-- What a tick does to the key registers: every KON bit clears the ENDX bit of its voice, and the bits of the voices
that are keyed on are used up. -/
def prepareRegisters (r : Registers) : Registers :=
  (r.store Register.endx (r.get Register.endx &&& ~~~r.get Register.kon)).store Register.kon
    (r.get Register.kon &&& ~~~starting r)

/-! ## Voices -/

/-- The voices and registers while a tick runs the voices one after the other, and the outputs so far. -/
structure Pass where
  voices : Vector Voice 8
  registers : Registers
  outputs : Vector Int 8 := Vector.replicate 8 0

/-- The registers after a voice has run. -/
def showStatus (r : Registers) (index : Fin 8) (status : Voice.Status) : Registers :=
  let r := r.showVoice index status.envx status.outx
  if status.ended then r.store Register.endx (withBit (r.get Register.endx) index true) else r

/-- Takes in a voice that has run. -/
def Pass.put (p : Pass) (index : Fin 8) (voice : Voice) (status : Voice.Status) : Pass where
  voices := p.voices.set index voice index.isLt
  registers := showStatus p.registers index status
  outputs := p.outputs.set index status.output index.isLt

/-- The output of the voice before a given one; the first voice has none before it. -/
def Pass.previous (p : Pass) (index : Fin 8) : Int := if h : 0 < index.val then p.outputs[index.val - 1] else 0

/-- Runs one voice. -/
def Pass.run (m : Memory) (noise : Int) (p : Pass) (index : Fin 8) : Pass :=
  let (voice, status) := (p.voices.get index).tick index p.registers m noise (p.previous index)
  p.put index voice status

/-- Runs all voices. -/
def runVoices (voices : Vector Voice 8) (r : Registers) (m : Memory) (noise : Int) : Pass :=
  Fin.foldl 8 (Pass.run m noise) { voices, registers := r }

/-! ## Mixing -/

/-- Scales a pair of samples by a pair of volumes. -/
def scale (samples volume : Stereo Int) : Stereo Int := samples.zipWith (fun x v => x * v / 128) volume

/-- Adds two pairs of samples with saturation. -/
def add (s t : Stereo Int) : Stereo Int := s.zipWith (fun x y => clamp16 (x + y)) t

/-- Sums the outputs of the voices that `included` selects, each at its volume. -/
def sum (r : Registers) (outputs : Vector Int 8) (included : Fin 8 → Bool) : Stereo Int :=
  Fin.foldl 8
    (fun total i => if included i then add total (scale (.both (outputs.get i)) (r.volume i)) else total) (.both 0)

/-- The output frame, from the sum of the voices and the output of the echo filter. -/
def finish (r : Registers) (main filtered : Stereo Int) : Frame :=
  if r.muted then .both 0 else add (scale main r.mainVolume) (scale filtered r.echoVolume)

/-! ## Ticks -/

/-- Produces one frame. The voices whose bits are set in `mask` are left out of both sums. -/
def tick (d : Dsp) (r : Registers) (m : Memory) (mask : UInt8) : Frame × Dsp × Registers × Memory :=
  let voices := prepareVoices d.voices r
  let r := prepareRegisters r
  let noise := d.noise.tick r.noiseAmount
  let pass := runVoices voices r m noise.sample
  let r := pass.registers
  let main := sum r pass.outputs fun i => !bit mask i
  let wet := sum r pass.outputs fun i => !bit mask i && bit (r.get Register.eon) i
  let (filtered, echo, m) := d.echo.process r m wet
  let lastFrame := finish r main filtered
  (lastFrame, { voices := pass.voices, noise, echo, lastFrame }, r, m)

end Dsp

end SnesSound
