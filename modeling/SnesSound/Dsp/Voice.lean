import SnesSound.Dsp.Brr.Cursor
import SnesSound.Dsp.Envelope
import SnesSound.Dsp.Gauss
import SnesSound.Dsp.Registers
import SnesSound.Dsp.Ring

/-!
# Voices

A voice plays one sample at the pitch and with the envelope that its registers ask for. A note starts eight samples
after its key-on was seen. The position of a voice between decoded samples is a number in units of 1/4096 sample:
samples are decoded as long as it is not negative, each one taking 4096 from it, and the pitch is added after every
output sample.
-/

namespace SnesSound

/-- The state of a voice behind its registers. -/
structure Voice where
  /-- Whether the voice makes sound. -/
  playing : Bool := false
  /-- Output samples until a note starts that was keyed on; 0 if there is none. -/
  keyOnDelay : Nat := 0
  /-- Reading position in the sample. -/
  cursor : Brr.Cursor := {}
  /-- The last decoded samples. -/
  ring : Ring 4 := .zeros 0
  /-- Position between decoded samples. -/
  position : Int := 0
  envelope : Envelope := {}
  /-- The last output, before volume. It stays when the voice stops. -/
  output : Int := 0
  deriving DecidableEq, Inhabited

namespace Voice

/-- Position units per decoded sample. -/
def unit : Int := 4096

/-- Output samples between a key-on and the start of its note. -/
def startDelay : Nat := 8

/-- What a voice shows after an output sample. -/
structure Status where
  /-- Output before volume. -/
  output : Int := 0
  envx : UInt8 := 0
  outx : UInt8 := 0
  /-- Whether the end of the sample was passed. -/
  ended : Bool := false
  deriving DecidableEq, Inhabited

/-! ## Notes -/

/-- Starts a note with the sample at the given address. -/
def start (v : Voice) (address : UInt16) : Voice :=
  { v with playing := true, cursor := { address }, ring := v.ring.rewind, position := 3 * unit, envelope := .keyOn }

/-- Ends a note at once. -/
def stop (v : Voice) : Voice := { v with playing := false, envelope := { v.envelope with level := 0 } }

/-- What a soft reset does to a voice: its envelope is released and silent. -/
def reset (v : Voice) : Voice := { v with envelope := { v.envelope.release with level := 0 } }

/-- Announces a note. -/
def keyOn (v : Voice) : Voice := { v with keyOnDelay := startDelay }

/-- Counts down to an announced note and starts it when its time has come, at the address that the sample directory
holds then. -/
def countDown (v : Voice) (m : Memory) (entry : UInt16) : Voice :=
  match v.keyOnDelay with
  | 0 => v
  | 1 => { v with keyOnDelay := 0 }.start (m.readWord entry)
  | n + 2 => { v with keyOnDelay := n + 1 }

/-- Releases a sounding voice and forgets a note that was announced in the meantime. -/
def keyOff (v : Voice) : Voice :=
  if v.playing then { v with envelope := v.envelope.release, keyOnDelay := 0 } else v

/-! ## Decoding -/

/-- Decodes the next sample. -/
def decodeOne (v : Voice) (m : Memory) : Voice :=
  let cursor := v.cursor.openBlock m
  let sample := Brr.decode (cursor.nibble m) cursor.header v.ring.newest v.ring.second
  { v with cursor := cursor.advance, ring := v.ring.push sample, position := v.position - unit }

/-- Puts `n` zero samples in place of decoded ones. -/
def silence : Nat → Voice → Voice
  | 0, v => v
  | n + 1, v => silence n { v with ring := v.ring.push 0, position := v.position - unit }

/-- Goes on with the block at an address. -/
def jump (v : Voice) (address : UInt16) : Voice := { v with cursor := { v.cursor with address } }

/-- Decodes `n` samples; `ended` tells whether the end of the sample was passed before. A sample that loops goes on at
the loop address of its directory entry, any other one stops the voice and is followed by zeros. -/
def decodeMany (m : Memory) (entry : UInt16) : Nat → Voice → Bool → Voice × Bool
  | 0, v, ended => (v, ended)
  | n + 1, v, ended =>
    if v.cursor.atEnd then
      if v.cursor.header.loops then decodeMany m entry n ((v.jump (m.readWord (entry + 2))).decodeOne m) true
      else (silence (n + 1) v.stop, true)
    else decodeMany m entry n (v.decodeOne m) ended

/-- How many samples are to be decoded before the next output. -/
def due (v : Voice) : Nat := (v.position / unit + 1).toNat

/-- Decodes what is due. Returns whether the end of the sample was passed. -/
def decode (v : Voice) (m : Memory) (entry : UInt16) : Voice × Bool := decodeMany m entry v.due v false

/-! ## Output -/

/-- Where the output lies between the two middle samples of the ring. -/
def fraction (v : Voice) : Fin 256 := Fin.ofNat 256 (v.position / 16 % 256).toNat

/-- The interpolated sample. -/
def interpolate (v : Voice) : Int :=
  Gauss.interpolate v.fraction (v.ring.get 0) (v.ring.get 1) (v.ring.get 2) (v.ring.get 3)

/-- The pitch at which a voice plays. Under pitch modulation the output of the voice before scales it. -/
def pitch (r : Registers) (index : Fin 8) (previous : Int) : Int :=
  if 0 < index.val && bit (r.get Register.pmon) index then r.pitch index * (previous + 32768) / 32768
  else r.pitch index

/-- Scales a sample by the level of the envelope. -/
def amplify (v : Voice) (sample : Int) : Int := evenBelow (sample * v.envelope.level / 2048)

/-- One output sample of a sounding voice. `noise` is the current noise sample; the voice goes on at the given pitch. -/
def play (v : Voice) (index : Fin 8) (r : Registers) (m : Memory) (noise pitch : Int) : Voice × Status :=
  let (v, ended) := v.decode m (r.directoryEntry index)
  let output := v.amplify (if bit (r.get Register.non) index then noise else v.interpolate)
  let status := { output, envx := v.envelope.envx, outx := UInt8.ofInt (output / 256), ended }
  ({ v with position := v.position + pitch, output }, status)

/-- One output sample of a voice. `previous` is the output of the voice before. -/
def tick (v : Voice) (index : Fin 8) (r : Registers) (m : Memory) (noise previous : Int) : Voice × Status :=
  let v := v.countDown m (r.directoryEntry index)
  let v := if bit (r.get Register.koff) index then v.keyOff else v
  if v.playing then
    match v.envelope.step (r.adsr1 index) (r.adsr2 index) (r.gain index) with
    | (envelope, .continues) => { v with envelope }.play index r m noise (pitch r index previous)
    | (envelope, .finished) => ({ v with envelope }.stop, {})
  else (v.stop, {})

end Voice

end SnesSound
