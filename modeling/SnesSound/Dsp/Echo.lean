import SnesSound.Dsp.Registers
import SnesSound.Dsp.Ring
import SnesSound.Memory

/-!
# Echo

The echo unit keeps a delay line in audio RAM. At every sample it reads the oldest frame of the line, passes it
through an eight-tap filter, and writes the sum of the voices plus some of the filter's output in its place.

Main statement: the offset runs around the delay line (`nextOffset_eq_mod`).
-/

namespace SnesSound

/-- The echo unit. -/
structure Echo where
  /-- Byte offset of the current frame in the delay line. -/
  offset : Nat := 0
  /-- The last eight samples read from the delay line, for each channel. -/
  history : Stereo (Ring 8) := .both (.zeros 0)
  deriving DecidableEq

namespace Echo

instance : Inhabited Echo := ⟨{}⟩

/-- The sample that a word of the delay line stands for; its lowest bit is dropped. -/
def sampleOfWord (w : UInt16) : Int := signed16 w / 2

/-- The word that stands for a sample. -/
def wordOfSample (x : Int) : UInt16 := UInt16.ofInt x

/-- The filter: each sample is weighted by the coefficient of its tap. -/
def filter (r : Registers) (h : Ring 8) : Int :=
  clamp16 (Fin.foldl 8 (fun sum tap => sum + h.get tap * r.coefficient tap / 64) 0)

/-- The address of the current frame. -/
def address (e : Echo) (r : Registers) : UInt16 := r.echoStart + UInt16.ofNat e.offset

/-- The frame of the delay line at an address. -/
def readFrame (m : Memory) (address : UInt16) : Frame :=
  ⟨sampleOfWord (m.readWord address), sampleOfWord (m.readWord (address + 2))⟩

/-- Stores a frame in the delay line. -/
def writeFrame (m : Memory) (address : UInt16) (frame : Frame) : Memory :=
  (m.writeWord address (wordOfSample frame.left)).writeWord (address + 2) (wordOfSample frame.right)

/-- The offset after one frame. -/
def nextOffset (offset length : Nat) : Nat := if length ≤ offset + 4 then 0 else offset + 4

/-- What is written back for a channel. -/
def recirculate (feedback input filtered : Int) : Int := evenBelow (clamp16 (input + filtered * feedback / 128))

/-- One sample. `input` is the sum of the voices with echo. Returns the output of the filter. -/
def process (e : Echo) (r : Registers) (m : Memory) (input : Frame) : Frame × Echo × Memory :=
  let address := e.address r
  let history := e.history.zipWith Ring.push (readFrame m address)
  let filtered := history.map (filter r)
  let m := if r.echoReadOnly then m else writeFrame m address (input.zipWith (recirculate r.feedback) filtered)
  (filtered, { offset := nextOffset e.offset r.echoLength, history }, m)

/-- The offset goes from frame to frame and starts over at the end of the delay line. -/
theorem nextOffset_eq_mod {offset length : Nat} (hl : 4 ∣ length) (ho : 4 ∣ offset) (h : offset < length) :
    nextOffset offset length = (offset + 4) % length := by
  unfold nextOffset
  split
  next hle => rw [show offset + 4 = length by omega, Nat.mod_self]
  next hlt => rw [Nat.mod_eq_of_lt (by omega)]

end Echo

end SnesSound
