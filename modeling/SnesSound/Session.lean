import SnesSound.Session.Schedule
import SnesSound.Snapshot

/-!
# Sessions

A session is a machine that a host drives: it loads snapshots, asks for audio, writes and reads the ports, and mutes
voices. Audio comes as bytes, two little-endian 16-bit samples per frame, left before right.

Main statements: a run does what its schedule says (`size_run`, `owed_run`).
-/

namespace SnesSound

/-- Output frames per second. -/
def frameRate : Nat := 32000

/-- Bytes of an output frame. -/
def bytesPerFrame : Nat := 4

namespace Frame

/-- A sample as two bytes, low byte first. -/
def pushSample (bytes : ByteArray) (sample : Int) : ByteArray :=
  let w := UInt16.ofInt sample
  (bytes.push (lowByte w)).push (highByte w)

/-- A frame as four bytes behind others, left before right. -/
def push (bytes : ByteArray) (frame : Frame) : ByteArray := pushSample (pushSample bytes frame.left) frame.right

/-- Frames as bytes. -/
def encode (frames : Array Frame) : ByteArray := frames.foldl push .empty

theorem size_push (bytes : ByteArray) (frame : Frame) : (push bytes frame).size = bytes.size + bytesPerFrame := by
  simp [push, pushSample, bytesPerFrame]

theorem size_encode (frames : Array Frame) : (encode frames).size = bytesPerFrame * frames.size := by
  have h : ∀ (l : List Frame) (bytes : ByteArray),
      (l.foldl push bytes).size = bytes.size + bytesPerFrame * l.length := by
    intro l
    induction l with
    | nil => simp
    | cons frame l ih =>
      intro bytes
      rw [List.foldl_cons, ih, size_push, List.length_cons, Nat.mul_succ]
      omega
  simp [encode, ← Array.foldl_toList, h]

end Frame

/-- Why a host may not access a port. -/
inductive PortError
  /-- There is no such port. -/
  | portOutOfRange (port : Nat)
  /-- The value does not fit into a byte. -/
  | dataOutOfRange (data : Int)
  deriving DecidableEq, Repr

namespace PortError

/-- The text of an error. -/
def message : PortError → String
  | .portOutOfRange port => "Port " ++ toString port ++ " does not exist, valid ports are 0-3"
  | .dataOutOfRange data => "Port data " ++ toString data ++ " does not fit into a byte"

/-- The stable name of an error. -/
def code : PortError → String
  | .portOutOfRange _ => "spcemu::port_out_of_range"
  | .dataOutOfRange _ => "spcemu::data_out_of_range"

/-- Advice about an error. -/
def help : PortError → Option String
  | .portOutOfRange _ => none
  | .dataOutOfRange _ => some "Valid values are -128 to 255; negative values are stored in two's complement"

end PortError

/-- A machine driven by a host. -/
structure Session where
  machine : Machine := .powerOn
  /-- Cycles of the last frame that are still to be run. -/
  owed : Nat := 0
  /-- Voices that are left out of the mix. -/
  channelMask : UInt8 := 0
  /-- How snapshots are loaded. -/
  options : LoadOptions := {}
  /-- Format of the loaded snapshot. -/
  format : Option Format := none
  /-- Tag of the loaded snapshot. -/
  tag : Option Tag := none

namespace Session

instance : Inhabited Session := ⟨{}⟩

/-! ## Loading -/

/-- The session with the machine of a snapshot; all voices are audible. -/
def install (s : Session) (snapshot : Snapshot) : Session :=
  { machine := snapshot.restore s.options, options := s.options, format := some snapshot.format, tag := snapshot.tag }

/-- Loads a snapshot. -/
def load (s : Session) (bytes : ByteArray) : Except LoadError Session :=
  match Snapshot.parse? bytes with
  | some snapshot => .ok (s.install snapshot)
  | none => .error .unrecognizedFormat

/-- A new session with a snapshot. -/
def ofSnapshot (bytes : ByteArray) (options : LoadOptions) : Except LoadError Session :=
  ({ options } : Session).load bytes

/-! ## Running -/

/-- Carries out a schedule. -/
def follow (s : Session) (schedule : Schedule) : Session × Array Frame :=
  let m := s.machine.runCpu schedule.paid
  let (m, frames) := m.produce s.channelMask schedule.frames #[]
  if schedule.part = 0 then ({ s with machine := m, owed := schedule.owed }, frames)
  else
    let (frame, m) := m.tick s.channelMask
    ({ s with machine := m.runCpu schedule.part, owed := schedule.owed }, frames.push frame)

/-- The schedule of a run of at most `maxCycles` cycles, if given, and at most `maxBytes` bytes of audio. -/
def schedule (s : Session) (maxCycles : Option Nat) (maxBytes : Nat) : Schedule :=
  .make s.owed maxCycles (maxBytes / bytesPerFrame)

/-- Runs the machine. Returns the audio that it produced. -/
def run (s : Session) (maxCycles : Option Nat) (maxBytes : Nat) : Session × ByteArray :=
  let (s, frames) := s.follow (s.schedule maxCycles maxBytes)
  (s, Frame.encode frames)

@[simp] theorem owed_follow (s : Session) (schedule : Schedule) : (s.follow schedule).1.owed = schedule.owed := by
  unfold follow
  dsimp only
  split <;> rfl

@[simp] theorem size_follow (s : Session) (schedule : Schedule) :
    (s.follow schedule).2.size = schedule.frameCount := by
  unfold follow Schedule.frameCount
  dsimp only
  split <;> simp

/-- A run leaves the cycles that its schedule leaves. -/
theorem owed_run (s : Session) (maxCycles : Option Nat) (maxBytes : Nat) :
    (s.run maxCycles maxBytes).1.owed = (s.schedule maxCycles maxBytes).owed := owed_follow ..

/-- A run produces the frames of its schedule. -/
theorem size_run (s : Session) (maxCycles : Option Nat) (maxBytes : Nat) :
    (s.run maxCycles maxBytes).2.size = bytesPerFrame * (s.schedule maxCycles maxBytes).frameCount := by
  simp [run, Frame.size_encode]

/-- CPU cycles since the machine was created. -/
def totalCycles (s : Session) : Nat := s.machine.cpu.cycles

/-! ## Ports and voices -/

/-- The port with a number. -/
def port (number : Nat) : Except PortError (Fin 4) := (Ports.select number).mapError fun e => .portOutOfRange e.number

/-- Writes to a port; negative values are stored in two's complement. -/
def writePort (s : Session) (number : Nat) (data : Int) : Except PortError Session := do
  let p ← port number
  if data < -128 ∨ 255 < data then throw (.dataOutOfRange data)
  let m := s.machine
  let cpu := { m.cpu with ports := m.cpu.ports.hostWrite p (UInt8.ofInt data) }
  return { s with machine := { m with cpu } }

/-- Reads from a port. -/
def readPort (s : Session) (number : Nat) : Except PortError UInt8 := do
  return s.machine.cpu.ports.hostRead (← port number)

/-- Leaves voices out of the mix; bit `n` stands for voice `n`. -/
def mute (s : Session) (mask : UInt8) : Session := { s with channelMask := mask }

/-- Takes away the notices that the CPU has gathered. -/
def takeNotices (s : Session) : Array Notice × Session :=
  let m := s.machine
  (m.cpu.notices, { s with machine := { m with cpu := { m.cpu with notices := #[] } } })

end Session

end SnesSound
