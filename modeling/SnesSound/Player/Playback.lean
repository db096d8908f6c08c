import SnesSound.Player.Failure
import SnesSound.Player.Log
import SnesSound.Player.Options
import SnesSound.Session
import SnesSound.Text.Duration

/-!
# Playing one input

An input is loaded into a session of its own and played for as long as the options or its tag say. Audio is asked for
a second at a time, so that a limit of cycles is noticed.

Main statement: playing comes to its end because every run produces a frame or pays off cycles of the one before
(`Schedule.progress`).
-/

namespace SnesSound.Player

/-- What comes of an input. -/
structure Playback where
  audio : ByteArray := .empty
  log : Array LogEntry := #[]

/-! ## Loading -/

/-- What there is to say about a session that was loaded from `size` bytes. -/
def loadEntries (s : Session) (size : Nat) : List LogEntry :=
  let format := (s.format.map Format.name).getD ""
  let cpu := s.machine.cpu
  let registers := s.machine.registers
  let region :=
    Numeral.hex 4 (Snapshot.echoStart registers) ++ " + 0x" ++ Numeral.hex 1 (Snapshot.echoLength registers)
  [⟨.debug, .snapshot, "loading " ++ toString size ++ " bytes of " ++ format ++ " data"⟩] ++
  (s.tag.map fun t => ⟨.info, .snapshot, t.title ++ " - " ++ t.game ++ " (" ++ t.artist ++ ")"⟩).toList ++
  [⟨.debug, .cpu, "restored CPU: PC=" ++ Numeral.hex 4 cpu.pc.toNat ++ " A=" ++ Numeral.hex 2 cpu.a.toNat ++
    " X=" ++ Numeral.hex 2 cpu.x.toNat ++ " Y=" ++ Numeral.hex 2 cpu.y.toNat ++
    " SP=" ++ Numeral.hex 2 cpu.sp.toNat ++ " PSW=" ++ cpu.psw.render ++
    " CONTROL=" ++ Numeral.binary 8 cpu.control.bits.toNat⟩] ++
  (if s.options.clearEcho then [⟨.debug, .snapshot, "clearing echo region " ++ region⟩] else []) ++
  [⟨.debug, .session, "session initialized from " ++ format ++ " snapshot"⟩,
    ⟨.debug, .session, "channel mask " ++ Numeral.binary 8 s.channelMask.toNat⟩]

/-- The session with an input in it. -/
def load (o : Options) (input : String) (bytes : ByteArray) : Except Failure Session := do
  if let some format := o.format then
    if Format.detect? bytes ≠ some format then throw (.otherFormat input format)
  match Session.ofSnapshot bytes { clearEcho := !o.keepEcho } with
  | .ok s => return s.mute (o.mask.getD 0)
  | .error e => throw (.unloadable input e)

/-! ## Playing -/

/-- Play time if neither the options nor the tag say otherwise, in milliseconds. -/
def defaultTime : Nat := 180000

/-- The time to play, in milliseconds. A tag without any length says nothing. -/
def playTime (o : Options) (s : Session) : Nat :=
  match o.seconds with
  | some seconds => 1000 * seconds
  | none =>
    let tagged := (s.tag.map fun t => t.duration + t.fade).getD 0
    if tagged = 0 then defaultTime else tagged

/-- Frames in a number of milliseconds. -/
def framesIn (milliseconds : Nat) : Nat := milliseconds * frameRate / 1000

/-- The entry that announces an input. -/
def announcement (input : String) (s : Session) : LogEntry :=
  ⟨.info, .player, "Playing " ++ input ++
    match s.tag with
    | some t => ": \"" ++ t.title ++ "\" from " ++ t.game ++ " by " ++ t.artist
    | none => ""⟩

namespace Playback

/-- Adds an entry to the log. -/
def note (p : Playback) (e : LogEntry) : Playback := { p with log := p.log.push e }

/-- Cycles that may still be run, if there is a limit. -/
def allowance (limit : Option Nat) (s : Session) : Option Nat := limit.map (· - s.totalCycles)

/-- Runs a session for a second, or for as many frames as are left. -/
def advance (limit : Option Nat) (frames : Nat) (s : Session) : Session × ByteArray :=
  s.run (allowance limit s) (min frames frameRate * bytesPerFrame)

/-- Frames are left or cycles are owed less and less. -/
theorem advance_progress {limit : Option Nat} {frames : Nat} {s : Session} (hf : frames ≠ 0)
    (hl : allowance limit s ≠ some 0) :
    frames - (advance limit frames s).2.size / bytesPerFrame < frames ∨
      frames - (advance limit frames s).2.size / bytesPerFrame = frames ∧
        (advance limit frames s).1.owed < s.owed := by
  have hpos : 0 < min frames frameRate * bytesPerFrame / bytesPerFrame := by
    simp only [frameRate, bytesPerFrame]
    omega
  have h : 0 < (s.schedule (allowance limit s) (min frames frameRate * bytesPerFrame)).frameCount ∨
      (s.schedule (allowance limit s) (min frames frameRate * bytesPerFrame)).owed < s.owed :=
    Schedule.progress hpos hl
  have hsize : (advance limit frames s).2.size / bytesPerFrame
      = (s.schedule (allowance limit s) (min frames frameRate * bytesPerFrame)).frameCount := by
    rw [advance, Session.size_run]
    simp [bytesPerFrame]
  rw [hsize, advance, Session.owed_run]
  omega

/-- Plays `frames` more frames of a session. -/
def extend (limit : Option Nat) (frames : Nat) (s : Session) (p : Playback) : Playback :=
  if frames = 0 then p
  else if allowance limit s = some 0 then p.note ⟨.warn, .player, "Cycle limit reached"⟩
  else
    let next := advance limit frames s
    let noticed := next.1.takeNotices
    extend limit (frames - next.2.size / bytesPerFrame) noticed.2
      { audio := p.audio ++ next.2, log := p.log ++ noticed.1.map LogEntry.ofNotice }
termination_by (frames, s.owed)
decreasing_by
  rename_i hf hl
  rcases advance_progress hf hl with h | ⟨h, ho⟩
  · exact .left _ _ h
  · rw [show frames - next.2.size / bytesPerFrame = frames from h]
    exact .right _ ho

/-- Plays an input. -/
def ofInput (o : Options) (input : String) (bytes : ByteArray) : Except Failure Playback := do
  let s ← load o input bytes
  let time := playTime o s
  let frames := framesIn time
  let entries := loadEntries s bytes.size ++ [announcement input s,
    ⟨.debug, .player, toString frames ++ " frames (" ++ Duration.render time ++ ") to play"⟩]
  return extend o.cycles frames s { log := entries.toArray }

end Playback

end SnesSound.Player
