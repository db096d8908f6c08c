import SnesSound.Player.Playback
import SnesSound.Player.Services
import SnesSound.Player.Usage
import SnesSound.Player.Wav

/-!
# The player

The player plays its inputs one after the other, in whatever surroundings provide its services. Audio goes to standard
output as it is, or into a WAV file. The file is created before the first input is read, and it gets what was played
until then even if an input fails.
-/

namespace SnesSound.Player

/-- How a run of the program ends. -/
inductive Outcome
  | success
  /-- Something could not be played. -/
  | failure
  /-- The command line is wrong. -/
  | misuse
  deriving DecidableEq, Repr

/-- The exit code of an outcome. -/
def Outcome.exitCode : Outcome → UInt32
  | .success => 0
  | .failure => 1
  | .misuse => 2

section

variable {m : Type → Type} [Monad m]

/-- Writes the entries that the options let through. -/
def report (w : Services m) (o : Options) (entries : List LogEntry) : m Unit :=
  (entries.filter fun e => e.level.verbosity ≤ o.verbosity).forM w.log

/-- Plays one input. -/
def playInput (w : Services m) (o : Options) (input : String) : m (Except Failure ByteArray) := do
  match ← w.read input with
  | .error e => return .error (.unreadable input e)
  | .ok bytes =>
    match Playback.ofInput o input bytes with
    | .error f => return .error f
    | .ok p =>
      report w o p.log.toList
      return .ok p.audio

/-- Plays inputs up to the first one that fails. Audio that is meant for a file is gathered behind `gathered`. -/
def playInputs (w : Services m) (o : Options) : List String → ByteArray → m (ByteArray × Option Failure)
  | [], gathered => return (gathered, none)
  | input :: rest, gathered => do
    match ← playInput w o input with
    | .error f => return (gathered, some f)
    | .ok audio =>
      if o.output.isSome then playInputs w o rest (gathered ++ audio)
      else
        w.emit audio
        playInputs w o rest gathered

/-- Does what the options ask for. -/
def play (w : Services m) (o : Options) : m (Option Failure) := do
  let inputs ← if o.shuffle then w.shuffle o.inputs else pure o.inputs
  match o.output with
  | none => return (← playInputs w o inputs .empty).2
  | some path =>
    match ← w.create path with
    | .error e => return some (.uncreatable path e)
    | .ok () =>
      let (audio, failure?) ← playInputs w o inputs .empty
      w.fill path (Wav.encode audio)
      return failure?

/-- Runs the program with the words of a command line. -/
def run (w : Services m) (words : List String) : m Outcome := do
  match Options.ofWords words with
  | .error .help =>
    w.emit helpText.toUTF8
    return .success
  | .error .version =>
    w.emit versionText.toUTF8
    return .success
  | .error (.usage e) =>
    w.complain ("error: " ++ e.message ++ "\n\n" ++ usageText)
    return .misuse
  | .ok o =>
    match ← play w o with
    | none => return .success
    | some f =>
      w.complain f.render
      return .failure

end

end SnesSound.Player
