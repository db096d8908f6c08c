import SnesSound.Cpu.State
import SnesSound.Text.Numeral

/-!
# The log

What the player and the parts below it have to say about their work. How and where it is written down is not decided
here, except for the text of an entry.
-/

namespace SnesSound.Player

/-- How much an entry matters. -/
inductive LogLevel
  | warn
  | info
  | debug
  deriving DecidableEq, Repr

namespace LogLevel

/-- The name of a level, padded to five characters. -/
def label : LogLevel → String
  | .warn => "WARN "
  | .info => "INFO "
  | .debug => "DEBUG"

/-- How verbose a log has to be to show entries of a level. -/
def verbosity : LogLevel → Nat
  | .warn => 0
  | .info => 1
  | .debug => 2

end LogLevel

/-- The part that has something to say. -/
inductive LogSource
  | cpu
  | snapshot
  | session
  | player
  deriving DecidableEq, Repr

/-- The name that stands in front of an entry. -/
def LogSource.label : LogSource → String
  | .cpu => "spcemu::smp"
  | .snapshot => "spcemu::snapshot"
  | .session => "spcemu::session"
  | .player => "spcplay"

/-- An entry of the log. -/
structure LogEntry where
  level : LogLevel
  source : LogSource
  message : String
  deriving DecidableEq, Repr

namespace LogEntry

/-- An entry as text, without the time. -/
def render (e : LogEntry) : String := e.level.label ++ " [" ++ e.source.label ++ "] " ++ e.message

/-- The name of a state of the CPU. -/
def stateName : RunState → String
  | .running => "Running"
  | .sleeping => "Sleeping"
  | .stopped => "Stopped"

/-- The entry about a notice of the CPU. -/
def ofNotice : Notice → LogEntry
  | .halted state address =>
    ⟨.warn, .cpu, "CPU halted (" ++ stateName state ++ ") at " ++ Numeral.hex 4 address.toNat⟩
  | .testWritten value => ⟨.warn, .cpu, "TEST = " ++ Numeral.binary 8 value.toNat ++ ", ignored"⟩

end LogEntry

end SnesSound.Player
