import SnesSound.Player.Argument
import SnesSound.Snapshot
import SnesSound.Text.Numeral

/-!
# Options of the player

What the player is asked to do. The arguments of a command line take effect one after the other, and the first one
that is wrong, or that asks for help or the version, decides the outcome.
-/

namespace SnesSound.Player

/-- What the player is asked to do. -/
structure Options where
  /-- The snapshots to play, one after the other. -/
  inputs : List String := []
  /-- The only format that inputs may have. -/
  format : Option Format := none
  /-- How much the log shows. -/
  verbosity : Nat := 0
  /-- Seconds to play of each input. -/
  seconds : Option Nat := none
  /-- CPU cycles to run of each input at most. -/
  cycles : Option Nat := none
  /-- The WAV file to write. -/
  output : Option String := none
  /-- Voices to leave out of the mix. -/
  mask : Option UInt8 := none
  /-- Whether inputs are played in random order. -/
  shuffle : Bool := false
  /-- Whether echo buffers keep what snapshots have in them. -/
  keepEcho : Bool := false
  deriving DecidableEq, Repr

/-- Why a command line leads to nothing being played. -/
inductive Refusal
  /-- Help was asked for. -/
  | help
  /-- The version was asked for. -/
  | version
  /-- The command line is wrong. -/
  | usage (e : UsageError)
  deriving DecidableEq, Repr

namespace Options

/-- The format with a name. -/
def formatOfName? : String → Option Format
  | "spc" => some .spc
  | "zst" => some .zst
  | _ => none

/-- Greatest number that seconds and cycles can be given as. -/
def greatestNumber : Nat := 0xFFFFFFFFFFFFFFFF

/-- Reads a mask, a number up to 255. It may be signed, though only zero can be negative. -/
def maskOfName? (value : String) : Option UInt8 :=
  let n := match value.toList with
    | '-' :: cs => (Numeral.readDigits cs).filter (· = 0)
    | cs => Numeral.read 255 cs
  n.map UInt8.ofNat

/-- Sets an option that may be set once. -/
def once {α : Type} (s : Setting) (old : Option α) (value : String) (read : String → Option α) :
    Except Refusal (Option α) :=
  match old, read value with
  | some _, _ => .error (.usage (.repeatedOption (.setting s)))
  | none, none => .error (.usage (.invalidValue s value))
  | none, some a => .ok (some a)

/-- Sets an option with a value. -/
def set (o : Options) (s : Setting) (value : String) : Except Refusal Options :=
  match s with
  | .format => do return { o with format := ← once s o.format value formatOfName? }
  | .seconds => do return { o with seconds := ← once s o.seconds value (Numeral.read greatestNumber ·.toList) }
  | .cycles => do return { o with cycles := ← once s o.cycles value (Numeral.read greatestNumber ·.toList) }
  | .output => do return { o with output := ← once s o.output value fun v => if v = "" then none else some v }
  | .mask => do return { o with mask := ← once s o.mask value maskOfName? }

/-- Turns on an option without a value. Only the log can be made more and more verbose. -/
def turnOn (o : Options) (s : Switch) : Except Refusal Options :=
  match s with
  | .verbose => .ok { o with verbosity := o.verbosity + 1 }
  | .shuffle =>
    if o.shuffle then .error (.usage (.repeatedOption (.switch s))) else .ok { o with shuffle := true }
  | .keepEcho =>
    if o.keepEcho then .error (.usage (.repeatedOption (.switch s))) else .ok { o with keepEcho := true }
  | .help => .error .help
  | .version => .error .version

/-- The effect of an argument. -/
def apply (o : Options) : Argument → Except Refusal Options
  | .input "" => .error (.usage .emptyInput)
  | .input path => .ok { o with inputs := o.inputs ++ [path] }
  | .setting s value => o.set s value
  | .switch s => o.turnOn s
  | .invalid e => .error (.usage e)

/-- The options on a command line. There must be an input. -/
def ofWords (words : List String) : Except Refusal Options := do
  let o ← (Argument.ofWords words).foldlM apply {}
  if o.inputs = [] then throw (.usage .noInput)
  return o

end Options

end SnesSound.Player
