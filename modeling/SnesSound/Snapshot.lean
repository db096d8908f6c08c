import SnesSound.Machine
import SnesSound.Snapshot.Spc
import SnesSound.Snapshot.Zst

/-!
# Snapshots

A snapshot of either format comes down to the same few things: registers of the CPU, audio RAM and registers of the
sound unit. From these a machine is restored. Voices are silent after that; those that a save state notes as playing
are keyed on again.

Main statement: a snapshot can be read exactly if its format is recognized (`isSome_parse?_iff`).
-/

namespace SnesSound

/-- The format of a complete snapshot. -/
def Format.detect? (bytes : ByteArray) : Option Format :=
  if SpcFile.layout.Accepts bytes then some .spc
  else if ZstFile.layout.Accepts bytes then some .zst
  else none

/-- What a snapshot holds, whatever its format. -/
structure Snapshot where
  format : Format
  tag : Option Tag
  cpu : CpuRegisters
  memory : Memory
  registers : Registers

/-- How a snapshot is turned into a machine. -/
structure LoadOptions where
  /-- Whether the echo buffer is zeroed. Many dumps hold garbage there, which would be heard as noise. -/
  clearEcho : Bool := true
  deriving DecidableEq, Repr

/-- Why a snapshot cannot be loaded. -/
inductive LoadError
  /-- The bytes are no complete snapshot of any format. -/
  | unrecognizedFormat
  deriving DecidableEq, Repr

namespace LoadError

/-- The text of an error. -/
def message : LoadError → String
  | .unrecognizedFormat => "Input is neither an SPC file nor a ZSNES save state"

/-- The stable name of an error. -/
def code : LoadError → String
  | .unrecognizedFormat => "spcemu::unrecognized_format"

/-- Advice about an error. -/
def help : LoadError → Option String
  | .unrecognizedFormat =>
    some ("SPC files start with \"SNES-SPC700 Sound File Data\" and are at least 65920 bytes long; " ++
      "truncated files are rejected as well")

end LoadError

namespace Snapshot

/-- The snapshot in an SPC file. -/
def ofSpc (f : SpcFile) : Snapshot :=
  { format := .spc, tag := f.tag, cpu := f.cpu, memory := f.memory, registers := f.registers }

/-- The snapshot in a save state. Voices that were playing are keyed on. -/
def ofZst (f : ZstFile) : Snapshot where
  format := .zst
  tag := none
  cpu := f.cpu
  memory := f.memory
  registers := f.registers.store Register.kon (f.registers.get Register.kon ||| f.voiceMask)

/-- Reads a snapshot of any format. -/
def parse? (bytes : ByteArray) : Option Snapshot :=
  if h : SpcFile.layout.Accepts bytes then some (ofSpc (.read bytes h.required_le))
  else if h : ZstFile.layout.Accepts bytes then some (ofZst (.read bytes h.required_le))
  else none

/-- A snapshot can be read exactly if its format is recognized. -/
theorem isSome_parse?_iff (bytes : ByteArray) : (parse? bytes).isSome ↔ (Format.detect? bytes).isSome := by
  unfold parse? Format.detect?
  split
  · simp
  · split <;> simp

/-- First address of the region that is zeroed for the echo buffer. -/
def echoStart (r : Registers) : Nat := (r.get Register.esa).toNat * 256

/-- Length of the region that is zeroed for the echo buffer. -/
def echoLength (r : Registers) : Nat := (r.get Register.edl).toNat * 2048

/-- The machine that a snapshot describes. The CPU takes its latches from RAM before the echo buffer is zeroed. -/
def restore (s : Snapshot) (options : LoadOptions) : Machine where
  cpu := .restore s.cpu s.memory
  memory :=
    if options.clearEcho then s.memory.clear (echoStart s.registers) (echoLength s.registers) else s.memory
  registers := s.registers

end Snapshot

end SnesSound
