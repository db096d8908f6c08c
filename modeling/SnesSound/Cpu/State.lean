import SnesSound.Cpu.Port
import SnesSound.Cpu.Status
import SnesSound.Cpu.Timer
import SnesSound.Memory

/-!
# The CPU

The registers of the CPU, what it keeps about its ports and timers, and how much time it has used. Time is handed to
the CPU as a budget of cycles; an instruction may overdraw the budget, and what it overdraws is taken from the next
one.
-/

namespace SnesSound

/-- Whether the CPU executes instructions. -/
inductive RunState
  | running
  /-- Halted by SLEEP. -/
  | sleeping
  /-- Halted by STOP. -/
  | stopped
  deriving DecidableEq, Repr, Inhabited

/-- Something a program did that its author may want to know about. -/
inductive Notice
  /-- The instruction at `address` halted the CPU. -/
  | halted (state : RunState) (address : UInt16)
  /-- The TEST register was written, which has no effect. -/
  | testWritten (value : UInt8)
  deriving DecidableEq, Repr

/-- The registers of the CPU as a snapshot holds them. -/
structure CpuRegisters where
  pc : UInt16 := 0
  a : UInt8 := 0
  x : UInt8 := 0
  y : UInt8 := 0
  psw : UInt8 := 0
  sp : UInt8 := 0
  deriving DecidableEq, Repr, Inhabited

/-- The registers that instructions work with. -/
structure RegisterSet where
  /-- Accumulator. -/
  a : UInt8 := 0
  /-- X index register. -/
  x : UInt8 := 0
  /-- Y index register. -/
  y : UInt8 := 0
  /-- Stack pointer, an offset in page 1. -/
  sp : UInt8 := 0xEF
  /-- Program counter. -/
  pc : UInt16 := 0
  /-- Flags. -/
  psw : Status := {}
  deriving DecidableEq

namespace RegisterSet

/-- Y and A as one word. -/
def ya (c : RegisterSet) : UInt16 := word c.a c.y

/-- Sets Y and A from one word. -/
def setYA (c : RegisterSet) (value : UInt16) : RegisterSet := { c with a := lowByte value, y := highByte value }

/-- An address in the direct page, which the P flag selects. -/
def directAddress (c : RegisterSet) (offset : UInt8) : UInt16 := word offset (if c.psw.directPage then 1 else 0)

/-- The address that the stack pointer stands for. -/
def stackAddress (c : RegisterSet) : UInt16 := word c.sp 1

end RegisterSet

/-- The state of the CPU. -/
structure Cpu extends RegisterSet where
  /-- TEST register. -/
  test : UInt8 := 0x0A
  control : Control := ⟨0xB0⟩
  /-- The register of the sound unit that the data register gives access to. -/
  dspAddress : UInt8 := 0
  ports : Ports := {}
  timers : Timers := Timers.initial
  runState : RunState := .running
  /-- Cycles that may still be used; negative after an instruction that took more than there were. -/
  budget : Int := 0
  /-- Cycles used or idled away since the CPU was created. -/
  cycles : Nat := 0
  /-- What happened so far that is worth a notice, in order. -/
  notices : Array Notice := #[]
  deriving DecidableEq

namespace Cpu

instance : Inhabited Cpu := ⟨{}⟩

/-- Vector of the BRK instruction. The vectors of TCALL lie below it. -/
def breakVector : UInt16 := 0xFFDE

/-- Vector that the CPU starts at after power-on. -/
def resetVector : UInt16 := 0xFFFE

/-- The CPU after power-on, about to run the boot ROM. -/
def powerOn (m : Memory) : Cpu :=
  { pc := word (m.read resetVector true) (m.read (resetVector + 1) true) }

/-- The CPU of a snapshot. Page 0 of its memory holds a copy of the I/O registers, from which CONTROL, the register
address of the sound unit, the incoming latches and the timers are taken; outputs of timers have four bits. -/
def restore (registers : CpuRegisters) (m : Memory) : Cpu where
  a := registers.a
  x := registers.x
  y := registers.y
  sp := registers.sp
  pc := registers.pc
  psw := .ofByte registers.psw
  control := ⟨m.get 0xF1⟩
  dspAddress := m.get 0xF2
  ports := { toCpu := #v[m.get 0xF4, m.get 0xF5, m.get 0xF6, m.get 0xF7] }
  timers := #v[
    { divisor := m.get 0xFA, output := m.get 0xFD % 16 },
    { divisor := m.get 0xFB, output := m.get 0xFE % 16 },
    { divisor := m.get 0xFC, output := m.get 0xFF % 16 }]

/-! ## Control -/

/-- Lets cycles pass. -/
def pass (c : Cpu) (cycles : Nat) : Cpu :=
  { c with cycles := c.cycles + cycles, timers := c.timers.advance cycles c.control }

/-- Halts the CPU; from now on it only uses up time. -/
def halt (c : Cpu) (state : RunState) : Cpu :=
  { c with runState := state, notices := c.notices.push (.halted state (c.pc - 1)) }

/-- Stores a value in the TEST register. -/
def writeTest (c : Cpu) (value : UInt8) : Cpu :=
  { c with test := value, notices := c.notices.push (.testWritten value) }

/-- Stores a value in the CONTROL register: timers that become enabled are restarted, and incoming latches are zeroed
as the value asks for. -/
def writeControl (c : Cpu) (value : UInt8) : Cpu :=
  let control : Control := ⟨value⟩
  let timers := c.timers.mapFinIdx fun i t h =>
    if !c.control.timerEnabled ⟨i, h⟩ && control.timerEnabled ⟨i, h⟩ then t.restart else t
  let ports := if control.clearsPorts01 then (c.ports.clear 0).clear 1 else c.ports
  let ports := if control.clearsPorts23 then (ports.clear 2).clear 3 else ports
  { c with control, timers, ports }

end Cpu

end SnesSound
