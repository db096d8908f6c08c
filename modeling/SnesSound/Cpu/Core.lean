import SnesSound.Cpu.Calculation
import SnesSound.Cpu.IoRegister
import SnesSound.Dsp.Registers

/-!
# The CPU on its bus

The CPU reaches audio RAM, its own I/O registers and, through two of those, the registers of the sound unit. A write
goes to RAM in every case; a read of an I/O register does not see the RAM behind it.

Main statements: every write reaches RAM (`memory_write`), and no read changes it (`memory_afterRead`).
-/

namespace SnesSound

/-- The CPU together with everything it can change. -/
structure Core where
  cpu : Cpu := {}
  memory : Memory := .zero
  /-- Registers of the sound unit. -/
  registers : Registers := .zero

namespace Core

instance : Inhabited Core := ⟨{}⟩

/-- What a read of an address returns. -/
def peek (s : Core) (address : UInt16) : UInt8 :=
  match IoRegister.ofAddress? address with
  | some .test | some .control | some (.timerDivisor _) => 0
  | some .dspAddress => s.cpu.dspAddress
  | some .dspData => s.registers.read s.cpu.dspAddress
  | some (.port n) => s.cpu.ports.cpuRead n
  | some (.timerOutput n) => (s.cpu.timers.get n).output
  | none => s.memory.read address s.cpu.control.bootRomEnabled

/-- What a read of an address changes: the output of a timer is cleared by it. -/
def afterRead (s : Core) (address : UInt16) : Core :=
  match IoRegister.ofAddress? address with
  | some (.timerOutput n) =>
    { s with cpu := { s.cpu with timers := s.cpu.timers.set n (s.cpu.timers.get n).clearOutput n.isLt } }
  | _ => s

/-- What a write to an address does besides storing the value in RAM. -/
def writeIo (s : Core) (address : UInt16) (value : UInt8) : Core :=
  match IoRegister.ofAddress? address with
  | some .test => { s with cpu := s.cpu.writeTest value }
  | some .control => { s with cpu := s.cpu.writeControl value }
  | some .dspAddress => { s with cpu := { s.cpu with dspAddress := value } }
  | some .dspData => { s with registers := s.registers.write s.cpu.dspAddress value }
  | some (.port n) => { s with cpu := { s.cpu with ports := s.cpu.ports.cpuWrite n value } }
  | some (.timerDivisor n) =>
    { s with cpu := { s.cpu with timers := s.cpu.timers.set n { s.cpu.timers.get n with divisor := value } n.isLt } }
  | some (.timerOutput _) | none => s

/-- Writes a byte. -/
def write (s : Core) (address : UInt16) (value : UInt8) : Core :=
  let s := s.writeIo address value
  { s with memory := s.memory.set address value }

/-- Gives the registers new values. -/
def setRegisters (s : Core) (registers : RegisterSet) : Core :=
  { s with cpu := { s.cpu with toRegisterSet := registers } }

/-- Lets cycles pass. -/
def pass (s : Core) (cycles : Nat) : Core := { s with cpu := s.cpu.pass cycles }

@[simp] theorem memory_afterRead (s : Core) (address : UInt16) : (s.afterRead address).memory = s.memory := by
  unfold afterRead
  split <;> rfl

@[simp] theorem memory_writeIo (s : Core) (address : UInt16) (value : UInt8) :
    (s.writeIo address value).memory = s.memory := by
  unfold writeIo
  split <;> rfl

/-- Every write reaches RAM. -/
@[simp] theorem memory_write (s : Core) (address : UInt16) (value : UInt8) :
    (s.write address value).memory = s.memory.set address value := by
  simp [write]

end Core

/-! ## Processors

What an instruction does is put together from accesses to memory, changes of registers and calculations. A processor
gives these a meaning, and thereby every instruction. -/

/-- A meaning for the parts of instructions. -/
class Processor (m : Type → Type) extends Monad m where
  /-- Reads a byte. -/
  read (address : UInt16) : m UInt8
  /-- Writes a byte. -/
  write (address : UInt16) (value : UInt8) : m Unit
  /-- Looks at the registers. -/
  ask {α : Type} (f : RegisterSet → α) : m α
  /-- Changes the registers. -/
  update (f : RegisterSet → RegisterSet) : m Unit
  /-- Halts the CPU. -/
  halt (state : RunState) : m Unit
  /-- Carries out a calculation. -/
  calculate {α : Type} (c : Calculation α) : m α

/-- A computation that reads and changes a core. -/
abbrev Exec := StateM Core

namespace Exec

/-- Reads a byte. -/
def read (address : UInt16) : Exec UInt8 := fun s => (s.peek address, s.afterRead address)

/-- Writes a byte. -/
def write (address : UInt16) (value : UInt8) : Exec Unit := modify fun s => s.write address value

/-- Looks at the registers. -/
def ask {α : Type} (f : RegisterSet → α) : Exec α := fun s => (f s.cpu.toRegisterSet, s)

/-- Changes the registers. -/
def update (f : RegisterSet → RegisterSet) : Exec Unit := modify fun s => s.setRegisters (f s.cpu.toRegisterSet)

/-- Halts the CPU. -/
def halt (state : RunState) : Exec Unit := modify fun s => { s with cpu := s.cpu.halt state }

instance : Processor Exec where
  read := read
  write := write
  ask := ask
  update := update
  halt := halt
  calculate c := pure c.result

end Exec

namespace Processor

variable {m : Type → Type} [Processor m]

/-- Changes the flags. -/
@[specialize] def updateFlags (f : Status → Status) : m Unit := update fun c => { c with psw := f c.psw }

/-- Reads the byte at the program counter and moves past it. -/
@[specialize] def fetch : m UInt8 := do
  let value ← read (← ask (·.pc))
  update fun c => { c with pc := c.pc + 1 }
  return value

/-- Reads the word at the program counter and moves past it. -/
@[specialize] def fetchWord : m UInt16 := do
  let low ← fetch
  let high ← fetch
  return word low high

/-- Reads a word. -/
@[specialize] def readWord (address : UInt16) : m UInt16 := do
  let low ← read address
  let high ← read (address + 1)
  return word low high

/-- Reads a word from the direct page; its high byte is in the same page. -/
@[specialize] def readDirectWord (offset : UInt8) : m UInt16 := do
  let low ← read (← ask (·.directAddress offset))
  let high ← read (← ask (·.directAddress (offset + 1)))
  return word low high

/-- Writes a word to the direct page; its high byte is in the same page. -/
@[specialize] def writeDirectWord (offset : UInt8) (value : UInt16) : m Unit := do
  write (← ask (·.directAddress offset)) (lowByte value)
  write (← ask (·.directAddress (offset + 1))) (highByte value)

/-- Pushes a byte. -/
@[specialize] def push (value : UInt8) : m Unit := do
  write (← ask (·.stackAddress)) value
  update fun c => { c with sp := c.sp - 1 }

/-- Pops a byte. -/
@[specialize] def pop : m UInt8 := do
  update fun c => { c with sp := c.sp + 1 }
  read (← ask (·.stackAddress))

/-- Pushes a word, high byte first. -/
@[specialize] def pushWord (value : UInt16) : m Unit := do
  push (highByte value)
  push (lowByte value)

/-- Pops a word, low byte first. -/
@[specialize] def popWord : m UInt16 := do
  let low ← pop
  let high ← pop
  return word low high

end Processor

end SnesSound
