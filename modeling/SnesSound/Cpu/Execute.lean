import SnesSound.Cpu.Core
import SnesSound.Cpu.Instruction

/-!
# Execution of instructions

What each instruction does to the core, once its opcode has been fetched. Operands are fetched in the order in which
they follow the opcode, and memory is read and written in the order that the hardware shows to I/O registers.
-/

namespace SnesSound

/-! ## Registers -/

namespace RegisterSet

/-- The value of a register. -/
def get (c : RegisterSet) : CpuRegister → UInt8
  | .a => c.a
  | .x => c.x
  | .y => c.y
  | .sp => c.sp
  | .psw => c.psw.toByte

/-- Changes a register. -/
def set (c : RegisterSet) (r : CpuRegister) (value : UInt8) : RegisterSet :=
  match r with
  | .a => { c with a := value }
  | .x => { c with x := value }
  | .y => { c with y := value }
  | .sp => { c with sp := value }
  | .psw => { c with psw := .ofByte value }

/-- Loads a register and sets N and Z. -/
def load (c : RegisterSet) (r : CpuRegister) (value : UInt8) : RegisterSet :=
  { c.set r value with psw := c.psw.setNZ value }

end RegisterSet

/-! ## Conditions and flags -/

/-- The flag that a branch tests. -/
def Condition.test (condition : Condition) (p : Status) : Bool :=
  match condition with
  | .negative => p.negative
  | .overflow => p.overflow
  | .carry => p.carry
  | .zero => p.zero

/-- Gives a flag a value. -/
def SettableFlag.put (flag : SettableFlag) (value : Bool) (p : Status) : Status :=
  match flag with
  | .directPage => { p with directPage := value }
  | .carry => { p with carry := value }
  | .interrupt => { p with interrupt := value }

/-- The new value of C after an operation with a bit of memory. -/
def CarryOp.apply (op : CarryOp) (carry value : Bool) : Bool :=
  match op with
  | .or => carry || value
  | .orNot => carry || !value
  | .and => carry && value
  | .andNot => carry && !value
  | .eor => carry != value
  | .load => value

/-! ## Operands -/

namespace Processor

variable {m : Type → Type} [Processor m]

/-- Fetches the offset of a byte in the direct page and returns its address. -/
@[specialize] def fetchDirect : m UInt16 := do
  let offset ← fetch
  ask (·.directAddress offset)

/-- Fetches the operand of a bit instruction: thirteen bits of address and, above them, the number of the bit. -/
@[specialize] def fetchBit : m (UInt16 × Fin 8) := do
  let operand ← fetchWord
  return (operand % 8192, Fin.ofNat 8 (operand.toNat / 8192))

/-- Fetches the operands of an addressing mode and finds the address that it selects. -/
@[specialize] def address : Mode → m UInt16
  | .direct => fetchDirect
  | .directX => do
    let offset ← fetch
    ask fun c => c.directAddress (offset + c.x)
  | .directY => do
    let offset ← fetch
    ask fun c => c.directAddress (offset + c.y)
  | .absolute => fetchWord
  | .absoluteX => do
    let base ← fetchWord
    ask fun c => base + c.x.toUInt16
  | .absoluteY => do
    let base ← fetchWord
    ask fun c => base + c.y.toUInt16
  | .indirectX => ask fun c => c.directAddress c.x
  | .indexedIndirect => do
    let offset ← fetch
    readDirectWord (offset + (← ask (·.x)))
  | .indirectIndexed => do
    let offset ← fetch
    let base ← readDirectWord offset
    ask fun c => base + c.y.toUInt16

/-- Reads the byte that an instruction works with. -/
@[specialize] def operand : Source → m UInt8
  | .immediate => fetch
  | .memory mode => do read (← address mode)

/-- Reads the source and finds the destination of an operation on memory. -/
@[specialize] def operandPair : MemoryPair → m (UInt8 × UInt16)
  | .directDirect => do
    let source ← read (← fetchDirect)
    return (source, ← fetchDirect)
  | .directImmediate => do
    let source ← fetch
    return (source, ← fetchDirect)
  | .indirectXY => do
    let source ← read (← ask fun c => c.directAddress c.y)
    return (source, ← ask fun c => c.directAddress c.x)

/-! ## Building blocks -/

/-- Applies an operation that returns a value and new flags. -/
@[specialize] def withFlags {α : Type} (f : Status → α × Status) : m α := do
  let (value, psw) := f (← ask (·.psw))
  update fun c => { c with psw }
  return value

/-- Carries out a calculation that takes the flags and returns a value and new ones. -/
@[specialize] def calculateFlags {α : Type} (f : Status → Calculation (α × Status)) : m α := do
  let (value, psw) ← calculate (f (← ask (·.psw)))
  update fun c => { c with psw }
  return value

/-- Fetches the distance of a branch and goes there if the condition holds. Returns whether it does. -/
@[specialize] def branch (condition : Bool) : m Bool := do
  let distance ← fetch
  if condition then
    update fun c => { c with pc := c.pc + distance.toInt8.toInt16.toUInt16 }
  return condition

/-- Pushes the program counter and goes to an address. -/
@[specialize] def call (destination : UInt16) : m Unit := do
  pushWord (← ask (·.pc))
  update fun c => { c with pc := destination }

/-- Changes a byte of memory in place. -/
@[specialize] def changeByte (address : UInt16) (f : UInt8 → Calculation UInt8) : m Unit := do
  let value ← read address
  write address (← calculate (f value))

end Processor

/-! ## Instructions -/

open Processor

variable {m : Type → Type} [Processor m]

/-- Executes an instruction that does not branch on a condition. -/
@[specialize] def Instruction.perform : Instruction → m Unit
  | .nop => pure ()
  | .setFlag flag value => updateFlags (flag.put value)
  | .clearOverflow => updateFlags fun p => { p with overflow := false, halfCarry := false }
  | .invertCarry => updateFlags fun p => { p with carry := !p.carry }
  | .branchAlways => do
    let _ ← Processor.branch true
  | .jump => do
    let destination ← fetchWord
    update fun c => { c with pc := destination }
  | .jumpIndexed => do
    let base ← fetchWord
    let destination ← readWord (base + (← ask (·.x)).toUInt16)
    update fun c => { c with pc := destination }
  | .call => do
    let destination ← fetchWord
    Processor.call destination
  | .callPage => do
    let offset ← fetch
    Processor.call (word offset 0xFF)
  | .callVector n => do
    let destination ← readWord (← calculate (.vector n))
    Processor.call destination
  | .softwareBreak => do
    pushWord (← ask (·.pc))
    Processor.push (← ask (·.psw.toByte))
    updateFlags fun p => { p with brk := true, interrupt := false }
    let destination ← readWord Cpu.breakVector
    update fun c => { c with pc := destination }
  | .ret => do
    let destination ← popWord
    update fun c => { c with pc := destination }
  | .returnInterrupt => do
    let flags ← Processor.pop
    update fun c => { c with psw := .ofByte flags }
    let destination ← popWord
    update fun c => { c with pc := destination }
  | .sleep => halt .sleeping
  | .stop => halt .stopped
  | .push r => do Processor.push (← ask (·.get r))
  | .pop r => do
    let value ← Processor.pop
    update fun c => c.set r value
  | .writeBit n value => do
    let address ← fetchDirect
    changeByte address fun b => .writeBit b n value
  | .carryBit op => do
    let (address, n) ← fetchBit
    let value ← calculate (.testBit (← read address) n)
    updateFlags fun p => { p with carry := op.apply p.carry value }
  | .storeCarry => do
    let (address, n) ← fetchBit
    let carry ← ask (·.psw.carry)
    changeByte address fun b => .writeBit b n carry
  | .invertBit => do
    let (address, n) ← fetchBit
    changeByte address fun b => .invertBit b n
  | .testBits value => do
    let address ← fetchWord
    let b ← read address
    let a ← ask (·.a)
    updateFlags fun p => p.setNZ (a - b)
    write address (if value then b ||| a else b &&& ~~~a)
  | .binary op source => do
    let right ← operand source
    let a ← ask (·.a)
    let result ← calculateFlags (.binary op a right)
    update fun c => { c with a := result }
  | .binaryMemory op operands => do
    let (right, destination) ← operandPair operands
    let left ← read destination
    let result ← calculateFlags (.binary op left right)
    if op ≠ .cmp then write destination result
  | .compare r source => do
    let right ← operand source
    let left ← ask (·.get r)
    updateFlags fun p => p.compare left right
  | .unary op (.register r) => do
    let value ← ask (·.get r)
    let result ← withFlags fun p => p.unary op value
    update fun c => c.set r result
  | .unary op (.memory mode) => do
    let address ← Processor.address mode
    let value ← read address
    let result ← withFlags fun p => p.unary op value
    write address result
  | .load r source => do
    let value ← operand source
    update fun c => c.load r value
  | .loadIncrement => do
    let value ← read (← ask fun c => c.directAddress c.x)
    update fun c => { c with x := c.x + 1 }.load .a value
  | .store mode r => do
    let address ← Processor.address mode
    write address (← ask (·.get r))
  | .storeIncrement => do
    write (← ask fun c => c.directAddress c.x) (← ask (·.a))
    update fun c => { c with x := c.x + 1 }
  | .storeImmediate => do
    let value ← fetch
    let address ← fetchDirect
    write address value
  | .moveDirect => do
    let value ← read (← fetchDirect)
    let address ← fetchDirect
    write address value
  | .transfer .sp source => update fun c => { c with sp := c.get source }
  | .transfer destination source => update fun c => c.load destination (c.get source)
  | .stepWord up => do
    let offset ← fetch
    let value ← readDirectWord offset
    let result := if up then value + 1 else value - 1
    writeDirectWord offset result
    updateFlags fun p => p.setNZ16 result
  | .compareWord => do
    let right ← readDirectWord (← fetch)
    update fun c => { c with psw := c.psw.compareWords c.ya right }
  | .addWord => do
    let right ← readDirectWord (← fetch)
    let ya ← ask (·.ya)
    let result ← calculateFlags (.addWords ya right)
    update fun c => c.setYA result
  | .subtractWord => do
    let right ← readDirectWord (← fetch)
    let ya ← ask (·.ya)
    let result ← withFlags fun p => p.subtractWords ya right
    update fun c => c.setYA result
  | .loadWord => do
    let value ← readDirectWord (← fetch)
    update fun c => { c.setYA value with psw := c.psw.setNZ16 value }
  | .storeWord => do
    let offset ← fetch
    writeDirectWord offset (← ask (·.ya))
  | .multiply => do
    let (y, a) ← ask fun c => (c.y, c.a)
    let result ← calculateFlags (.multiply y a)
    update fun c => c.setYA result
  | .divide => do
    let (ya, x) ← ask fun c => (c.ya, c.x)
    let (a, y, psw) ← calculate (.divide ya x (← ask (·.psw)))
    update fun c => { c with a, y, psw }
  | .decimalAdd => do
    let a ← ask (·.a)
    let result ← withFlags fun p => p.decimalAdd a
    update fun c => { c with a := result }
  | .decimalSubtract => do
    let a ← ask (·.a)
    let result ← withFlags fun p => p.decimalSubtract a
    update fun c => { c with a := result }
  | .exchangeNibbles => update fun c => c.load .a (c.a / 16 + 16 * c.a)
  | .branch .. | .branchBit .. | .branchUnequal .. | .decrementBranch | .decrementYBranch => pure ()

/-- Executes an instruction. Returns whether it is a conditional branch that was taken. -/
@[specialize] def Instruction.execute : Instruction → m Bool
  | .branch condition value => do
    let flag ← ask fun c => condition.test c.psw
    Processor.branch (flag == value)
  | .branchBit n value => do
    let flag ← calculate (.testBit (← read (← fetchDirect)) n)
    Processor.branch (flag == value)
  | .branchUnequal mode => do
    let b ← read (← Processor.address mode)
    let a ← ask (·.a)
    Processor.branch (b != a)
  | .decrementBranch => do
    let address ← fetchDirect
    let result := (← read address) - 1
    write address result
    Processor.branch (result != 0)
  | .decrementYBranch => do
    update fun c => { c with y := c.y - 1 }
    Processor.branch ((← ask (·.y)) != 0)
  | instruction => do
    instruction.perform
    return false

end SnesSound
