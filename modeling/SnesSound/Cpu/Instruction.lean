import SnesSound.Cpu.Arithmetic

/-!
# Instructions

The instructions of the CPU as values, apart from how opcodes encode them.
-/

namespace SnesSound

/-- A register that an instruction names. -/
inductive CpuRegister
  | a
  | x
  | y
  | sp
  /-- The byte of flags. -/
  | psw
  deriving DecidableEq, Repr

/-- How an instruction finds a byte in memory. -/
inductive Mode
  /-- `dp` -/
  | direct
  /-- `dp+X` -/
  | directX
  /-- `dp+Y` -/
  | directY
  /-- `!abs` -/
  | absolute
  /-- `!abs+X` -/
  | absoluteX
  /-- `!abs+Y` -/
  | absoluteY
  /-- `(X)` -/
  | indirectX
  /-- `[dp+X]` -/
  | indexedIndirect
  /-- `[dp]+Y` -/
  | indirectIndexed
  deriving DecidableEq, Repr

/-- Where an instruction takes a byte from. -/
inductive Source
  | immediate
  | memory (mode : Mode)
  deriving DecidableEq, Repr

/-- What an instruction changes in place. -/
inductive Target
  | register (r : CpuRegister)
  | memory (mode : Mode)
  deriving DecidableEq, Repr

/-- The two operands of an operation on memory: the destination, then the source. -/
inductive MemoryPair
  /-- `dp, dp` -/
  | directDirect
  /-- `dp, #imm` -/
  | directImmediate
  /-- `(X), (Y)` -/
  | indirectXY
  deriving DecidableEq, Repr

/-- A flag that a branch tests. -/
inductive Condition
  | negative
  | overflow
  | carry
  | zero
  deriving DecidableEq, Repr

/-- A flag that has an instruction of its own. -/
inductive SettableFlag
  | directPage
  | carry
  | interrupt
  deriving DecidableEq, Repr

/-- How a bit of memory is combined with C. -/
inductive CarryOp
  | or
  | orNot
  | and
  | andNot
  | eor
  | load
  deriving DecidableEq, Repr

/-- An instruction. -/
inductive Instruction
  | nop
  /-- CLRP, SETP, CLRC, SETC, EI, DI. -/
  | setFlag (flag : SettableFlag) (value : Bool)
  /-- CLRV: clears V and H. -/
  | clearOverflow
  /-- NOTC -/
  | invertCarry
  /-- Branches if a flag has the given value. -/
  | branch (condition : Condition) (value : Bool)
  /-- BRA -/
  | branchAlways
  /-- BBS, BBC: branches if a bit of the direct page has the given value. -/
  | branchBit (n : Fin 8) (value : Bool)
  /-- CBNE: branches if a byte of memory differs from A. -/
  | branchUnequal (mode : Mode)
  /-- DBNZ dp -/
  | decrementBranch
  /-- DBNZ Y -/
  | decrementYBranch
  /-- JMP !abs -/
  | jump
  /-- JMP [!abs+X] -/
  | jumpIndexed
  /-- CALL !abs -/
  | call
  /-- PCALL: calls an address in page FF. -/
  | callPage
  /-- TCALL: calls through a vector. -/
  | callVector (n : Fin 16)
  /-- BRK -/
  | softwareBreak
  /-- RET -/
  | ret
  /-- RETI -/
  | returnInterrupt
  | sleep
  | stop
  | push (r : CpuRegister)
  | pop (r : CpuRegister)
  /-- SET1, CLR1: sets or clears a bit of the direct page. -/
  | writeBit (n : Fin 8) (value : Bool)
  /-- OR1, AND1, EOR1 and MOV1 to C. -/
  | carryBit (op : CarryOp)
  /-- MOV1 mem.bit, C -/
  | storeCarry
  /-- NOT1 -/
  | invertBit
  /-- TSET1, TCLR1: sets or clears the bits of A in memory. -/
  | testBits (value : Bool)
  /-- An operation on A. -/
  | binary (op : BinaryOp) (source : Source)
  /-- An operation on memory. -/
  | binaryMemory (op : BinaryOp) (operands : MemoryPair)
  /-- CMP with X or Y. -/
  | compare (r : CpuRegister) (source : Source)
  /-- Shifts, rotates, INC and DEC. -/
  | unary (op : UnaryOp) (target : Target)
  /-- MOV to a register. -/
  | load (r : CpuRegister) (source : Source)
  /-- MOV A, (X)+ -/
  | loadIncrement
  /-- MOV from a register. -/
  | store (mode : Mode) (r : CpuRegister)
  /-- MOV (X)+, A -/
  | storeIncrement
  /-- MOV dp, #imm -/
  | storeImmediate
  /-- MOV dp, dp -/
  | moveDirect
  /-- MOV between registers; SP is loaded without a change of flags. -/
  | transfer (destination source : CpuRegister)
  /-- INCW, DECW -/
  | stepWord (up : Bool)
  /-- CMPW YA, dp -/
  | compareWord
  /-- ADDW YA, dp -/
  | addWord
  /-- SUBW YA, dp -/
  | subtractWord
  /-- MOVW YA, dp -/
  | loadWord
  /-- MOVW dp, YA -/
  | storeWord
  /-- MUL YA -/
  | multiply
  /-- DIV YA, X -/
  | divide
  /-- DAA -/
  | decimalAdd
  /-- DAS -/
  | decimalSubtract
  /-- XCN -/
  | exchangeNibbles
  deriving DecidableEq, Repr

end SnesSound
