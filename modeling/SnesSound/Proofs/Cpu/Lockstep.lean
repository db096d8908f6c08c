import SnesSound.Cpu.Run

/-!
# Processors in lockstep

An instruction is put together from the operations of a processor and from nothing else. So a relation between the
computations of two processors that holds between their operations, and that sequencing keeps, holds between an
instruction on the one and the same instruction on the other (`Lockstep.execute`). What all instructions keep, what
they do not look at, and that they never fail are instances of this.
-/

namespace SnesSound

/-- A relation between computations of two processors that the parts of instructions keep. -/
structure Lockstep (m n : Type → Type) [Processor m] [Processor n] where
  /-- The relation. -/
  rel : ∀ {α : Type}, m α → n α → Prop
  pure : ∀ {α : Type} (a : α), rel (Pure.pure a) (Pure.pure a)
  bind : ∀ {α β : Type} {x : m α} {y : n α} {f : α → m β} {g : α → n β},
    rel x y → (∀ a, rel (f a) (g a)) → rel (x >>= f) (y >>= g)
  read : ∀ address : UInt16, rel (Processor.read address) (Processor.read address)
  write : ∀ (address : UInt16) (value : UInt8), rel (Processor.write address value) (Processor.write address value)
  ask : ∀ {α : Type} (f : RegisterSet → α), rel (Processor.ask f) (Processor.ask f)
  update : ∀ f : RegisterSet → RegisterSet, rel (Processor.update f) (Processor.update f)
  halt : ∀ state : RunState, rel (Processor.halt state) (Processor.halt state)
  calculate : ∀ {α : Type} (c : Calculation α), rel (Processor.calculate c) (Processor.calculate c)

namespace Lockstep

variable {m n : Type → Type} [Processor m] [Processor n] (L : Lockstep m n)

/-! ## Memory and the stack -/

theorem updateFlags (f : Status → Status) : L.rel (Processor.updateFlags f) (Processor.updateFlags f) := L.update _

theorem fetch : L.rel Processor.fetch Processor.fetch :=
  L.bind (L.ask _) fun pc => L.bind (L.read pc) fun value => L.bind (L.update _) fun _ => L.pure value

theorem fetchWord : L.rel Processor.fetchWord Processor.fetchWord :=
  L.bind L.fetch fun _ => L.bind L.fetch fun _ => L.pure _

theorem readWord (address : UInt16) : L.rel (Processor.readWord address) (Processor.readWord address) :=
  L.bind (L.read _) fun _ => L.bind (L.read _) fun _ => L.pure _

theorem readDirectWord (offset : UInt8) :
    L.rel (Processor.readDirectWord offset) (Processor.readDirectWord offset) :=
  L.bind (L.ask _) fun _ => L.bind (L.read _) fun _ => L.bind (L.ask _) fun _ => L.bind (L.read _) fun _ => L.pure _

theorem writeDirectWord (offset : UInt8) (value : UInt16) :
    L.rel (Processor.writeDirectWord offset value) (Processor.writeDirectWord offset value) :=
  L.bind (L.ask _) fun _ => L.bind (L.write _ _) fun _ => L.bind (L.ask _) fun _ => L.write _ _

theorem push (value : UInt8) : L.rel (Processor.push value) (Processor.push value) :=
  L.bind (L.ask _) fun _ => L.bind (L.write _ _) fun _ => L.update _

theorem pop : L.rel Processor.pop Processor.pop :=
  L.bind (L.update _) fun _ => L.bind (L.ask _) fun _ => L.read _

theorem pushWord (value : UInt16) : L.rel (Processor.pushWord value) (Processor.pushWord value) :=
  L.bind (L.push _) fun _ => L.push _

theorem popWord : L.rel Processor.popWord Processor.popWord :=
  L.bind L.pop fun _ => L.bind L.pop fun _ => L.pure _

/-! ## Operands -/

theorem fetchDirect : L.rel Processor.fetchDirect Processor.fetchDirect := L.bind L.fetch fun _ => L.ask _

theorem fetchBit : L.rel Processor.fetchBit Processor.fetchBit := L.bind L.fetchWord fun _ => L.pure _

theorem address (mode : Mode) : L.rel (Processor.address mode) (Processor.address mode) := by
  cases mode with
  | direct => exact L.fetchDirect
  | directX | directY => exact L.bind L.fetch fun _ => L.ask _
  | absolute => exact L.fetchWord
  | absoluteX | absoluteY => exact L.bind L.fetchWord fun _ => L.ask _
  | indirectX => exact L.ask _
  | indexedIndirect => exact L.bind L.fetch fun _ => L.bind (L.ask _) fun _ => L.readDirectWord _
  | indirectIndexed => exact L.bind L.fetch fun _ => L.bind (L.readDirectWord _) fun _ => L.ask _

theorem operand (source : Source) : L.rel (Processor.operand source) (Processor.operand source) := by
  cases source with
  | immediate => exact L.fetch
  | memory mode => exact L.bind (L.address mode) fun _ => L.read _

theorem operandPair (operands : MemoryPair) :
    L.rel (Processor.operandPair operands) (Processor.operandPair operands) := by
  cases operands with
  | directDirect =>
    exact L.bind L.fetchDirect fun _ => L.bind (L.read _) fun _ => L.bind L.fetchDirect fun _ => L.pure _
  | directImmediate => exact L.bind L.fetch fun _ => L.bind L.fetchDirect fun _ => L.pure _
  | indirectXY =>
    exact L.bind (L.ask _) fun _ => L.bind (L.read _) fun _ => L.bind (L.ask _) fun _ => L.pure _

/-! ## Building blocks -/

theorem withFlags {α : Type} (f : Status → α × Status) : L.rel (Processor.withFlags f) (Processor.withFlags f) :=
  L.bind (L.ask _) fun _ => L.bind (L.update _) fun _ => L.pure _

theorem calculateFlags {α : Type} (f : Status → Calculation (α × Status)) :
    L.rel (Processor.calculateFlags f) (Processor.calculateFlags f) :=
  L.bind (L.ask _) fun _ => L.bind (L.calculate _) fun _ => L.bind (L.update _) fun _ => L.pure _

theorem branch (condition : Bool) : L.rel (Processor.branch condition) (Processor.branch condition) := by
  refine L.bind L.fetch fun distance => ?_
  cases condition with
  | true => exact L.bind (L.update _) fun _ => L.pure _
  | false => exact L.pure _

theorem call (destination : UInt16) : L.rel (Processor.call destination) (Processor.call destination) :=
  L.bind (L.ask _) fun _ => L.bind (L.pushWord _) fun _ => L.update _

theorem changeByte (address : UInt16) (f : UInt8 → Calculation UInt8) :
    L.rel (Processor.changeByte address f) (Processor.changeByte address f) :=
  L.bind (L.read _) fun _ => L.bind (L.calculate _) fun _ => L.write _ _

/-! ## Instructions -/

theorem perform (i : Instruction) : L.rel (i.perform (m := m)) (i.perform (m := n)) := by
  cases i with
  | nop | branch | branchBit | branchUnequal | decrementBranch | decrementYBranch => exact L.pure _
  | setFlag => exact L.updateFlags _
  | clearOverflow | invertCarry => exact L.update _
  | branchAlways => exact L.bind (L.branch true) fun _ => L.pure _
  | jump => exact L.bind L.fetchWord fun _ => L.update _
  | jumpIndexed =>
    exact L.bind L.fetchWord fun _ => L.bind (L.ask _) fun _ => L.bind (L.readWord _) fun _ => L.update _
  | call => exact L.bind L.fetchWord fun _ => L.call _
  | callPage => exact L.bind L.fetch fun _ => L.call _
  | callVector => exact L.bind (L.calculate _) fun _ => L.bind (L.readWord _) fun _ => L.call _
  | softwareBreak =>
    exact L.bind (L.ask _) fun _ => L.bind (L.pushWord _) fun _ => L.bind (L.ask _) fun _ => L.bind (L.push _) fun _ =>
      L.bind (L.updateFlags _) fun _ => L.bind (L.readWord _) fun _ => L.update _
  | ret => exact L.bind L.popWord fun _ => L.update _
  | returnInterrupt =>
    exact L.bind L.pop fun _ => L.bind (L.update _) fun _ => L.bind L.popWord fun _ => L.update _
  | sleep | stop => exact L.halt _
  | push => exact L.bind (L.ask _) fun _ => L.push _
  | pop => exact L.bind L.pop fun _ => L.update _
  | writeBit => exact L.bind L.fetchDirect fun _ => L.changeByte _ _
  | carryBit =>
    exact L.bind L.fetchBit fun _ => L.bind (L.read _) fun _ => L.bind (L.calculate _) fun _ => L.updateFlags _
  | storeCarry => exact L.bind L.fetchBit fun _ => L.bind (L.ask _) fun _ => L.changeByte _ _
  | invertBit => exact L.bind L.fetchBit fun _ => L.changeByte _ _
  | testBits =>
    exact L.bind L.fetchWord fun _ => L.bind (L.read _) fun _ => L.bind (L.ask _) fun _ =>
      L.bind (L.updateFlags _) fun _ => L.write _ _
  | binary op source =>
    exact L.bind (L.operand source) fun _ => L.bind (L.ask _) fun _ => L.bind (L.calculateFlags _) fun _ => L.update _
  | binaryMemory op operands =>
    refine L.bind (L.operandPair operands) fun _ => L.bind (L.read _) fun _ => L.bind (L.calculateFlags _) fun _ => ?_
    split
    · exact L.write _ _
    · exact L.pure _
  | compare r source => exact L.bind (L.operand source) fun _ => L.bind (L.ask _) fun _ => L.updateFlags _
  | unary op target =>
    cases target with
    | register r => exact L.bind (L.ask _) fun _ => L.bind (L.withFlags _) fun _ => L.update _
    | memory mode =>
      exact L.bind (L.address mode) fun _ => L.bind (L.read _) fun _ => L.bind (L.withFlags _) fun _ => L.write _ _
  | load r source => exact L.bind (L.operand source) fun _ => L.update _
  | loadIncrement => exact L.bind (L.ask _) fun _ => L.bind (L.read _) fun _ => L.update _
  | store mode r => exact L.bind (L.address mode) fun _ => L.bind (L.ask _) fun _ => L.write _ _
  | storeIncrement =>
    exact L.bind (L.ask _) fun _ => L.bind (L.ask _) fun _ => L.bind (L.write _ _) fun _ => L.update _
  | storeImmediate => exact L.bind L.fetch fun _ => L.bind L.fetchDirect fun _ => L.write _ _
  | moveDirect =>
    exact L.bind L.fetchDirect fun _ => L.bind (L.read _) fun _ => L.bind L.fetchDirect fun _ => L.write _ _
  | transfer destination source => cases destination <;> exact L.update _
  | stepWord =>
    exact L.bind L.fetch fun _ => L.bind (L.readDirectWord _) fun _ => L.bind (L.writeDirectWord _ _) fun _ =>
      L.updateFlags _
  | compareWord => exact L.bind L.fetch fun _ => L.bind (L.readDirectWord _) fun _ => L.update _
  | addWord =>
    exact L.bind L.fetch fun _ => L.bind (L.readDirectWord _) fun _ => L.bind (L.ask _) fun _ =>
      L.bind (L.calculateFlags _) fun _ => L.update _
  | subtractWord =>
    exact L.bind L.fetch fun _ => L.bind (L.readDirectWord _) fun _ => L.bind (L.ask _) fun _ =>
      L.bind (L.withFlags _) fun _ => L.update _
  | loadWord => exact L.bind L.fetch fun _ => L.bind (L.readDirectWord _) fun _ => L.update _
  | storeWord => exact L.bind L.fetch fun _ => L.bind (L.ask _) fun _ => L.writeDirectWord _ _
  | multiply => exact L.bind (L.ask _) fun _ => L.bind (L.calculateFlags _) fun _ => L.update _
  | divide =>
    exact L.bind (L.ask _) fun _ => L.bind (L.ask _) fun _ => L.bind (L.calculate _) fun _ => L.update _
  | decimalAdd | decimalSubtract =>
    exact L.bind (L.ask _) fun _ => L.bind (L.withFlags _) fun _ => L.update _
  | exchangeNibbles => exact L.update _

/-- Instructions keep what their parts keep. -/
theorem execute (i : Instruction) : L.rel (i.execute (m := m)) (i.execute (m := n)) := by
  cases i with
  | branch => exact L.bind (L.ask _) fun _ => L.branch _
  | branchBit =>
    exact L.bind L.fetchDirect fun _ => L.bind (L.read _) fun _ => L.bind (L.calculate _) fun _ => L.branch _
  | branchUnequal mode =>
    exact L.bind (L.address mode) fun _ => L.bind (L.read _) fun _ => L.bind (L.ask _) fun _ => L.branch _
  | decrementBranch =>
    exact L.bind L.fetchDirect fun _ => L.bind (L.read _) fun _ => L.bind (L.write _ _) fun _ => L.branch _
  | decrementYBranch => exact L.bind (L.update _) fun _ => L.bind (L.ask _) fun _ => L.branch _
  | _ => exact L.bind (L.perform _) fun _ => L.pure _

theorem executeNext : L.rel (Processor.executeNext (m := m)) (Processor.executeNext (m := n)) :=
  L.bind L.fetch fun _ => L.bind (L.execute _) fun _ => L.pure _

end Lockstep

end SnesSound
