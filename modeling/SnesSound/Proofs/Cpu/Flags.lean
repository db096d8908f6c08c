import SnesSound.Proofs.Cpu.Computation

/-!
# Flags

Every instruction changes flags of its own and leaves all others as they are. Which ones it may change is read off the
instruction (`Instruction.flags`). What finds an operand, reads, writes, pushes or pops changes none, so that only those
parts of an instruction count that set flags from a result or replace them.

Main statements: a step changes no other flags than those of its instruction (`get_step`), and, told by opcodes under
the names of the instruction set, which instructions P, B, I, V and H can change in and which ones keep C or all flags
(`instructions_touch_only_their_flags`).
-/

namespace SnesSound

/-- A flag of the CPU. -/
inductive Flag
  | negative
  | overflow
  | directPage
  | brk
  | halfCarry
  | interrupt
  | zero
  | carry
  deriving DecidableEq, Repr

namespace Flag

/-- All flags. -/
def every : List Flag := [negative, overflow, directPage, brk, halfCarry, interrupt, zero, carry]

/-- The flags that tell about a result. -/
def ofResult : List Flag := [negative, zero]

/-- The flags that tell about a sum or a difference. -/
def ofSum : List Flag := [negative, overflow, halfCarry, zero, carry]

theorem mem_every (f : Flag) : f ∈ every := by cases f <;> decide

end Flag

/-! ## The flags of an instruction -/

section Footprints

open SnesSound.Flag

/-- The flags that an operation with two bytes may change. -/
def BinaryOp.flags : BinaryOp → List Flag
  | .or | .and | .eor => ofResult
  | .cmp => carry :: ofResult
  | .adc | .sbc => ofSum

/-- The flags that an operation with one byte may change. -/
def UnaryOp.flags : UnaryOp → List Flag
  | .shiftLeft | .rotateLeft | .shiftRight | .rotateRight => carry :: ofResult
  | .decrement | .increment => ofResult

/-- The flag that an instruction of its own gives a value. -/
def SettableFlag.flag : SettableFlag → Flag
  | .directPage => .directPage
  | .carry => .carry
  | .interrupt => .interrupt

/-- The flags that a register holds. -/
def CpuRegister.flags : CpuRegister → List Flag
  | .psw => every
  | .a | .x | .y | .sp => []

/-- The flags that an instruction may change. -/
def Instruction.flags : Instruction → List Flag
  | .setFlag flag _ => [flag.flag]
  | .clearOverflow => [overflow, halfCarry]
  | .invertCarry | .carryBit _ => [carry]
  | .softwareBreak => [brk, interrupt]
  | .returnInterrupt => every
  | .pop r => r.flags
  | .binary op _ | .binaryMemory op _ => op.flags
  | .compare .. | .compareWord | .decimalAdd | .decimalSubtract => carry :: ofResult
  | .unary op (.register r) => op.flags ++ r.flags
  | .unary op (.memory _) => op.flags
  | .testBits _ | .load .. | .loadIncrement | .stepWord _ | .loadWord | .multiply | .exchangeNibbles => ofResult
  | .transfer .sp _ => []
  | .transfer .. => ofResult
  | .addWord | .subtractWord => ofSum
  | .divide => [negative, overflow, halfCarry, zero]
  | .nop | .branch .. | .branchAlways | .branchBit .. | .branchUnequal _ | .decrementBranch | .decrementYBranch
  | .jump | .jumpIndexed | .call | .callPage | .callVector _ | .ret | .sleep | .stop | .push _ | .writeBit ..
  | .storeCarry | .invertBit | .store .. | .storeIncrement | .storeImmediate | .moveDirect | .storeWord => []

end Footprints

namespace Status

/-! ## Flags of results -/

/-- The value of a flag. -/
def get (p : Status) : Flag → Bool
  | .negative => p.negative
  | .overflow => p.overflow
  | .directPage => p.directPage
  | .brk => p.brk
  | .halfCarry => p.halfCarry
  | .interrupt => p.interrupt
  | .zero => p.zero
  | .carry => p.carry

theorem ext_get {p q : Status} (h : ∀ f, p.get f = q.get f) : p = q := by
  obtain ⟨n, v, d, b, hc, i, z, c⟩ := p
  cases (h .negative : n = _)
  cases (h .overflow : v = _)
  cases (h .directPage : d = _)
  cases (h .brk : b = _)
  cases (h .halfCarry : hc = _)
  cases (h .interrupt : i = _)
  cases (h .zero : z = _)
  cases (h .carry : c = _)
  rfl

variable {f : Flag} (p : Status)

theorem get_setNZ (h : f ∉ Flag.ofResult) (value : UInt8) : (p.setNZ value).get f = p.get f := by
  cases f with
  | negative | zero => exact absurd (by decide) h
  | _ => rfl

theorem get_setNZ16 (h : f ∉ Flag.ofResult) (value : UInt16) : (p.setNZ16 value).get f = p.get f := by
  cases f with
  | negative | zero => exact absurd (by decide) h
  | _ => rfl

theorem get_put (flag : SettableFlag) (h : f ≠ flag.flag) (value : Bool) : (flag.put value p).get f = p.get f := by
  cases flag with
  | directPage =>
    cases f with
    | directPage => exact absurd rfl h
    | _ => rfl
  | carry =>
    cases f with
    | carry => exact absurd rfl h
    | _ => rfl
  | interrupt =>
    cases f with
    | interrupt => exact absurd rfl h
    | _ => rfl

/-- Flags of a result, after C has got a value. -/
theorem get_carry_result (h : f ∉ Flag.carry :: Flag.ofResult) (c : Bool) (value : UInt8) :
    (({ p with carry := c } : Status).setNZ value).get f = p.get f := by
  cases f with
  | negative | zero | carry => exact absurd (by decide) h
  | _ => rfl

theorem get_compareWords (h : f ∉ Flag.carry :: Flag.ofResult) (left right : UInt16) :
    (p.compareWords left right).get f = p.get f := by
  cases f with
  | negative | zero | carry => exact absurd (by decide) h
  | _ => rfl

/-- Flags of a sum of two bytes. -/
theorem get_sum (h : f ∉ Flag.ofSum) (c hc v : Bool) (value : UInt8) :
    (({ p with carry := c, halfCarry := hc, overflow := v } : Status).setNZ value).get f = p.get f := by
  cases f with
  | negative | overflow | halfCarry | zero | carry => exact absurd (by decide) h
  | _ => rfl

/-- Flags of a sum of two words. -/
theorem get_sum16 (h : f ∉ Flag.ofSum) (c hc v : Bool) (value : UInt16) :
    (({ p with carry := c, halfCarry := hc, overflow := v } : Status).setNZ16 value).get f = p.get f := by
  cases f with
  | negative | overflow | halfCarry | zero | carry => exact absurd (by decide) h
  | _ => rfl

theorem get_divide (h : f ∉ Instruction.divide.flags) (ya : UInt16) (x : UInt8) :
    (p.divide ya x).2.2.get f = p.get f := by
  cases f with
  | negative | overflow | halfCarry | zero => exact absurd (by decide) h
  | _ => rfl

theorem get_binary (op : BinaryOp) (h : f ∉ op.flags) (left right : UInt8) :
    (p.binary op left right).2.get f = p.get f := by
  cases op with
  | or | and | eor => exact p.get_setNZ h _
  | cmp => exact p.get_carry_result h _ _
  | adc | sbc => exact p.get_sum h _ _ _ _

theorem get_unary (op : UnaryOp) (h : f ∉ op.flags) (value : UInt8) : (p.unary op value).2.get f = p.get f := by
  cases op with
  | shiftLeft | rotateLeft | shiftRight | rotateRight => exact p.get_carry_result h _ _
  | decrement | increment => exact p.get_setNZ h _

end Status

namespace Core

/-! ## Parts of instructions -/

/-- Whether a computation leaves a flag as it is. -/
def Spares (f : Flag) {α : Type} (x : Exec α) : Prop := ∀ s : Core, (x s).2.cpu.psw.get f = s.cpu.psw.get f

section Parts

variable {α β : Type} {f : Flag}

theorem spares_bind {x : Exec α} {g : α → Exec β} (hx : Spares f x) (hg : ∀ v, Spares f (g v)) :
    Spares f (x >>= g) :=
  fun s => (hg (x s).1 (x s).2).trans (hx s)

/-- What only moves the program counter changes no flags. -/
theorem Fetches.spares {n : UInt16} {x : Exec α} (h : Fetches n x) : Spares f x := fun s => by rw [(h s).1]

theorem spares_pure (v : α) : Spares f (pure v) := (fetches_pure v).spares

theorem spares_ask (g : RegisterSet → α) : Spares f (Processor.ask g : Exec α) := (fetches_ask g).spares

theorem spares_read (a : UInt16) : Spares f (Processor.read a : Exec UInt8) := (fetches_read a).spares

theorem spares_fetch : Spares f (Processor.fetch : Exec UInt8) := fetches_fetch.spares

theorem spares_fetchWord : Spares f (Processor.fetchWord : Exec UInt16) := fetches_fetchWord.spares

theorem spares_write (a : UInt16) (value : UInt8) : Spares f (Processor.write a value : Exec Unit) := fun s =>
  congrArg (fun c : RegisterSet => c.psw.get f) (registers_write s a value)

theorem spares_halt (state : RunState) : Spares f (Processor.halt state : Exec Unit) := fun _ => rfl

theorem spares_calculate (c : Calculation α) : Spares f (Processor.calculate c : Exec α) := fun _ => rfl

theorem spares_update {g : RegisterSet → RegisterSet} (h : ∀ c : RegisterSet, (g c).psw.get f = c.psw.get f) :
    Spares f (Processor.update g : Exec Unit) :=
  fun s => h s.cpu.toRegisterSet

theorem spares_updateFlags {g : Status → Status} (h : ∀ p, (g p).get f = p.get f) :
    Spares f (Processor.updateFlags g : Exec Unit) :=
  spares_update fun c => h c.psw

theorem spares_withFlags {g : Status → α × Status} (h : ∀ p, (g p).2.get f = p.get f) :
    Spares f (Processor.withFlags g : Exec α) :=
  fun s => h s.cpu.psw

theorem spares_calculateFlags {g : Status → Calculation (α × Status)} (h : ∀ p, (g p).result.2.get f = p.get f) :
    Spares f (Processor.calculateFlags g : Exec α) :=
  fun s => h s.cpu.psw

theorem spares_push (value : UInt8) : Spares f (Processor.push value : Exec Unit) :=
  spares_bind (spares_ask _) fun _ => spares_bind (spares_write _ _) fun _ => spares_update fun _ => rfl

theorem spares_pop : Spares f (Processor.pop : Exec UInt8) :=
  spares_bind (spares_update fun _ => rfl) fun _ => spares_bind (spares_ask _) fun _ => spares_read _

theorem spares_pushWord (value : UInt16) : Spares f (Processor.pushWord value : Exec Unit) :=
  spares_bind (spares_push _) fun _ => spares_push _

theorem spares_popWord : Spares f (Processor.popWord : Exec UInt16) :=
  spares_bind spares_pop fun _ => spares_bind spares_pop fun _ => spares_pure _

theorem spares_writeDirectWord (offset : UInt8) (value : UInt16) :
    Spares f (Processor.writeDirectWord offset value : Exec Unit) :=
  spares_bind (spares_ask _) fun _ => spares_bind (spares_write _ _) fun _ => spares_bind (spares_ask _) fun _ =>
  spares_write _ _

theorem spares_fetchBit : Spares f (Processor.fetchBit : Exec (UInt16 × Fin 8)) :=
  spares_bind spares_fetchWord fun _ => spares_pure _

theorem spares_jump (destination : UInt16) :
    Spares f (Processor.update fun c => { c with pc := destination } : Exec Unit) :=
  spares_update fun _ => rfl

theorem spares_branch (condition : Bool) : Spares f (Processor.branch condition : Exec Bool) := by
  refine spares_bind spares_fetch fun distance => ?_
  cases condition with
  | true => exact spares_bind (spares_update fun _ => rfl) fun _ => spares_pure _
  | false => exact spares_pure _

theorem spares_call (destination : UInt16) : Spares f (Processor.call destination : Exec Unit) :=
  spares_bind (spares_ask _) fun _ => spares_bind (spares_pushWord _) fun _ => spares_jump _

theorem spares_changeByte (a : UInt16) (g : UInt8 → Calculation UInt8) :
    Spares f (Processor.changeByte a g : Exec Unit) :=
  spares_bind (spares_read _) fun _ => spares_bind (spares_calculate _) fun _ => spares_write _ _

/-- A register that holds no flags. -/
theorem psw_set {r : CpuRegister} (h : f ∉ r.flags) (c : RegisterSet) (value : UInt8) :
    (c.set r value).psw.get f = c.psw.get f := by
  cases r with
  | psw => exact absurd f.mem_every h
  | a | x | y | sp => rfl

end Parts

/-! ## Instructions -/

variable {f : Flag} {i : Instruction}

theorem spares_perform (h : f ∉ i.flags) : Spares f (i.perform : Exec Unit) := by
  cases i with
  | nop | branch | branchBit | branchUnequal | decrementBranch | decrementYBranch => exact spares_pure _
  | setFlag flag value => exact spares_updateFlags fun p => p.get_put flag (List.ne_of_not_mem_cons h) value
  | clearOverflow =>
    refine spares_updateFlags fun p => ?_
    cases f with
    | overflow | halfCarry => exact absurd (by decide) h
    | _ => rfl
  | invertCarry => exact spares_updateFlags fun p => p.get_put .carry (List.ne_of_not_mem_cons h) _
  | branchAlways => exact spares_bind (spares_branch true) fun _ => spares_pure _
  | jump => exact spares_bind spares_fetchWord fun _ => spares_jump _
  | jumpIndexed =>
    exact spares_bind spares_fetchWord fun _ => spares_bind (spares_ask _) fun _ =>
      spares_bind (fetches_readWord _).spares fun _ => spares_jump _
  | call => exact spares_bind spares_fetchWord fun _ => spares_call _
  | callPage => exact spares_bind spares_fetch fun _ => spares_call _
  | callVector =>
    exact spares_bind (spares_calculate _) fun _ => spares_bind (fetches_readWord _).spares fun _ => spares_call _
  | softwareBreak =>
    refine spares_bind (spares_ask _) fun _ => spares_bind (spares_pushWord _) fun _ =>
      spares_bind (spares_ask _) fun _ => spares_bind (spares_push _) fun _ =>
      spares_bind (spares_updateFlags fun p => ?_) fun _ => spares_bind (fetches_readWord _).spares fun _ =>
      spares_jump _
    cases f with
    | brk | interrupt => exact absurd (by decide) h
    | _ => rfl
  | ret => exact spares_bind spares_popWord fun _ => spares_jump _
  | returnInterrupt => exact absurd f.mem_every h
  | sleep | stop => exact spares_halt _
  | push => exact spares_bind (spares_ask _) fun _ => spares_push _
  | pop r => exact spares_bind spares_pop fun _ => spares_update fun c => psw_set h c _
  | writeBit => exact spares_bind fetches_fetchDirect.spares fun _ => spares_changeByte _ _
  | carryBit =>
    exact spares_bind spares_fetchBit fun _ => spares_bind (spares_read _) fun _ =>
      spares_bind (spares_calculate _) fun _ =>
      spares_updateFlags fun p => p.get_put .carry (List.ne_of_not_mem_cons h) _
  | storeCarry => exact spares_bind spares_fetchBit fun _ => spares_bind (spares_ask _) fun _ => spares_changeByte _ _
  | invertBit => exact spares_bind spares_fetchBit fun _ => spares_changeByte _ _
  | testBits =>
    exact spares_bind spares_fetchWord fun _ => spares_bind (spares_read _) fun _ =>
      spares_bind (spares_ask _) fun _ => spares_bind (spares_updateFlags fun p => p.get_setNZ h _) fun _ =>
      spares_write _ _
  | binary op source =>
    exact spares_bind (fetches_operand source).spares fun _ => spares_bind (spares_ask _) fun _ =>
      spares_bind (spares_calculateFlags fun p => p.get_binary op h _ _) fun _ => spares_update fun _ => rfl
  | binaryMemory op operands =>
    refine spares_bind (fetches_operandPair operands).spares fun _ => spares_bind (spares_read _) fun _ =>
      spares_bind (spares_calculateFlags fun p => p.get_binary op h _ _) fun _ => ?_
    split
    · exact spares_write _ _
    · exact spares_pure _
  | compare r source =>
    exact spares_bind (fetches_operand source).spares fun _ => spares_bind (spares_ask _) fun _ =>
      spares_updateFlags fun p => p.get_carry_result h _ _
  | unary op target =>
    cases target with
    | register r =>
      obtain ⟨hop, hr⟩ := not_or.mp (mt List.mem_append.mpr h)
      exact spares_bind (spares_ask _) fun _ => spares_bind (spares_withFlags fun p => p.get_unary op hop _) fun _ =>
        spares_update fun c => psw_set hr c _
    | memory mode =>
      exact spares_bind (fetches_address mode).spares fun _ => spares_bind (spares_read _) fun _ =>
        spares_bind (spares_withFlags fun p => p.get_unary op h _) fun _ => spares_write _ _
  | load r source =>
    exact spares_bind (fetches_operand source).spares fun _ => spares_update fun c => c.psw.get_setNZ h _
  | loadIncrement =>
    exact spares_bind (spares_ask _) fun _ => spares_bind (spares_read _) fun _ =>
      spares_update fun c => c.psw.get_setNZ h _
  | store mode =>
    exact spares_bind (fetches_address mode).spares fun _ => spares_bind (spares_ask _) fun _ => spares_write _ _
  | storeIncrement =>
    exact spares_bind (spares_ask _) fun _ => spares_bind (spares_ask _) fun _ =>
      spares_bind (spares_write _ _) fun _ => spares_update fun _ => rfl
  | storeImmediate =>
    exact spares_bind spares_fetch fun _ => spares_bind fetches_fetchDirect.spares fun _ => spares_write _ _
  | moveDirect =>
    exact spares_bind fetches_fetchDirect.spares fun _ => spares_bind (spares_read _) fun _ =>
      spares_bind fetches_fetchDirect.spares fun _ => spares_write _ _
  | transfer destination source =>
    cases destination with
    | sp => exact spares_update fun _ => rfl
    | a | x | y | psw => exact spares_update fun c => c.psw.get_setNZ h _
  | stepWord =>
    exact spares_bind spares_fetch fun _ => spares_bind (fetches_readDirectWord _).spares fun _ =>
      spares_bind (spares_writeDirectWord _ _) fun _ => spares_updateFlags fun p => p.get_setNZ16 h _
  | compareWord =>
    exact spares_bind spares_fetch fun _ => spares_bind (fetches_readDirectWord _).spares fun _ =>
      spares_update fun c => c.psw.get_compareWords h _ _
  | addWord =>
    exact spares_bind spares_fetch fun _ => spares_bind (fetches_readDirectWord _).spares fun _ =>
      spares_bind (spares_ask _) fun _ => spares_bind (spares_calculateFlags fun p => p.get_sum16 h _ _ _ _) fun _ =>
      spares_update fun _ => rfl
  | subtractWord =>
    exact spares_bind spares_fetch fun _ => spares_bind (fetches_readDirectWord _).spares fun _ =>
      spares_bind (spares_ask _) fun _ => spares_bind (spares_withFlags fun p => p.get_sum16 h _ _ _ _) fun _ =>
      spares_update fun _ => rfl
  | loadWord =>
    exact spares_bind spares_fetch fun _ => spares_bind (fetches_readDirectWord _).spares fun _ =>
      spares_update fun c => c.psw.get_setNZ16 h _
  | storeWord => exact spares_bind spares_fetch fun _ => spares_bind (spares_ask _) fun _ => spares_writeDirectWord _ _
  | multiply =>
    exact spares_bind (spares_ask _) fun _ => spares_bind (spares_calculateFlags fun p => p.get_setNZ h _) fun _ =>
      spares_update fun _ => rfl
  | divide => exact fun s => s.cpu.psw.get_divide h _ _
  | decimalAdd =>
    exact spares_bind (spares_ask _) fun _ => spares_bind (spares_withFlags fun p => p.get_carry_result h _ _) fun _ =>
      spares_update fun _ => rfl
  | decimalSubtract =>
    exact spares_bind (spares_ask _) fun _ => spares_bind (spares_withFlags fun p => p.get_carry_result h _ _) fun _ =>
      spares_update fun _ => rfl
  | exchangeNibbles => exact spares_update fun c => c.psw.get_setNZ h _

theorem spares_execute (h : f ∉ i.flags) : Spares f (i.execute : Exec Bool) := by
  cases i with
  | branch => exact spares_bind (spares_ask _) fun _ => spares_branch _
  | branchBit =>
    exact spares_bind fetches_fetchDirect.spares fun _ => spares_bind (spares_read _) fun _ =>
      spares_bind (spares_calculate _) fun _ => spares_branch _
  | branchUnequal mode =>
    exact spares_bind (fetches_address mode).spares fun _ => spares_bind (spares_read _) fun _ =>
      spares_bind (spares_ask _) fun _ => spares_branch _
  | decrementBranch =>
    exact spares_bind fetches_fetchDirect.spares fun _ => spares_bind (spares_read _) fun _ =>
      spares_bind (spares_write _ _) fun _ => spares_branch _
  | decrementYBranch =>
    exact spares_bind (spares_update fun _ => rfl) fun _ => spares_bind (spares_ask _) fun _ => spares_branch _
  | _ => exact spares_bind (spares_perform h) fun _ => spares_pure _

/-- A step changes no other flags than those of its instruction. -/
theorem get_step {s : Core} (h : f ∉ s.nextInstruction.flags) : s.step.2.cpu.psw.get f = s.cpu.psw.get f := by
  have hexecute := spares_execute h s.opcodeFetched
  rw [registers_opcodeFetched] at hexecute
  exact hexecute

end Core

/-! ## The instruction set -/

/-- An instruction under the name that programs are written with. Where it matters, the name tells what is moved. -/
inductive Mnemonic
  | clrp
  | setp
  | ei
  | di
  | clrv
  | brk
  | reti
  | popPsw
  | adc
  | sbc
  | addw
  | subw
  | div
  /-- MOV to A, X or Y from memory, or of an immediate byte -/
  | movLoad
  /-- MOV between registers -/
  | movTransfer
  /-- MOV to memory -/
  | movStore
  /-- MOVW to YA -/
  | movwLoad
  /-- MOVW to memory -/
  | movwStore
  /-- MOV1 to memory -/
  | mov1Store
  | inc
  | dec
  | incw
  | decw
  | or
  | and
  | eor
  | tset1
  | tclr1
  | mul
  | xcn
  | push
  /-- Branches that test a flag, and BRA -/
  | branch
  | bbs
  | bbc
  | cbne
  | dbnz
  | jmp
  | call
  | pcall
  | tcall
  | ret
  | set1
  | clr1
  | not1
  deriving DecidableEq, Repr

namespace Mnemonic

/-- The opcodes of an instruction. -/
def opcodes : Mnemonic → List UInt8
  | clrp => [0x20]
  | setp => [0x40]
  | ei => [0xA0]
  | di => [0xC0]
  | clrv => [0xE0]
  | brk => [0x0F]
  | reti => [0x7F]
  | popPsw => [0x8E]
  | adc => [0x84, 0x85, 0x86, 0x87, 0x88, 0x89, 0x94, 0x95, 0x96, 0x97, 0x98, 0x99]
  | sbc => [0xA4, 0xA5, 0xA6, 0xA7, 0xA8, 0xA9, 0xB4, 0xB5, 0xB6, 0xB7, 0xB8, 0xB9]
  | addw => [0x7A]
  | subw => [0x9A]
  | div => [0x9E]
  | movLoad => [0xE4, 0xE5, 0xE6, 0xE7, 0xE8, 0xF4, 0xF5, 0xF6, 0xF7, 0xBF, 0xCD, 0xE9, 0xF8, 0xF9, 0x8D, 0xEB, 0xEC,
      0xFB]
  | movTransfer => [0x5D, 0x7D, 0x9D, 0xBD, 0xDD, 0xFD]
  | movStore => [0xC4, 0xC5, 0xC6, 0xC7, 0xD4, 0xD5, 0xD6, 0xD7, 0xAF, 0xC9, 0xD8, 0xD9, 0xCB, 0xCC, 0xDB, 0x8F, 0xFA]
  | movwLoad => [0xBA]
  | movwStore => [0xDA]
  | mov1Store => [0xCA]
  | inc => [0xAB, 0xAC, 0xBB, 0xBC, 0x3D, 0xFC]
  | dec => [0x8B, 0x8C, 0x9B, 0x9C, 0x1D, 0xDC]
  | incw => [0x3A]
  | decw => [0x1A]
  | or => [0x04, 0x05, 0x06, 0x07, 0x08, 0x09, 0x14, 0x15, 0x16, 0x17, 0x18, 0x19]
  | and => [0x24, 0x25, 0x26, 0x27, 0x28, 0x29, 0x34, 0x35, 0x36, 0x37, 0x38, 0x39]
  | eor => [0x44, 0x45, 0x46, 0x47, 0x48, 0x49, 0x54, 0x55, 0x56, 0x57, 0x58, 0x59]
  | tset1 => [0x0E]
  | tclr1 => [0x4E]
  | mul => [0xCF]
  | xcn => [0x9F]
  | push => [0x0D, 0x2D, 0x4D, 0x6D]
  | branch => [0x10, 0x30, 0x50, 0x70, 0x90, 0xB0, 0xD0, 0xF0, 0x2F]
  | bbs => [0x03, 0x23, 0x43, 0x63, 0x83, 0xA3, 0xC3, 0xE3]
  | bbc => [0x13, 0x33, 0x53, 0x73, 0x93, 0xB3, 0xD3, 0xF3]
  | cbne => [0x2E, 0xDE]
  | dbnz => [0x6E, 0xFE]
  | jmp => [0x1F, 0x5F]
  | call => [0x3F]
  | pcall => [0x4F]
  | tcall => [0x01, 0x11, 0x21, 0x31, 0x41, 0x51, 0x61, 0x71, 0x81, 0x91, 0xA1, 0xB1, 0xC1, 0xD1, 0xE1, 0xF1]
  | ret => [0x6F]
  | set1 => [0x02, 0x22, 0x42, 0x62, 0x82, 0xA2, 0xC2, 0xE2]
  | clr1 => [0x12, 0x32, 0x52, 0x72, 0x92, 0xB2, 0xD2, 0xF2]
  | not1 => [0xEA]

/-- The opcodes of several instructions. -/
def opcodesOf (instructions : List Mnemonic) : List UInt8 := instructions.flatMap opcodes

end Mnemonic

namespace Core

variable {f : Flag} {s : Core} {instructions : List Mnemonic}

open Mnemonic

/-- A flag that changes in a step is one that the instruction may change. -/
theorem mem_opcodesOf_of_ne
    (h : ∀ n : Fin 256, f ∈ (Opcode.decode (UInt8.ofNat n)).flags → UInt8.ofNat n ∈ opcodesOf instructions)
    (hne : s.step.2.cpu.psw.get f ≠ s.cpu.psw.get f) : s.peek s.cpu.pc ∈ opcodesOf instructions := by
  have hflags : f ∈ (Opcode.decode (s.peek s.cpu.pc)).flags := Decidable.not_imp_comm.mp get_step hne
  have hn := h ⟨(s.peek s.cpu.pc).toNat, (s.peek s.cpu.pc).toNat_lt⟩
  rw [UInt8.ofNat_toNat] at hn
  exact hn hflags

/-- Flags stay as they are in a step with an instruction that may change none of them. -/
theorem get_step_of_mem {F : List Flag}
    (h : ∀ opcode ∈ opcodesOf instructions, ∀ f ∈ F, f ∉ (Opcode.decode opcode).flags)
    (hmem : s.peek s.cpu.pc ∈ opcodesOf instructions) (hf : f ∈ F) : s.step.2.cpu.psw.get f = s.cpu.psw.get f :=
  get_step (h _ hmem f hf)

/-- **Instructions touch only their own flags.** In every state of the CPU, of RAM and of the registers of the sound
unit, P changes in a step only if its opcode is one of CLRP, SETP, POP PSW or RETI, B only with BRK, POP PSW or RETI, I
only with EI, DI, BRK, POP PSW or RETI, and V and H only with ADC, SBC, ADDW, SUBW, DIV, CLRV, POP PSW or RETI. Loads,
transfers, INC, DEC, INCW, DECW, the logical operations on bytes, MUL, MOVW to YA and XCN keep C; stores, pushes,
branches, jumps, CALL, PCALL, TCALL, RET, SET1, CLR1 and NOT1 keep all flags. -/
theorem instructions_touch_only_their_flags (s : Core) :
    let opcode := s.peek s.cpu.pc
    let p := s.cpu.psw
    let q := s.step.2.cpu.psw
    (q.directPage ≠ p.directPage → opcode ∈ opcodesOf [clrp, setp, popPsw, reti]) ∧
    (q.brk ≠ p.brk → opcode ∈ opcodesOf [brk, popPsw, reti]) ∧
    (q.interrupt ≠ p.interrupt → opcode ∈ opcodesOf [ei, di, brk, popPsw, reti]) ∧
    (q.overflow ≠ p.overflow ∨ q.halfCarry ≠ p.halfCarry →
      opcode ∈ opcodesOf [adc, sbc, addw, subw, div, clrv, popPsw, reti]) ∧
    (opcode ∈ opcodesOf [movLoad, movTransfer, inc, dec, incw, decw, or, and, eor, tset1, tclr1, mul, movwLoad,
        xcn] →
      q.carry = p.carry) ∧
    (opcode ∈ opcodesOf [movStore, movwStore, mov1Store, push, branch, bbs, bbc, cbne, dbnz, jmp, call, pcall, tcall,
        ret, set1, clr1, not1] →
      q = p) := by
  intro opcode p q
  refine ⟨fun h => ?_, fun h => ?_, fun h => ?_, fun h => ?_, fun h => ?_, fun h => ?_⟩
  · exact mem_opcodesOf_of_ne (f := .directPage) (by decide +kernel) h
  · exact mem_opcodesOf_of_ne (f := .brk) (by decide +kernel) h
  · exact mem_opcodesOf_of_ne (f := .interrupt) (by decide +kernel) h
  · rcases h with h | h
    · exact mem_opcodesOf_of_ne (f := .overflow) (by decide +kernel) h
    · exact mem_opcodesOf_of_ne (f := .halfCarry) (by decide +kernel) h
  · exact get_step_of_mem (F := [.carry]) (by decide +kernel) h List.mem_cons_self
  · exact Status.ext_get fun f => get_step_of_mem (by decide +kernel) h f.mem_every

/-- A core whose flags are C alone, about to execute an opcode; on top of its stack lie V, P, B, H and I. -/
def poised (opcode : UInt8) : Core where
  cpu := { pc := 0x0200, psw := { carry := true } }
  memory := (Memory.zero.set 0x0200 opcode).set 0x01F0 0x7C

/-- POP PSW changes five flags at once, MOV to Y keeps C, and TCALL keeps all flags. -/
theorem instructions_touch_only_their_flags_popped :
    ((poised 0x8E).step.2.cpu.psw = .ofByte 0x7C ∧
      (poised 0x8E).peek (poised 0x8E).cpu.pc ∈ opcodesOf [clrp, setp, popPsw, reti] ∧
      (poised 0x8E).peek (poised 0x8E).cpu.pc ∈ opcodesOf [brk, popPsw, reti] ∧
      (poised 0x8E).peek (poised 0x8E).cpu.pc ∈ opcodesOf [ei, di, brk, popPsw, reti] ∧
      (poised 0x8E).peek (poised 0x8E).cpu.pc ∈ opcodesOf [adc, sbc, addw, subw, div, clrv, popPsw, reti]) ∧
    (poised 0x8D).step.2.cpu.psw.carry = true ∧ (poised 0x11).step.2.cpu.psw = (poised 0x11).cpu.psw := by
  have hpop : (poised 0x8E).step.2.cpu.psw = .ofByte 0x7C := by decide +kernel
  obtain ⟨hp, hb, hi, hvh, -, -⟩ := instructions_touch_only_their_flags (poised 0x8E)
  rw [hpop] at hp hb hi hvh
  obtain ⟨-, -, -, -, hload, -⟩ := instructions_touch_only_their_flags (poised 0x8D)
  obtain ⟨-, -, -, -, -, hcall⟩ := instructions_touch_only_their_flags (poised 0x11)
  exact ⟨⟨hpop, hp (by decide), hb (by decide), hi (by decide), hvh (by decide)⟩, hload (by decide +kernel),
    hcall (by decide +kernel)⟩

end Core

end SnesSound
