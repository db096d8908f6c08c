import SnesSound.Proofs.Cpu.Step

/-!
# Computations of the CPU

What the parts of instructions do to a core, and what an instruction does from the fetch of its opcode on. Before an
instruction works, it finds its operands; it may read I/O registers on the way, but all that this changes in registers
and in RAM is the program counter, which goes past the bytes of the operand.

Main statements: how far the program counter goes for every way to find an operand (`fetches_address`,
`fetches_operand`, `fetches_operandPair`), and what a step does if it is no conditional branch (`step_of_decode`).
-/

namespace SnesSound

namespace Core

variable {s : Core} {a : UInt16}

/-! ## Memory -/

theorem afterRead_of_none (h : IoRegister.ofAddress? a = none) : s.afterRead a = s := by
  rw [afterRead, h]

theorem peek_ram (h : IoRegister.ofAddress? a = none) (ha : a.toNat < 0xFFC0) : s.peek a = s.memory.get a := by
  rw [peek, h]
  change s.memory.read a _ = _
  rw [Memory.read, dif_neg fun hr => Nat.not_lt.mpr (UInt16.le_iff_toNat_le.mp hr.2) ha]

theorem registers_afterRead (s : Core) (a : UInt16) :
    (s.afterRead a).cpu.toRegisterSet = s.cpu.toRegisterSet := by
  unfold afterRead
  split <;> rfl

theorem registers_write (s : Core) (a : UInt16) (value : UInt8) :
    (s.write a value).cpu.toRegisterSet = s.cpu.toRegisterSet := by
  change (s.writeIo a value).cpu.toRegisterSet = _
  unfold writeIo
  split <;> rfl

/-- A write to an address without an I/O register is a write to RAM. -/
theorem write_of_none (h : IoRegister.ofAddress? a = none) (value : UInt8) :
    s.write a value = { s with memory := s.memory.set a value } := by
  rw [write, writeIo, h]

/-! ## Parts of computations -/

section Computations

variable {α β : Type}

theorem bind_apply (x : Exec α) (f : α → Exec β) (s : Core) : (x >>= f) s = f (x s).1 (x s).2 := rfl

theorem pure_apply (v : α) (s : Core) : (pure v : Exec α) s = (v, s) := rfl

theorem read_apply (a : UInt16) (s : Core) : (Processor.read a : Exec UInt8) s = (s.peek a, s.afterRead a) := rfl

theorem write_apply (a : UInt16) (value : UInt8) (s : Core) :
    (Processor.write a value : Exec Unit) s = ((), s.write a value) := rfl

theorem ask_apply (f : RegisterSet → α) (s : Core) : (Processor.ask f : Exec α) s = (f s.cpu.toRegisterSet, s) := rfl

theorem update_apply (f : RegisterSet → RegisterSet) (s : Core) :
    (Processor.update f : Exec Unit) s = ((), s.setRegisters (f s.cpu.toRegisterSet)) := rfl

theorem calculate_apply (c : Calculation α) (s : Core) : (Processor.calculate c : Exec α) s = (c.result, s) := rfl

end Computations

/-! ## Fetching -/

/-- Whether a computation moves the program counter by `n` bytes and changes no other register and no RAM. -/
def Fetches (n : UInt16) {α : Type} (x : Exec α) : Prop :=
  ∀ s : Core, (x s).2.cpu.toRegisterSet = { s.cpu.toRegisterSet with pc := s.cpu.pc + n } ∧
    (x s).2.memory = s.memory

section Fetching

variable {α β : Type} {k m n : UInt16}

theorem fetches_of_unchanged {x : Exec α} (hr : ∀ s : Core, (x s).2.cpu.toRegisterSet = s.cpu.toRegisterSet)
    (hm : ∀ s : Core, (x s).2.memory = s.memory) : Fetches 0 x := fun s => by
  have hpc : s.cpu.pc + 0 = s.cpu.pc := UInt16.add_zero _
  exact ⟨(hr s).trans (by rw [hpc]), hm s⟩

theorem fetches_pure (v : α) : Fetches 0 (pure v) := fetches_of_unchanged (fun _ => rfl) fun _ => rfl

theorem fetches_ask (f : RegisterSet → α) : Fetches 0 (Processor.ask f : Exec α) :=
  fetches_of_unchanged (fun _ => rfl) fun _ => rfl

theorem fetches_read (a : UInt16) : Fetches 0 (Processor.read a : Exec UInt8) :=
  fetches_of_unchanged (registers_afterRead · a) (memory_afterRead · a)

theorem Fetches.bind {x : Exec α} {f : α → Exec β} (hx : Fetches m x) (hf : ∀ v, Fetches n (f v)) (hk : m + n = k) :
    Fetches k (x >>= f) := fun s => by
  obtain ⟨hxr, hxm⟩ := hx s
  obtain ⟨hfr, hfm⟩ := hf (x s).1 (x s).2
  rw [bind_apply]
  refine ⟨?_, hfm.trans hxm⟩
  have hpc : (x s).2.cpu.pc = s.cpu.pc + m := congrArg RegisterSet.pc hxr
  rw [hfr, hpc, hxr, UInt16.add_assoc, hk]

theorem fetches_fetch : Fetches 1 (Processor.fetch : Exec UInt8) := fun s => by
  have hr := registers_afterRead s s.cpu.pc
  have hpc : (s.afterRead s.cpu.pc).cpu.pc = s.cpu.pc := congrArg RegisterSet.pc hr
  refine ⟨?_, memory_afterRead s s.cpu.pc⟩
  change { (s.afterRead s.cpu.pc).cpu.toRegisterSet with pc := (s.afterRead s.cpu.pc).cpu.pc + 1 } = _
  rw [hpc, hr]

theorem fetches_fetchWord : Fetches 2 (Processor.fetchWord : Exec UInt16) :=
  fetches_fetch.bind (fun _ => fetches_fetch.bind (fun _ => fetches_pure _) rfl) rfl

theorem fetches_readWord (a : UInt16) : Fetches 0 (Processor.readWord a : Exec UInt16) :=
  (fetches_read _).bind (fun _ => (fetches_read _).bind (fun _ => fetches_pure _) rfl) rfl

theorem fetches_readDirectWord (offset : UInt8) : Fetches 0 (Processor.readDirectWord offset : Exec UInt16) :=
  (fetches_ask _).bind (fun _ => (fetches_read _).bind (fun _ => (fetches_ask _).bind
    (fun _ => (fetches_read _).bind (fun _ => fetches_pure _) rfl) rfl) rfl) rfl

theorem fetches_fetchDirect : Fetches 1 (Processor.fetchDirect : Exec UInt16) :=
  fetches_fetch.bind (fun _ => fetches_ask _) rfl

end Fetching

end Core

/-! ## Operands -/

/-- The number of bytes that an addressing mode takes from the program. -/
def Mode.size : Mode → UInt16
  | .direct | .directX | .directY | .indexedIndirect | .indirectIndexed => 1
  | .absolute | .absoluteX | .absoluteY => 2
  | .indirectX => 0

/-- The number of bytes that stand for the operand of an instruction. -/
def Source.size : Source → UInt16
  | .immediate => 1
  | .memory mode => mode.size

/-- The number of bytes that stand for the two operands of an operation on memory. -/
def MemoryPair.size : MemoryPair → UInt16
  | .directDirect | .directImmediate => 2
  | .indirectXY => 0

namespace Core

theorem fetches_address (mode : Mode) : Fetches mode.size (Processor.address mode : Exec UInt16) := by
  cases mode with
  | direct => exact fetches_fetchDirect
  | directX | directY => exact fetches_fetch.bind (fun _ => fetches_ask _) rfl
  | absolute => exact fetches_fetchWord
  | absoluteX | absoluteY => exact fetches_fetchWord.bind (fun _ => fetches_ask _) rfl
  | indirectX => exact fetches_ask _
  | indexedIndirect =>
    exact fetches_fetch.bind (fun _ => (fetches_ask _).bind (fun _ => fetches_readDirectWord _) rfl) rfl
  | indirectIndexed =>
    exact fetches_fetch.bind (fun _ => (fetches_readDirectWord _).bind (fun _ => fetches_ask _) rfl) rfl

theorem fetches_operand (source : Source) : Fetches source.size (Processor.operand source : Exec UInt8) := by
  cases source with
  | immediate => exact fetches_fetch
  | memory mode => exact (fetches_address mode).bind (fun _ => fetches_read _) (UInt16.add_zero _)

theorem fetches_operandPair (operands : MemoryPair) :
    Fetches operands.size (Processor.operandPair operands : Exec (UInt8 × UInt16)) := by
  cases operands with
  | directDirect =>
    exact fetches_fetchDirect.bind (fun _ => (fetches_read _).bind (fun _ => fetches_fetchDirect.bind
      (fun _ => fetches_pure _) rfl) rfl) rfl
  | directImmediate =>
    exact fetches_fetch.bind (fun _ => fetches_fetchDirect.bind (fun _ => fetches_pure _) rfl) rfl
  | indirectXY =>
    exact (fetches_ask _).bind (fun _ => (fetches_read _).bind (fun _ => (fetches_ask _).bind
      (fun _ => fetches_pure _) rfl) rfl) rfl

/-! ## Steps -/

/-- The instruction at the program counter. -/
def nextInstruction (s : Core) : Instruction := Opcode.decode (s.peek s.cpu.pc)

/-- The core after an opcode is fetched. -/
def opcodeFetched (s : Core) : Core := ((Processor.fetch : Exec UInt8) s).2

variable {s : Core} {i : Instruction}

theorem registers_opcodeFetched (s : Core) :
    s.opcodeFetched.cpu.toRegisterSet = { s.cpu.toRegisterSet with pc := s.cpu.pc + 1 } := (fetches_fetch s).1

theorem memory_opcodeFetched (s : Core) : s.opcodeFetched.memory = s.memory := (fetches_fetch s).2

theorem execute_of_unconditional (hc : i.isConditional = false) :
    (i.execute : Exec Bool) = i.perform >>= fun _ => pure false := by
  cases i with
  | branch | branchBit | branchUnequal | decrementBranch | decrementYBranch => cases hc
  | _ => rfl

/-- A step carries out the instruction at the program counter and lets its time pass. -/
theorem step_of_decode (hi : s.nextInstruction = i) (hc : i.isConditional = false) :
    s.step.2 = ((i.perform : Exec Unit) s.opcodeFetched).2.pass s.step.1 := by
  have hstep : s.step.2 = ((s.nextInstruction.execute : Exec Bool) s.opcodeFetched).2.pass s.step.1 := rfl
  rw [hstep, hi, execute_of_unconditional hc]
  rfl

/-- Time changes no registers. -/
@[simp] theorem registers_pass (s : Core) (cycles : Nat) : (s.pass cycles).cpu.toRegisterSet = s.cpu.toRegisterSet :=
  rfl

/-- Time changes no RAM. -/
@[simp] theorem memory_pass (s : Core) (cycles : Nat) : (s.pass cycles).memory = s.memory := rfl

end Core

end SnesSound
