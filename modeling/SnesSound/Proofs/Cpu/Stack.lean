import SnesSound.Proofs.Cpu.Computation

/-!
# The stack

The stack pointer is an offset in page 1 and wraps around there. No I/O register lies in this page, so the stack is a
piece of RAM that holds up to 256 bytes. What lies on it is a list, the byte that was pushed last in front
(`Core.OnStack`); a push puts a byte in front of it and a pop takes it off.

Calls push the address behind them, and BRK pushes the flags as well, before it changes them. What happens in between
does not matter: wherever the call leads, the return finds what the call has left, also if the code lies in the stack
itself.

Main statement: calls and returns match, and so do pushes and pops (`calls_and_pushes_match`).
-/

namespace SnesSound

namespace Processor

variable {m : Type → Type} [Processor m]

/-- Pushes bytes one after the other. -/
def pushAll : List UInt8 → m Unit
  | [] => pure ()
  | b :: bytes => do
    push b
    pushAll bytes

/-- Pops a number of bytes and returns them in the order in which they come. -/
def popAll : Nat → m (List UInt8)
  | 0 => pure []
  | n + 1 => do
    let b ← pop
    let bytes ← popAll n
    return b :: bytes

end Processor

/-! ## Offsets -/

section Offsets

variable (sp : UInt8) (n : Nat)

theorem offset_succ : UInt8.ofNat (n + 1) = UInt8.ofNat n + 1 := UInt8.ofNat_add n 1

theorem sub_one_add_offset_succ : sp - 1 + UInt8.ofNat (n + 1) = sp + UInt8.ofNat n := by
  grind [offset_succ]

theorem add_one_add_offset : sp + 1 + UInt8.ofNat n = sp + UInt8.ofNat (n + 1) := by
  grind [offset_succ]

theorem sub_one_sub_offset : sp - 1 - UInt8.ofNat n = sp - UInt8.ofNat (n + 1) := by
  grind [offset_succ]

end Offsets

/-- Addresses in the same page are the same if their offsets are. -/
theorem word_left_inj {a b page : UInt8} : word a page = word b page ↔ a = b := by
  refine ⟨fun h => ?_, fun h => h ▸ rfl⟩
  have hlow := congrArg lowByte h
  rwa [lowByte_word, lowByte_word] at hlow

namespace Core

/-! ## Pushing and popping -/

/-- The core with another stack pointer. -/
def withStackPointer (s : Core) (sp : UInt8) : Core := s.setRegisters { s.cpu.toRegisterSet with sp }

/-- The core with another byte at the stack pointer. -/
def withTop (s : Core) (value : UInt8) : Core := { s with memory := s.memory.set s.cpu.stackAddress value }

/-- There are no I/O registers in the stack. -/
theorem ofAddress?_stack (sp : UInt8) : IoRegister.ofAddress? (word sp 1) = none := by
  apply IoRegister.ofAddress?_eq_none
  rw [toNat_word]
  change _ ∨ 255 < sp.toNat + 256 * 1
  omega

theorem push_apply (value : UInt8) (s : Core) :
    (Processor.push value : Exec Unit) s = ((), (s.withTop value).withStackPointer (s.cpu.sp - 1)) := by
  have hwrite : s.write s.cpu.stackAddress value = s.withTop value := write_of_none (ofAddress?_stack s.cpu.sp) value
  simp only [Processor.push, bind_apply, ask_apply, write_apply, update_apply, hwrite]
  rfl

theorem pop_apply (s : Core) :
    (Processor.pop : Exec UInt8) s =
      (s.memory.get (word (s.cpu.sp + 1) 1), s.withStackPointer (s.cpu.sp + 1)) := by
  have hlt := (s.cpu.sp + 1).toNat_lt
  have hram : (word (s.cpu.sp + 1) 1).toNat < 0xFFC0 := by
    rw [toNat_word]
    change (s.cpu.sp + 1).toNat + 256 * 1 < 65472
    omega
  have hnone := ofAddress?_stack (s.cpu.sp + 1)
  change ((s.withStackPointer (s.cpu.sp + 1)).peek (word (s.cpu.sp + 1) 1),
    (s.withStackPointer (s.cpu.sp + 1)).afterRead (word (s.cpu.sp + 1) 1)) = _
  rw [peek_ram hnone hram, afterRead_of_none hnone]
  rfl

/-! ## What lies on the stack -/

/-- Whether bytes lie on the stack, the one that was pushed last in front. -/
def OnStack (s : Core) (bytes : List UInt8) : Prop :=
  bytes.length ≤ 256 ∧
    ∀ i (h : i < bytes.length), s.memory.get (word (s.cpu.sp + UInt8.ofNat (i + 1)) 1) = bytes[i]

variable {s t : Core} {b : UInt8} {bytes rest : List UInt8}

theorem onStack_nil (s : Core) : s.OnStack [] := ⟨Nat.zero_le _, fun _ h => absurd h (Nat.not_lt_zero _)⟩

/-- The stack is in RAM, where the stack pointer points to. -/
theorem OnStack.congr (h : s.OnStack bytes) (hsp : t.cpu.sp = s.cpu.sp) (hm : t.memory = s.memory) :
    t.OnStack bytes := by
  refine ⟨h.1, fun i hi => ?_⟩
  rw [hsp, hm]
  exact h.2 i hi

theorem OnStack.push (h : s.OnStack bytes) (hlen : bytes.length < 256) (b : UInt8) :
    ((s.withTop b).withStackPointer (s.cpu.sp - 1)).OnStack (b :: bytes) := by
  refine ⟨hlen, fun i hi => ?_⟩
  change (s.memory.set (word s.cpu.sp 1) b).get (word (s.cpu.sp - 1 + UInt8.ofNat (i + 1)) 1) = _
  cases i with
  | zero =>
    rw [sub_one_add_offset_succ]
    change (s.memory.set (word s.cpu.sp 1) b).get (word (s.cpu.sp + 0) 1) = b
    rw [UInt8.add_zero, Memory.get_set_self]
  | succ i =>
    have hne : word s.cpu.sp 1 ≠ word (s.cpu.sp + UInt8.ofNat (i + 1)) 1 := by
      intro he
      have hi' : i < bytes.length := Nat.lt_of_succ_lt_succ hi
      have hsp := congrArg UInt8.toNat (word_left_inj.mp he)
      have hlt := s.cpu.sp.toNat_lt
      rw [UInt8.toNat_add, UInt8.toNat_ofNat'] at hsp
      omega
    rw [sub_one_add_offset_succ, Memory.get_set_of_ne _ _ hne]
    exact h.2 i (Nat.lt_of_succ_lt_succ hi)

/-- A pop takes the byte that was pushed last. -/
theorem OnStack.pop_eq (h : s.OnStack (b :: bytes)) :
    (Processor.pop : Exec UInt8) s = (b, s.withStackPointer (s.cpu.sp + 1)) := by
  have htop : s.memory.get (word (s.cpu.sp + 1) 1) = b := h.2 0 (Nat.zero_lt_succ _)
  rw [pop_apply, htop]

theorem OnStack.pop (h : s.OnStack (b :: bytes)) : (s.withStackPointer (s.cpu.sp + 1)).OnStack bytes := by
  refine ⟨Nat.le_of_succ_le h.1, fun i hi => ?_⟩
  change s.memory.get (word (s.cpu.sp + 1 + UInt8.ofNat (i + 1)) 1) = _
  rw [add_one_add_offset]
  exact h.2 (i + 1) (Nat.succ_lt_succ hi)

/-! ## Many bytes -/

/-- What pushing bytes makes of a core. -/
structure Pushed (bytes : List UInt8) (s t : Core) : Prop where
  /-- In the CPU only the stack pointer changes. -/
  cpu : t.cpu = (s.withStackPointer (s.cpu.sp - UInt8.ofNat bytes.length)).cpu
  /-- The sound unit is not affected. -/
  registers : t.registers = s.registers
  /-- RAM changes only where the stack pointer goes along, inside of page 1. -/
  memory : ∀ a, (∀ i < bytes.length, a ≠ word (s.cpu.sp - UInt8.ofNat i) 1) → t.memory.get a = s.memory.get a
  /-- The bytes lie on the stack. -/
  onStack : ∀ {rest}, s.OnStack rest → bytes.length + rest.length ≤ 256 → t.OnStack (bytes.reverse ++ rest)

theorem pushed_pushAll (bytes : List UInt8) (s : Core) :
    Pushed bytes s ((Processor.pushAll bytes : Exec Unit) s).2 := by
  induction bytes generalizing s with
  | nil =>
    refine ⟨?_, rfl, fun _ _ => rfl, fun h _ => h⟩
    change s.cpu = (s.withStackPointer (s.cpu.sp - 0)).cpu
    rw [UInt8.sub_zero]
    rfl
  | cons b bytes ih =>
    have hfirst : (Processor.pushAll (b :: bytes) : Exec Unit) s =
        (Processor.pushAll bytes : Exec Unit) ((s.withTop b).withStackPointer (s.cpu.sp - 1)) := by
      rw [Processor.pushAll, bind_apply, push_apply]
    have h := ih ((s.withTop b).withStackPointer (s.cpu.sp - 1))
    rw [hfirst]
    refine ⟨?_, h.registers, fun a ha => ?_, fun {rest} hrest hlen => ?_⟩
    · rw [List.length_cons, ← sub_one_sub_offset]
      exact h.cpu
    · have hne : s.cpu.stackAddress ≠ a := by
        have h0 := ha 0 (Nat.zero_lt_succ _)
        change a ≠ word (s.cpu.sp - 0) 1 at h0
        rw [UInt8.sub_zero] at h0
        exact h0.symm
      refine (h.memory a fun i hi => ?_).trans (Memory.get_set_of_ne _ _ hne)
      change a ≠ word (s.cpu.sp - 1 - UInt8.ofNat i) 1
      rw [sub_one_sub_offset]
      exact ha (i + 1) (Nat.succ_lt_succ hi)
    · rw [List.length_cons] at hlen
      rw [List.reverse_cons, List.append_assoc]
      have hroom : bytes.length + (rest.length + 1) ≤ 256 := by omega
      exact h.onStack (hrest.push (by omega) b) hroom

/-- Bytes that lie on the stack are popped in their order. -/
theorem popAll_apply (h : s.OnStack (bytes ++ rest)) :
    (Processor.popAll bytes.length : Exec (List UInt8)) s =
      (bytes, s.withStackPointer (s.cpu.sp + UInt8.ofNat bytes.length)) := by
  induction bytes generalizing s with
  | nil =>
    change ([], s) = ([], s.withStackPointer (s.cpu.sp + 0))
    rw [UInt8.add_zero]
    rfl
  | cons b bytes ih =>
    rw [List.length_cons, Processor.popAll, bind_apply, OnStack.pop_eq h, bind_apply, ih (OnStack.pop h),
      ← add_one_add_offset]
    rfl

/-- Bytes that are pushed are popped in reverse order, and only RAM in page 1 tells of them. -/
theorem popAll_pushAll (s : Core) (hlen : bytes.length ≤ 256) :
    ∃ m : Memory,
      (do Processor.pushAll bytes; Processor.popAll bytes.length : Exec (List UInt8)) s =
        (bytes.reverse, { s with memory := m }) ∧
      ∀ a, highByte a ≠ 1 → m.get a = s.memory.get a := by
  obtain ⟨hcpu, hregisters, hmemory, honStack⟩ := pushed_pushAll bytes s
  generalize ht : ((Processor.pushAll bytes : Exec Unit) s).2 = t at hcpu hregisters hmemory honStack
  refine ⟨t.memory, ?_, fun a ha => hmemory a ?_⟩
  · have hpop := popAll_apply (honStack s.onStack_nil hlen)
    rw [List.length_reverse] at hpop
    rw [bind_apply, ht, hpop]
    have hsp : t.cpu.sp + UInt8.ofNat bytes.length = s.cpu.sp := by
      rw [hcpu]
      exact UInt8.sub_add_cancel _ _
    have hself : t.withStackPointer s.cpu.sp = { s with memory := t.memory } := by
      obtain ⟨cpu, memory, registers⟩ := t
      subst hcpu hregisters
      rfl
    rw [hsp, hself]
  · rintro i - rfl
    exact ha (highByte_word _ _)

end Core

/-! ## Calls and returns -/

/-- A way to call a subroutine. -/
inductive CallKind
  /-- CALL -/
  | absolute
  /-- PCALL -/
  | page
  /-- TCALL -/
  | vector (n : Fin 16)
  /-- BRK -/
  | softwareBreak
  deriving DecidableEq

namespace CallKind

/-- The opcode of a call. -/
def opcode : CallKind → UInt8
  | .absolute => 0x3F
  | .page => 0x4F
  | .vector n => 0x10 * UInt8.ofNat n + 0x01
  | .softwareBreak => 0x0F

/-- The instruction that calls. -/
def instruction : CallKind → Instruction
  | .absolute => .call
  | .page => .callPage
  | .vector n => .callVector n
  | .softwareBreak => .softwareBreak

/-- The opcode of the return from a call. -/
def returnOpcode : CallKind → UInt8
  | .absolute | .page | .vector _ => 0x6F
  | .softwareBreak => 0x7F

/-- The instruction that returns from a call. -/
def returnInstruction : CallKind → Instruction
  | .absolute | .page | .vector _ => .ret
  | .softwareBreak => .returnInterrupt

/-- The number of bytes of the instruction that calls. -/
def size : CallKind → UInt16
  | .absolute => 3
  | .page => 2
  | .vector _ | .softwareBreak => 1

/-- What a call pushes, if it is to return to an address and finds these flags. -/
def saved (k : CallKind) (address : UInt16) (p : Status) : List UInt8 :=
  match k with
  | .absolute | .page | .vector _ => [highByte address, lowByte address]
  | .softwareBreak => [highByte address, lowByte address, p.toByte]

/-- The number of bytes that a call pushes. -/
def savedSize : CallKind → Nat
  | .absolute | .page | .vector _ => 2
  | .softwareBreak => 3

/-- The flags after a call. -/
def flags (k : CallKind) (p : Status) : Status :=
  match k with
  | .absolute | .page | .vector _ => p
  | .softwareBreak => { p with brk := true, interrupt := false }

variable (k : CallKind)

theorem decode_opcode : Opcode.decode k.opcode = k.instruction := by
  cases k with
  | absolute | page | softwareBreak => rfl
  | vector n =>
    revert n
    decide

theorem decode_returnOpcode : Opcode.decode k.returnOpcode = k.returnInstruction := by
  cases k with
  | absolute | page | vector => exact (rfl : Opcode.decode 0x6F = .ret)
  | softwareBreak => rfl

theorem isConditional_instruction : k.instruction.isConditional = false := by cases k <;> rfl

theorem isConditional_returnInstruction : k.returnInstruction.isConditional = false := by cases k <;> rfl

theorem length_saved (address : UInt16) (p : Status) : (k.saved address p).length = k.savedSize := by
  cases k <;> rfl

theorem savedSize_le : k.savedSize ≤ 3 := by
  cases k <;> simp [savedSize]

end CallKind

namespace Core

/-- What a call makes of a core. -/
structure Called (k : CallKind) (s t : Core) : Prop where
  registers : t.cpu.toRegisterSet = { s.cpu.toRegisterSet with
    pc := t.cpu.pc, sp := s.cpu.sp - UInt8.ofNat k.savedSize, psw := k.flags s.cpu.psw }
  memory : ∀ a, (∀ i < k.savedSize, a ≠ word (s.cpu.sp - UInt8.ofNat i) 1) → t.memory.get a = s.memory.get a
  onStack : t.OnStack (k.saved (s.cpu.pc + k.size) s.cpu.psw).reverse

variable {k : CallKind} {s t u v : Core} {address : UInt16} {p : Status}

/-- A call finds out where to go, pushes, and goes there. -/
theorem Called.of_pushed (ht : t.cpu.toRegisterSet = { s.cpu.toRegisterSet with pc := s.cpu.pc + k.size })
    (htm : t.memory = s.memory) (hu : Pushed (k.saved (s.cpu.pc + k.size) s.cpu.psw) t u)
    (hv : v.cpu.toRegisterSet = { u.cpu.toRegisterSet with pc := v.cpu.pc, psw := k.flags u.cpu.psw })
    (hvm : v.memory = u.memory) : Called k s v := by
  have hlen := k.length_saved (s.cpu.pc + k.size) s.cpu.psw
  have hroom : k.savedSize + 0 ≤ 256 := Nat.le_trans k.savedSize_le (by decide)
  have hsp : t.cpu.sp = s.cpu.sp := by rw [ht]
  have hvsp : v.cpu.sp = u.cpu.sp := by rw [hv]
  have hru : u.cpu.toRegisterSet = { t.cpu.toRegisterSet with sp := t.cpu.sp - UInt8.ofNat k.savedSize } := by
    rw [hu.cpu, hlen]
    rfl
  have honStack := hu.onStack t.onStack_nil (by rw [hlen]; exact hroom)
  rw [List.append_nil] at honStack
  refine ⟨?_, fun a ha => ?_, honStack.congr hvsp hvm⟩
  · rw [hv, hru, ht]
  · rw [hvm, hu.memory a (by rwa [hlen, hsp]), htm]

theorem pushWord_eq_pushAll (value : UInt16) :
    (Processor.pushWord value : Exec Unit) = Processor.pushAll [highByte value, lowByte value] := by
  funext s
  simp only [Processor.pushWord, Processor.pushAll, bind_apply, push_apply, pure_apply]

theorem call_apply (destination : UInt16) (s : Core) :
    let t := ((Processor.pushAll [highByte s.cpu.pc, lowByte s.cpu.pc] : Exec Unit) s).2
    ((Processor.call destination : Exec Unit) s).2 =
      t.setRegisters { t.cpu.toRegisterSet with pc := destination } := by
  simp only [Processor.call, bind_apply, ask_apply, pushWord_eq_pushAll, update_apply]

/-- Calls that push only the address behind them. -/
theorem Called.of_call {n : UInt16} {x : Exec UInt16} (hx : Fetches n x) (hsize : 1 + n = k.size)
    (hk : k ≠ .softwareBreak) (cycles : Nat) :
    Called k s (((x >>= Processor.call : Exec Unit) s.opcodeFetched).2.pass cycles) := by
  obtain ⟨hr, hm⟩ := hx s.opcodeFetched
  rw [bind_apply]
  generalize (x s.opcodeFetched).2 = t at hr hm ⊢
  have ht : t.cpu.toRegisterSet = { s.cpu.toRegisterSet with pc := s.cpu.pc + k.size } := by
    rw [hr, registers_opcodeFetched, UInt16.add_assoc, hsize]
  have hsaved : k.saved (s.cpu.pc + k.size) s.cpu.psw = [highByte t.cpu.pc, lowByte t.cpu.pc] := by
    rw [ht]
    cases k with
    | absolute | page | vector => rfl
    | softwareBreak => exact absurd rfl hk
  have hpushed := pushed_pushAll [highByte t.cpu.pc, lowByte t.cpu.pc] t
  rw [← hsaved] at hpushed
  refine .of_pushed ht (hm.trans (memory_opcodeFetched s)) hpushed ?_ ?_
  · rw [registers_pass, call_apply, ← hsaved]
    cases k with
    | absolute | page | vector => rfl
    | softwareBreak => exact absurd rfl hk
  · rw [memory_pass, call_apply, ← hsaved]
    rfl

/-- BRK pushes the flags as they are, changes them and goes where its vector points to. -/
theorem perform_softwareBreak (s : Core) :
    let t := ((Processor.pushAll [highByte s.cpu.pc, lowByte s.cpu.pc, s.cpu.psw.toByte] : Exec Unit) s).2
    let u := t.setRegisters { t.cpu.toRegisterSet with psw := CallKind.softwareBreak.flags t.cpu.psw }
    let v := (Processor.readWord Cpu.breakVector : Exec UInt16) u
    ((Instruction.softwareBreak.perform : Exec Unit) s).2 =
      v.2.setRegisters { v.2.cpu.toRegisterSet with pc := v.1 } := by
  simp only [Instruction.perform, Processor.pushWord, Processor.pushAll, Processor.updateFlags, bind_apply, ask_apply,
    push_apply, update_apply, pure_apply]
  rfl

theorem Called.of_break (s : Core) (cycles : Nat) :
    Called .softwareBreak s (((Instruction.softwareBreak.perform : Exec Unit) s.opcodeFetched).2.pass cycles) := by
  have hr := registers_opcodeFetched s
  have hm := memory_opcodeFetched s
  rw [perform_softwareBreak]
  generalize s.opcodeFetched = t at hr hm ⊢
  have hpc : t.cpu.pc = s.cpu.pc + 1 := by rw [hr]
  have hpsw : t.cpu.psw = s.cpu.psw := by rw [hr]
  have hpushed := pushed_pushAll [highByte t.cpu.pc, lowByte t.cpu.pc, t.cpu.psw.toByte] t
  rw [hpc, hpsw] at hpushed ⊢
  generalize
    ((Processor.pushAll [highByte (s.cpu.pc + 1), lowByte (s.cpu.pc + 1), s.cpu.psw.toByte] : Exec Unit) t).2 = u
    at hpushed ⊢
  obtain ⟨hvr, hvm⟩ := fetches_readWord Cpu.breakVector
    (u.setRegisters { u.cpu.toRegisterSet with psw := CallKind.softwareBreak.flags u.cpu.psw })
  generalize (Processor.readWord Cpu.breakVector : Exec UInt16) (u.setRegisters _) = v at hvr hvm ⊢
  refine .of_pushed hr hm hpushed ?_ hvm
  change { v.2.cpu.toRegisterSet with pc := v.1 } = _
  rw [hvr]
  rfl

/-- A step that calls. -/
theorem called_step (h : s.peek s.cpu.pc = k.opcode) : Called k s s.step.2 := by
  have hdecode : s.nextInstruction = k.instruction := by
    rw [nextInstruction, h, k.decode_opcode]
  rw [step_of_decode hdecode k.isConditional_instruction]
  generalize s.step.1 = cycles
  cases k with
  | absolute => exact .of_call fetches_fetchWord rfl (by simp) cycles
  | page =>
    have hx : Fetches 1 (do return word (← Processor.fetch) 0xFF : Exec UInt16) :=
      fetches_fetch.bind (fun _ => fetches_pure _) rfl
    exact .of_call hx rfl (by simp) cycles
  | vector n =>
    have hperform : ((Instruction.callVector n).perform : Exec Unit) =
        Processor.readWord (Calculation.vector n).result >>= Processor.call := by
      funext s
      rw [Instruction.perform, bind_apply, calculate_apply]
    rw [CallKind.instruction, hperform]
    exact .of_call (fetches_readWord _) rfl (by simp) cycles
  | softwareBreak => exact .of_break s cycles

theorem OnStack.popWord_eq {low high : UInt8} (h : s.OnStack (low :: high :: rest)) :
    (Processor.popWord : Exec UInt16) s = (word low high, s.withStackPointer (s.cpu.sp + 1 + 1)) := by
  rw [Processor.popWord, bind_apply, h.pop_eq, bind_apply, h.pop.pop_eq]
  rfl

theorem perform_ret {low high : UInt8} (h : s.OnStack (low :: high :: rest)) :
    ((Instruction.ret.perform : Exec Unit) s).2 =
      s.setRegisters { s.cpu.toRegisterSet with pc := word low high, sp := s.cpu.sp + 1 + 1 } := by
  rw [Instruction.perform, bind_apply, h.popWord_eq, update_apply]
  rfl

theorem perform_returnInterrupt {flags low high : UInt8} (h : s.OnStack (flags :: low :: high :: rest)) :
    ((Instruction.returnInterrupt.perform : Exec Unit) s).2 =
      s.setRegisters { s.cpu.toRegisterSet with
        pc := word low high, sp := s.cpu.sp + 1 + 1 + 1, psw := .ofByte flags } := by
  have hword : ((s.withStackPointer (s.cpu.sp + 1)).setRegisters
      { (s.withStackPointer (s.cpu.sp + 1)).cpu.toRegisterSet with psw := .ofByte flags }).OnStack
        (low :: high :: rest) := h.pop.congr rfl rfl
  simp only [Instruction.perform, bind_apply, h.pop_eq, update_apply, hword.popWord_eq]
  rfl

/-- A step that returns to where the call came from. -/
theorem returned_step (h : s.peek s.cpu.pc = k.returnOpcode) (hs : s.OnStack (k.saved address p).reverse)
    (hp : s.cpu.psw = k.flags p) :
    s.step.2.cpu.toRegisterSet =
      { s.cpu.toRegisterSet with pc := address, sp := s.cpu.sp + UInt8.ofNat k.savedSize, psw := p } ∧
    s.step.2.memory = s.memory := by
  have hdecode : s.nextInstruction = k.returnInstruction := by
    rw [nextInstruction, h, k.decode_returnOpcode]
  have hr := registers_opcodeFetched s
  have hm := memory_opcodeFetched s
  rw [step_of_decode hdecode k.isConditional_returnInstruction, registers_pass, memory_pass]
  generalize s.opcodeFetched = t at hr hm ⊢
  have ht : t.OnStack (k.saved address p).reverse := hs.congr (by rw [hr]) hm
  have htwo (sp : UInt8) : sp + 1 + 1 = sp + UInt8.ofNat 2 := add_one_add_offset sp 1
  cases k with
  | absolute | page | vector =>
    refine ⟨?_, ?_⟩
    · rw [CallKind.returnInstruction, perform_ret ht, word_lowByte_highByte, htwo, hr]
      change _ = { s.cpu.toRegisterSet with pc := address, sp := s.cpu.sp + UInt8.ofNat 2, psw := p }
      rw [← show s.cpu.psw = p from hp]
      rfl
    · rw [CallKind.returnInstruction, perform_ret ht]
      exact hm
  | softwareBreak =>
    have hthree : t.cpu.sp + 1 + 1 + 1 = t.cpu.sp + UInt8.ofNat 3 := by
      rw [htwo, add_one_add_offset]
    refine ⟨?_, ?_⟩
    · rw [CallKind.returnInstruction, perform_returnInterrupt ht, word_lowByte_highByte, Status.ofByte_toByte, hthree,
        hr]
      rfl
    · rw [CallKind.returnInstruction, perform_returnInterrupt ht]
      exact hm

end Core

/-- **Calls and returns match.** If a call leads to the return that belongs to it, two steps lead behind the call with
all other registers as they were, the flags included, and in RAM only the bytes have changed that were pushed: two, or
three if the call was BRK, from the stack pointer downwards inside of page 1. This is so wherever the code and the stack
pointer are, even if the pushes overwrite the call. And whatever bytes are pushed, up to 256 of them, popping as many
returns them in reverse order and leaves everything as it was but RAM in page 1. -/
theorem calls_and_pushes_match :
    (∀ (k : CallKind) (s : Core), s.peek s.cpu.pc = k.opcode →
      s.step.2.peek s.step.2.cpu.pc = k.returnOpcode →
        s.step.2.step.2.cpu.toRegisterSet = { s.cpu.toRegisterSet with pc := s.cpu.pc + k.size } ∧
        ∀ a, (∀ i < k.savedSize, a ≠ word (s.cpu.sp - UInt8.ofNat i) 1) →
          s.step.2.step.2.memory.get a = s.memory.get a) ∧
    ∀ (bytes : List UInt8) (s : Core), bytes.length ≤ 256 →
      ∃ m : Memory,
        (do Processor.pushAll bytes; Processor.popAll bytes.length : Exec (List UInt8)) s =
          (bytes.reverse, { s with memory := m }) ∧
        ∀ a, highByte a ≠ 1 → m.get a = s.memory.get a := by
  refine ⟨fun k s hcall hreturn => ?_, fun bytes s hlen => Core.popAll_pushAll s hlen⟩
  have hcalled := Core.called_step hcall
  obtain ⟨hr, hm⟩ := Core.returned_step hreturn hcalled.onStack (by rw [hcalled.registers])
  refine ⟨?_, fun a ha => ?_⟩
  · rw [hr, hcalled.registers]
    simp only [UInt8.sub_add_cancel]
  · rw [hm, hcalled.memory a ha]

/-- A core whose stack pointer is at the beginning of page 1, where the program counter is at a BRK. The vector of BRK
in the boot ROM leads to a RETI. -/
def breaking : Core where
  cpu := { pc := 0x0100, sp := 0, psw := { carry := true } }
  memory := (Memory.zero.set 0x0100 0x0F).set 0xF5E4 0x7F

/-- A BRK that is overwritten by what it pushes itself, at both ends of page 1. -/
theorem calls_and_pushes_match_across_the_page :
    (breaking.peek breaking.cpu.pc = 0x0F ∧ breaking.step.2.peek breaking.step.2.cpu.pc = 0x7F ∧
      breaking.step.2.step.2.cpu.toRegisterSet = { breaking.cpu.toRegisterSet with pc := 0x0101 } ∧
      breaking.step.2.step.2.memory.get 0x01FD = 0) ∧
    ∃ m : Memory, (do Processor.pushAll [1, 2, 3]; Processor.popAll 3 : Exec (List UInt8)) breaking =
      ([3, 2, 1], { breaking with memory := m }) ∧ m.get 0x0200 = 0 := by
  have hcall : breaking.peek breaking.cpu.pc = CallKind.softwareBreak.opcode := by decide +kernel
  have htarget : breaking.step.2.cpu.pc = 0xF5E4 := by decide +kernel
  have hreturn : breaking.step.2.peek breaking.step.2.cpu.pc = CallKind.softwareBreak.returnOpcode := by
    rw [htarget, Core.peek_ram (by decide) (by decide), (Core.called_step hcall).memory _ (by decide)]
    exact Memory.get_set_self ..
  obtain ⟨hcalls, hpushes⟩ := calls_and_pushes_match
  obtain ⟨hr, hm⟩ := hcalls .softwareBreak breaking hcall hreturn
  obtain ⟨m, hpop, hpage⟩ := hpushes [1, 2, 3] breaking (by decide)
  refine ⟨⟨hcall, hreturn, hr, ?_⟩, m, hpop, ?_⟩
  · rw [hm 0x01FD (by decide)]
    decide +kernel
  · rw [hpage 0x0200 (by decide)]
    decide +kernel

end SnesSound
