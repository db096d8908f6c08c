import SnesSound.Proofs.Cpu.Computation

/-!
# Operations of the CPU

Addition, subtraction, comparison and the operations on bits come with A, with X and Y (comparison only) and with memory
on their left, and with every way to find a byte on their right; three more take a word on either side. What they have
in common is told here once: which operands they find, what they leave, and that a comparison leaves nothing but flags.

Main statements: what a step does if an operation with two bytes (`operated_step`), an operation with two words
(`step_addWord`, `step_subtractWord`) or a comparison of two words (`step_compareWord`) is at the program counter.
-/

namespace SnesSound

/-- An operation with two bytes. -/
structure Operation where
  op : BinaryOp
  left : UInt8
  right : UInt8
  /-- The address that receives the result; A if there is none. -/
  destination : Option UInt16
  deriving DecidableEq

namespace Core

/-- The operation with two bytes at the program counter, if there is one, with the operands that it is going to find. -/
def nextOperation (s : Core) : Option Operation :=
  match s.nextInstruction with
  | .binary op source =>
    some ⟨op, s.cpu.a, ((Processor.operand source : Exec UInt8) s.opcodeFetched).1, none⟩
  | .compare r source =>
    some ⟨.cmp, s.cpu.get r, ((Processor.operand source : Exec UInt8) s.opcodeFetched).1, none⟩
  | .binaryMemory op operands =>
    let ((right, address), t) := (Processor.operandPair operands : Exec (UInt8 × UInt16)) s.opcodeFetched
    some ⟨op, t.peek address, right, some address⟩
  | _ => none

/-- The byte at the destination of an operation. -/
def byteAt (s : Core) : Option UInt16 → UInt8
  | none => s.cpu.a
  | some address => s.memory.get address

/-- The word that an operation with YA is going to find. -/
def wordOperand (s : Core) : UInt16 :=
  ((do Processor.readDirectWord (← Processor.fetch) : Exec UInt16) s.opcodeFetched).1

/-- What an operation with two bytes makes of a core. -/
structure Operated (o : Operation) (s t : Core) : Prop where
  psw : t.cpu.psw = (s.cpu.psw.binary o.op o.left o.right).2
  result : o.op ≠ .cmp → t.byteAt o.destination = (s.cpu.psw.binary o.op o.left o.right).1
  /-- A comparison has no result. -/
  compared : o.op = .cmp → t.cpu.toRegisterSet = { s.cpu.toRegisterSet with pc := t.cpu.pc, psw := t.cpu.psw } ∧
    t.memory = s.memory

variable {α : Type} {s : Core}

/-! ## Results with flags -/

theorem calculateFlags_apply (f : Status → Calculation (α × Status)) (s : Core) :
    (Processor.calculateFlags f : Exec α) s =
      ((f s.cpu.psw).result.1, s.setRegisters { s.cpu.toRegisterSet with psw := (f s.cpu.psw).result.2 }) := rfl

theorem withFlags_apply (f : Status → α × Status) (s : Core) :
    (Processor.withFlags f : Exec α) s =
      ((f s.cpu.psw).1, s.setRegisters { s.cpu.toRegisterSet with psw := (f s.cpu.psw).2 }) := rfl

/-! ## Operands -/

/-- Up to its operands, an instruction has changed the program counter only. -/
theorem Fetches.opcodeFetched {n : UInt16} {x : Exec α} (hx : Fetches n x) (s : Core) :
    (x s.opcodeFetched).2.cpu.toRegisterSet = { s.cpu.toRegisterSet with pc := s.cpu.pc + 1 + n } ∧
      (x s.opcodeFetched).2.memory = s.memory := by
  obtain ⟨hr, hm⟩ := hx s.opcodeFetched
  rw [registers_opcodeFetched] at hr
  exact ⟨hr, hm.trans (memory_opcodeFetched s)⟩

theorem fetches_wordOperand : Fetches 1 (do Processor.readDirectWord (← Processor.fetch) : Exec UInt16) :=
  fetches_fetch.bind (fun _ => fetches_readDirectWord _) rfl

/-! ## Operations with two bytes -/

section Bytes

variable {t : Core} {op : BinaryOp} {source : Source} {operands : MemoryPair} {left right : UInt8} {address pc : UInt16}

theorem perform_binary (h : (Processor.operand source : Exec UInt8) s = (right, t)) :
    let y := t.cpu.psw.binary op t.cpu.a right
    (((Instruction.binary op source).perform : Exec Unit) s).2 =
      t.setRegisters { t.cpu.toRegisterSet with a := y.1, psw := y.2 } := by
  simp only [Instruction.perform, bind_apply, ask_apply, calculateFlags_apply, update_apply, h]
  rfl

theorem perform_compare {r : CpuRegister} (h : (Processor.operand source : Exec UInt8) s = (right, t)) :
    (((Instruction.compare r source).perform : Exec Unit) s).2 =
      t.setRegisters { t.cpu.toRegisterSet with psw := t.cpu.psw.compare (t.cpu.get r) right } := by
  simp only [Instruction.perform, bind_apply, ask_apply, Processor.updateFlags, update_apply, h]

theorem perform_binaryMemory
    (h : (Processor.operandPair operands : Exec (UInt8 × UInt16)) s = ((right, address), t)) :
    let y := (t.afterRead address).cpu.psw.binary op (t.peek address) right
    let u := (t.afterRead address).setRegisters { (t.afterRead address).cpu.toRegisterSet with psw := y.2 }
    (((Instruction.binaryMemory op operands).perform : Exec Unit) s).2 =
      if op ≠ .cmp then u.write address y.1 else u := by
  simp only [Instruction.perform, bind_apply, read_apply, calculateFlags_apply, h]
  split <;> rfl

theorem operated_accumulator (hr : t.cpu.toRegisterSet = { s.cpu.toRegisterSet with pc }) (hm : t.memory = s.memory) :
    let y := t.cpu.psw.binary op t.cpu.a right
    Operated ⟨op, s.cpu.a, right, none⟩ s (t.setRegisters { t.cpu.toRegisterSet with a := y.1, psw := y.2 }) := by
  refine ⟨?psw, fun _ => ?result, fun hop => ?compared⟩
  case psw =>
    change (t.cpu.psw.binary op t.cpu.a right).2 = _
    rw [hr]
  case result =>
    change (t.cpu.psw.binary op t.cpu.a right).1 = _
    rw [hr]
  case compared =>
    cases hop
    refine ⟨?_, hm⟩
    change { t.cpu.toRegisterSet with a := t.cpu.a, psw := t.cpu.psw.compare t.cpu.a right } = _
    rw [hr]
    rfl

theorem operated_register (r : CpuRegister) (hr : t.cpu.toRegisterSet = { s.cpu.toRegisterSet with pc })
    (hm : t.memory = s.memory) :
    Operated ⟨.cmp, s.cpu.get r, right, none⟩ s
      (t.setRegisters { t.cpu.toRegisterSet with psw := t.cpu.psw.compare (t.cpu.get r) right }) := by
  refine ⟨?_, fun hop => absurd rfl hop, fun _ => ⟨?_, hm⟩⟩
  · change t.cpu.psw.compare (t.cpu.get r) right = s.cpu.psw.compare (s.cpu.get r) right
    rw [hr]
    cases r <;> rfl
  · change { t.cpu.toRegisterSet with psw := t.cpu.psw.compare (t.cpu.get r) right } = _
    rw [hr]
    rfl

theorem operated_memory (hr : t.cpu.toRegisterSet = { s.cpu.toRegisterSet with pc }) (hm : t.memory = s.memory) :
    let y := t.cpu.psw.binary op left right
    let u := t.setRegisters { t.cpu.toRegisterSet with psw := y.2 }
    Operated ⟨op, left, right, some address⟩ s (if op ≠ .cmp then u.write address y.1 else u) := by
  have hpsw : t.cpu.psw = s.cpu.psw := by rw [hr]
  rw [hpsw]
  refine ⟨?psw, fun hop => ?result, fun hop => ?compared⟩
  case psw =>
    split
    · exact congrArg RegisterSet.psw (registers_write ..)
    · rfl
  case result =>
    rw [if_pos hop]
    exact (congrArg (Memory.get · address) (memory_write ..)).trans (Memory.get_set_self ..)
  case compared =>
    rw [if_neg (Decidable.not_not.mpr hop)]
    refine ⟨?_, hm⟩
    change { t.cpu.toRegisterSet with psw := (s.cpu.psw.binary op left right).2 } = _
    rw [hr]
    rfl

theorem Operated.pass {o : Operation} (h : Operated o s t) (cycles : Nat) : Operated o s (t.pass cycles) := by
  refine ⟨h.psw, fun hop => ?_, h.compared⟩
  rw [← h.result hop]
  cases o.destination <;> rfl

/-- An operation with two bytes is carried out with the operands that it finds. -/
theorem operated_step {o : Operation} (h : s.nextOperation = some o) : Operated o s s.step.2 := by
  unfold nextOperation at h
  split at h
  next op source hi =>
    obtain ⟨hr, hm⟩ := (fetches_operand source).opcodeFetched s
    rw [step_of_decode hi rfl]
    generalize hx : (Processor.operand source : Exec UInt8) s.opcodeFetched = x at h hr hm
    obtain ⟨right, t⟩ := x
    cases h
    rw [perform_binary hx]
    exact (operated_accumulator hr hm).pass _
  next r source hi =>
    obtain ⟨hr, hm⟩ := (fetches_operand source).opcodeFetched s
    rw [step_of_decode hi rfl]
    generalize hx : (Processor.operand source : Exec UInt8) s.opcodeFetched = x at h hr hm
    obtain ⟨right, t⟩ := x
    cases h
    rw [perform_compare hx]
    exact (operated_register r hr hm).pass _
  next op operands hi =>
    obtain ⟨hr, hm⟩ := (fetches_operandPair operands).opcodeFetched s
    rw [step_of_decode hi rfl]
    generalize hx : (Processor.operandPair operands : Exec (UInt8 × UInt16)) s.opcodeFetched = x at h hr hm
    obtain ⟨⟨right, address⟩, t⟩ := x
    cases h
    rw [perform_binaryMemory hx]
    exact (operated_memory ((registers_afterRead t address).trans hr) ((memory_afterRead t address).trans hm)).pass _
  next => cases h

end Bytes

/-! ## Operations with two words -/

/-- Whether an instruction takes a word and all that it does with it is to give the registers new values. -/
def TakesWord (i : Instruction) (f : UInt16 → RegisterSet → RegisterSet) : Prop :=
  ∀ {s t : Core} {right : UInt16},
    (do Processor.readDirectWord (← Processor.fetch) : Exec UInt16) s = (right, t) →
      ((i.perform : Exec Unit) s).2 = t.setRegisters (f right t.cpu.toRegisterSet)

theorem takesWord_addWord : TakesWord .addWord fun right c =>
    { c.setYA (c.psw.addWords c.ya right).1 with psw := (c.psw.addWords c.ya right).2 } := fun h => by
  rw [bind_apply] at h
  simp only [Instruction.perform, bind_apply, ask_apply, calculateFlags_apply, update_apply, h]
  rfl

theorem takesWord_subtractWord : TakesWord .subtractWord fun right c =>
    { c.setYA (c.psw.subtractWords c.ya right).1 with psw := (c.psw.subtractWords c.ya right).2 } := fun h => by
  rw [bind_apply] at h
  simp only [Instruction.perform, bind_apply, ask_apply, withFlags_apply, update_apply, h]
  rfl

theorem takesWord_compareWord : TakesWord .compareWord fun right c =>
    { c with psw := c.psw.compareWords c.ya right } := fun h => by
  rw [bind_apply] at h
  simp only [Instruction.perform, bind_apply, update_apply, h]

/-- A step that takes a word changes registers only. -/
theorem TakesWord.step {i : Instruction} {f : UInt16 → RegisterSet → RegisterSet} (hf : TakesWord i f)
    (hi : s.nextInstruction = i) (hc : i.isConditional = false) :
    s.step.2.cpu.toRegisterSet = f s.wordOperand { s.cpu.toRegisterSet with pc := s.cpu.pc + 1 + 1 } ∧
      s.step.2.memory = s.memory := by
  obtain ⟨hr, hm⟩ := fetches_wordOperand.opcodeFetched s
  rw [step_of_decode hi hc, registers_pass, memory_pass, wordOperand]
  generalize hx : (do Processor.readDirectWord (← Processor.fetch) : Exec UInt16) s.opcodeFetched = x at hr hm ⊢
  obtain ⟨right, t⟩ := x
  rw [hf hx, ← hr]
  exact ⟨rfl, hm⟩

end Core

end SnesSound
