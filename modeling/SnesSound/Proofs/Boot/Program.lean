import SnesSound.Proofs.Cpu.Computation

/-!
# The boot program, instruction by instruction

What each instruction of the boot ROM does to the core, apart from the time that it takes. The program runs with the
direct page at page 0, reads its instructions from the ROM whatever lies in RAM behind it, and makes use of a few forms
of instructions only, each of which has a lemma of its own.

| address | instructions |
|---|---|
| `FFC0` | `MOV X,#EF`, `MOV SP,X`, `MOV A,#0` |
| `FFC5` | `MOV (X),A`, `DEC X`, `BNE FFC5` |
| `FFC9` | `MOV F4,#AA`, `MOV F5,#BB` |
| `FFCF` | `CMP F4,#CC`, `BNE FFCF`, `BRA FFEF` |
| `FFD6` | `MOV Y,F4`, `BNE FFD6` |
| `FFDA` | `CMP Y,F4`, `BNE FFE9`, `MOV A,F5`, `MOV F4,Y`, `MOV [00]+Y,A`, `INC Y`, `BNE FFDA`, `INC 01` |
| `FFE9` | `BPL FFDA`, `CMP Y,F4`, `BPL FFDA` |
| `FFEF` | `MOVW YA,F6`, `MOVW 00,YA`, `MOVW YA,F4`, `MOV F4,A`, `MOV A,Y`, `MOV X,A`, `BNE FFD6` |
-/

namespace SnesSound

namespace Core

/-- The core after one instruction, apart from the time that it takes. -/
def after (s : Core) : Core := ((Processor.executeNext : Exec (UInt8 × Bool)) s).2

theorem step_eq_after (s : Core) : s.step.2 = s.after.pass s.step.1 := rfl

/-- Whether the CPU runs, sees the boot ROM and has its direct page at page 0. -/
structure Boots (s : Core) : Prop where
  running : s.cpu.runState = .running
  rom : s.cpu.control.bootRomEnabled = true
  page : s.cpu.psw.directPage = false

/-- The core with another program counter. -/
def goTo (s : Core) (pc : UInt16) : Core := s.setRegisters { s.cpu.toRegisterSet with pc }

/-- The byte of the boot ROM at an address. -/
def romByte (address : UInt16) : UInt8 := bootRom[(address - bootRomStart).toNat % 64]

variable {s : Core} {p a b : UInt16}

/-! ## Memory and ports -/

theorem Boots.goTo (h : s.Boots) (pc : UInt16) : (s.goTo pc).Boots := ⟨h.running, h.rom, h.page⟩

theorem afterRead_goTo (s : Core) (pc a : UInt16) : (s.goTo pc).afterRead a = (s.afterRead a).goTo pc := by
  unfold afterRead
  split <;> rfl

theorem ofAddress?_of_rom (ha : 0xFFC0 ≤ a.toNat) : IoRegister.ofAddress? a = none :=
  IoRegister.ofAddress?_eq_none (.inr (Nat.lt_of_lt_of_le (by decide) ha))

theorem peek_rom (h : s.Boots) (ha : 0xFFC0 ≤ a.toNat) : s.peek a = romByte a := by
  have hlt := a.toNat_lt
  have hle : bootRomStart ≤ a := UInt16.le_iff_toNat_le.mpr ha
  have hsub : (a - bootRomStart).toNat < 64 := by
    rw [UInt16.toNat_sub_of_le _ _ hle]
    change a.toNat - 65472 < 64
    omega
  rw [peek, ofAddress?_of_rom ha]
  change s.memory.read a s.cpu.control.bootRomEnabled = _
  rw [h.rom, Memory.read, dif_pos ⟨rfl, hle⟩, romByte]
  simp only [Nat.mod_eq_of_lt hsub, get_eq_getElem, Fin.getElem_fin]

/-! ## The forms of instructions that the program makes use of -/

section Forms

variable (r : CpuRegister) (mode : Mode) (source : Source)

theorem execute_load : ((Instruction.load r source).execute : Exec Bool) = do
    let value ← Processor.operand source
    Processor.update fun c => c.load r value
    return false := rfl

theorem execute_store : ((Instruction.store mode r).execute : Exec Bool) = do
    let address ← Processor.address mode
    Processor.write address (← Processor.ask (·.get r))
    return false := rfl

theorem execute_storeImmediate : ((Instruction.storeImmediate).execute : Exec Bool) = do
    let value ← Processor.fetch
    let address ← Processor.fetchDirect
    Processor.write address value
    return false := rfl

theorem execute_compare : ((Instruction.compare r source).execute : Exec Bool) = do
    let right ← Processor.operand source
    let left ← Processor.ask (·.get r)
    Processor.updateFlags fun p => p.compare left right
    return false := rfl

theorem execute_compareMemory (operands : MemoryPair) :
    ((Instruction.binaryMemory .cmp operands).execute : Exec Bool) = do
      let (right, destination) ← Processor.operandPair operands
      let left ← Processor.read destination
      let _ ← Processor.calculateFlags (.binary .cmp left right)
      return false := rfl

theorem execute_unaryMemory (op : UnaryOp) :
    ((Instruction.unary op (.memory mode)).execute : Exec Bool) = do
      let address ← Processor.address mode
      let value ← Processor.read address
      let result ← Processor.withFlags fun p => p.unary op value
      Processor.write address result
      return false := rfl

theorem execute_loadWord : ((Instruction.loadWord).execute : Exec Bool) = do
    let value ← Processor.readDirectWord (← Processor.fetch)
    Processor.update fun c => { c.setYA value with psw := c.psw.setNZ16 value }
    return false := rfl

theorem execute_storeWord : ((Instruction.storeWord).execute : Exec Bool) = do
    let offset ← Processor.fetch
    Processor.writeDirectWord offset (← Processor.ask (·.ya))
    return false := rfl

theorem execute_branch (condition : Condition) (value : Bool) :
    ((Instruction.branch condition value).execute : Exec Bool) = (do
      let flag ← Processor.ask fun c => condition.test c.psw
      Processor.branch (flag == value)) := rfl

theorem execute_branchAlways : ((Instruction.branchAlways).execute : Exec Bool) = do
    let _ ← Processor.branch true
    return false := rfl

end Forms

/-! ## Instructions -/

/-- Reading a word of the direct page. -/
theorem readDirectWord_goTo (h : s.Boots) (offset : UInt8) (ha : word offset 0 = a)
    (hb : word (offset + 1) 0 = b) (hra : s.afterRead a = s) (hrb : s.afterRead b = s) :
    (Processor.readDirectWord offset : Exec UInt16) (s.goTo p) = (word (s.peek a) (s.peek b), s.goTo p) := by
  have hpage : (s.goTo p).cpu.psw.directPage = false := h.page
  have hlow : (s.goTo p).afterRead a = s.goTo p := by rw [afterRead_goTo, hra]
  have hhigh : (s.goTo p).afterRead b = s.goTo p := by rw [afterRead_goTo, hrb]
  simp only [Processor.readDirectWord, bind_apply, ask_apply, read_apply, pure_apply, RegisterSet.directAddress, hpage,
    Bool.false_eq_true, if_false, ha, hb, hlow, hhigh]
  rfl

section Instructions

variable (h : s.Boots) (hp : 0xFFC0 ≤ p.toNat)

include h hp

theorem fetch_goTo : (Processor.fetch : Exec UInt8) (s.goTo p) = (romByte p, s.goTo (p + 1)) := by
  have hread : (Processor.fetch : Exec UInt8) (s.goTo p) =
      ((s.goTo p).peek p,
        ((s.goTo p).afterRead p).setRegisters { ((s.goTo p).afterRead p).cpu.toRegisterSet with
          pc := ((s.goTo p).afterRead p).cpu.pc + 1 }) := rfl
  rw [hread, peek_rom (h.goTo p) hp, afterRead_of_none (ofAddress?_of_rom hp)]
  rfl

theorem fetchDirect_goTo :
    (Processor.fetchDirect : Exec UInt16) (s.goTo p) = (word (romByte p) 0, s.goTo (p + 1)) := by
  have hask : (Processor.fetchDirect : Exec UInt16) (s.goTo p) =
      (((Processor.fetch : Exec UInt8) (s.goTo p)).2.cpu.directAddress ((Processor.fetch : Exec UInt8) (s.goTo p)).1,
        ((Processor.fetch : Exec UInt8) (s.goTo p)).2) := rfl
  rw [hask, fetch_goTo h hp, RegisterSet.directAddress, (h.goTo (p + 1)).page]
  rfl

/-- An instruction is fetched with its opcode. -/
theorem fetch_of_pc (hpc : s.cpu.pc = p) : (Processor.fetch : Exec UInt8) s = (romByte p, s.goTo (p + 1)) := by
  have hself : s.goTo p = s := by
    subst hpc
    rfl
  have hfetch := fetch_goTo h hp
  rwa [hself] at hfetch

/-- An instruction is executed behind its opcode. -/
theorem after_of_decode {i : Instruction} (hpc : s.cpu.pc = p) (hi : Opcode.decode (romByte p) = i) :
    s.after = ((i.execute : Exec Bool) (s.goTo (p + 1))).2 := by
  have hfetch := fetch_of_pc h hp hpc
  have hnext : s.after = (((Opcode.decode ((Processor.fetch : Exec UInt8) s).1).execute : Exec Bool)
      ((Processor.fetch : Exec UInt8) s).2).2 := rfl
  rw [hnext, hfetch, hi]

/-- An instruction takes the time of its opcode, and more if it is a branch that is taken. -/
theorem cost_of_decode {i : Instruction} (hpc : s.cpu.pc = p) (hi : Opcode.decode (romByte p) = i) :
    s.step.1 = Opcode.cost (romByte p) ((i.execute : Exec Bool) (s.goTo (p + 1))).1 := by
  have hfetch := fetch_of_pc h hp hpc
  have hnext : s.step.1 = Opcode.cost ((Processor.fetch : Exec UInt8) s).1
      ((((Opcode.decode ((Processor.fetch : Exec UInt8) s).1).execute : Exec Bool)
        ((Processor.fetch : Exec UInt8) s).2).1) := rfl
  rw [hnext, hfetch, hi]

/-- An instruction that is no conditional branch takes the time of its opcode. -/
theorem cost_of_unconditional (hpc : s.cpu.pc = p) (hi : (Opcode.decode (romByte p)).isConditional = false) :
    s.step.1 = Opcode.cycles (romByte p) := by
  rw [cost_of_decode h hp hpc rfl]
  cases htaken : ((Opcode.decode (romByte p)).execute (m := Exec) (s.goTo (p + 1))).1 with
  | false => rfl
  | true => exact Bool.noConfusion (hi.symm.trans (Instruction.isConditional_of_taken _ htaken))

/-- A conditional branch takes its time as its condition has it. -/
theorem cost_of_branch {condition : Condition} {value : Bool} (hpc : s.cpu.pc = p)
    (hi : Opcode.decode (romByte p) = .branch condition value) :
    s.step.1 = Opcode.cost (romByte p) (condition.test s.cpu.psw == value) := by
  have htaken : ∀ (b : Bool) (s : Core), ((Processor.branch b : Exec Bool) s).1 = b := fun b s => by cases b <;> rfl
  rw [cost_of_decode h hp hpc hi, execute_branch, bind_apply, htaken]
  rfl

theorem branch_goTo (condition : Bool) : ((Processor.branch condition : Exec Bool) (s.goTo p)).2 =
    s.goTo (if condition then p + 1 + (romByte p).toInt8.toInt16.toUInt16 else p + 1) := by
  cases condition with
  | false =>
    simp only [Processor.branch, bind_apply, fetch_goTo h hp, pure_apply, Bool.false_eq_true, if_false]
  | true =>
    simp only [Processor.branch, bind_apply, fetch_goTo h hp, update_apply, pure_apply, if_true]
    rfl

theorem loadImmediate_goTo (r : CpuRegister) : (((Instruction.load r .immediate).execute : Exec Bool) (s.goTo p)).2 =
    s.setRegisters ({ s.cpu.toRegisterSet with pc := p + 1 }.load r (romByte p)) := by
  simp only [execute_load, Processor.operand, bind_apply, fetch_goTo h hp, update_apply,
    pure_apply]
  rfl

theorem loadDirect_goTo (r : CpuRegister) (ha : word (romByte p) 0 = a) (hr : s.afterRead a = s) :
    (((Instruction.load r (.memory .direct)).execute : Exec Bool) (s.goTo p)).2 =
      s.setRegisters ({ s.cpu.toRegisterSet with pc := p + 1 }.load r (s.peek a)) := by
  have hread : (s.goTo (p + 1)).afterRead a = s.goTo (p + 1) := by rw [afterRead_goTo, hr]
  simp only [execute_load, Processor.operand, Processor.address, bind_apply,
    fetchDirect_goTo h hp, read_apply, update_apply, pure_apply, ha, hread]
  rfl

theorem compareDirect_goTo (r : CpuRegister) (ha : word (romByte p) 0 = a) (hr : s.afterRead a = s) :
    (((Instruction.compare r (.memory .direct)).execute : Exec Bool) (s.goTo p)).2 =
      s.setRegisters { s.cpu.toRegisterSet with
        pc := p + 1, psw := s.cpu.psw.compare (s.cpu.get r) (s.peek a) } := by
  have hread : (s.goTo (p + 1)).afterRead a = s.goTo (p + 1) := by rw [afterRead_goTo, hr]
  simp only [execute_compare, Processor.operand, Processor.address, Processor.updateFlags,
    bind_apply, fetchDirect_goTo h hp, read_apply, ask_apply, update_apply, pure_apply, ha, hread]
  rfl

theorem storeDirect_goTo (r : CpuRegister) (ha : word (romByte p) 0 = a) :
    (((Instruction.store .direct r).execute : Exec Bool) (s.goTo p)).2 = (s.goTo (p + 1)).write a (s.cpu.get r) := by
  simp only [execute_store, Processor.address, bind_apply, fetchDirect_goTo h hp,
    ask_apply, write_apply, pure_apply, ha]
  rfl

theorem branchIf_goTo (condition : Condition) (value : Bool) :
    (((Instruction.branch condition value).execute : Exec Bool) (s.goTo p)).2 =
      s.goTo (if condition.test s.cpu.psw = value then p + 1 + (romByte p).toInt8.toInt16.toUInt16 else p + 1) := by
  simp only [execute_branch, bind_apply, ask_apply, branch_goTo h hp, beq_iff_eq]
  rfl

theorem branchAlways_goTo : (((Instruction.branchAlways).execute : Exec Bool) (s.goTo p)).2 =
    s.goTo (p + 1 + (romByte p).toInt8.toInt16.toUInt16) := by
  simp only [execute_branchAlways, bind_apply, branch_goTo h hp, pure_apply, if_true]

theorem storeImmediate_goTo (hp' : 0xFFC0 ≤ (p + 1).toNat) (ha : word (romByte (p + 1)) 0 = a) :
    (((Instruction.storeImmediate).execute : Exec Bool) (s.goTo p)).2 = (s.goTo (p + 1 + 1)).write a (romByte p) := by
  simp only [execute_storeImmediate, bind_apply, fetch_goTo h hp, fetchDirect_goTo h hp',
    write_apply, pure_apply, ha]

theorem compareImmediate_goTo (hp' : 0xFFC0 ≤ (p + 1).toNat) (ha : word (romByte (p + 1)) 0 = a)
    (hr : s.afterRead a = s) :
    (((Instruction.binaryMemory .cmp .directImmediate).execute : Exec Bool) (s.goTo p)).2 =
      s.setRegisters { s.cpu.toRegisterSet with
        pc := p + 1 + 1, psw := s.cpu.psw.compare (s.peek a) (romByte p) } := by
  have hread : (s.goTo (p + 1 + 1)).afterRead a = s.goTo (p + 1 + 1) := by rw [afterRead_goTo, hr]
  simp only [execute_compareMemory, Processor.operandPair, Processor.calculateFlags, bind_apply,
    fetch_goTo h hp, fetchDirect_goTo h hp', read_apply, ask_apply, calculate_apply, update_apply, pure_apply, ha,
    hread]
  rfl

theorem storeIndexed_goTo (ha : romByte p = 0) (hlow : s.peek 0 = s.memory.get 0) (hhigh : s.peek 1 = s.memory.get 1) :
    (((Instruction.store (.indirectIndexed) .a).execute : Exec Bool) (s.goTo p)).2 =
      (s.goTo (p + 1)).write (s.memory.readWord 0 + s.cpu.y.toUInt16) s.cpu.a := by
  have hword := readDirectWord_goTo h 0 (p := p + 1) (a := 0) (b := 1) rfl rfl rfl rfl
  simp only [execute_store, Processor.address, bind_apply, fetch_goTo h hp, ha, hword,
    ask_apply, write_apply, pure_apply, hlow, hhigh]
  rfl

theorem incrementDirect_goTo (ha : word (romByte p) 0 = a) (hr : s.afterRead a = s) :
    (((Instruction.unary .increment (.memory .direct)).execute : Exec Bool) (s.goTo p)).2 =
      (s.setRegisters { s.cpu.toRegisterSet with pc := p + 1, psw := s.cpu.psw.setNZ (s.peek a + 1) }).write a
        (s.peek a + 1) := by
  have hread : (s.goTo (p + 1)).afterRead a = s.goTo (p + 1) := by rw [afterRead_goTo, hr]
  simp only [execute_unaryMemory, Processor.address, Processor.withFlags, bind_apply,
    fetchDirect_goTo h hp, read_apply, ask_apply, update_apply, write_apply, pure_apply, ha, hread]
  rfl

theorem loadWord_goTo (ha : word (romByte p) 0 = a) (hb : word (romByte p + 1) 0 = b) (hra : s.afterRead a = s)
    (hrb : s.afterRead b = s) :
    (((Instruction.loadWord).execute : Exec Bool) (s.goTo p)).2 =
      s.setRegisters { s.cpu.toRegisterSet with
        pc := p + 1, a := s.peek a, y := s.peek b
        psw := s.cpu.psw.setNZ16 (word (s.peek a) (s.peek b)) } := by
  have hword := readDirectWord_goTo h (romByte p) (p := p + 1) ha hb hra hrb
  simp only [execute_loadWord, bind_apply, fetch_goTo h hp, hword, update_apply, pure_apply,
    RegisterSet.setYA, lowByte_word, highByte_word]
  rfl

theorem storeWord_goTo (ha : word (romByte p) 0 = a) (hb : word (romByte p + 1) 0 = b) :
    (((Instruction.storeWord).execute : Exec Bool) (s.goTo p)).2 =
      ((s.goTo (p + 1)).write a s.cpu.a).write b s.cpu.y := by
  have hpage : (s.goTo (p + 1)).cpu.psw.directPage = false := h.page
  have hpage' : ((s.goTo (p + 1)).write a s.cpu.a).cpu.psw.directPage = false := by
    rw [registers_write]
    exact h.page
  have hya : (s.goTo (p + 1)).cpu.ya = word s.cpu.a s.cpu.y := rfl
  simp only [execute_storeWord, Processor.writeDirectWord, bind_apply, fetch_goTo h hp,
    ask_apply, write_apply, pure_apply, RegisterSet.directAddress, hpage, Bool.false_eq_true, if_false, ha, hb,
    hya, lowByte_word, highByte_word, hpage']

omit hp

theorem storeIndirect_goTo : (((Instruction.store .indirectX .a).execute : Exec Bool) (s.goTo p)).2 =
    (s.goTo p).write (word s.cpu.x 0) s.cpu.a := by
  have hpage : (s.goTo p).cpu.psw.directPage = false := h.page
  simp only [execute_store, Processor.address, bind_apply, ask_apply, write_apply,
    pure_apply, RegisterSet.directAddress, hpage]
  rfl

end Instructions

/-! ## The program -/

section Program

variable (h : s.Boots)

include h

/-- `MOV X,#EF` -/
theorem after_FFC0 (hpc : s.cpu.pc = 0xFFC0) : s.after = s.setRegisters { s.cpu.toRegisterSet with
    pc := 0xFFC2, x := 0xEF, psw := s.cpu.psw.setNZ 0xEF } := by
  rw [after_of_decode h (by decide) hpc (i := .load .x .immediate) rfl, loadImmediate_goTo h (by decide)]
  rfl

/-- `MOV SP,X` -/
theorem after_FFC2 (hpc : s.cpu.pc = 0xFFC2) :
    s.after = s.setRegisters { s.cpu.toRegisterSet with pc := 0xFFC3, sp := s.cpu.x } := by
  rw [after_of_decode h (by decide) hpc (i := .transfer .sp .x) rfl]
  rfl

/-- `MOV A,#0` -/
theorem after_FFC3 (hpc : s.cpu.pc = 0xFFC3) : s.after = s.setRegisters { s.cpu.toRegisterSet with
    pc := 0xFFC5, a := 0, psw := s.cpu.psw.setNZ 0 } := by
  rw [after_of_decode h (by decide) hpc (i := .load .a .immediate) rfl, loadImmediate_goTo h (by decide)]
  rfl

/-- `MOV (X),A` -/
theorem after_FFC5 (hpc : s.cpu.pc = 0xFFC5) : s.after = (s.goTo 0xFFC6).write (word s.cpu.x 0) s.cpu.a := by
  rw [after_of_decode h (by decide) hpc (i := .store .indirectX .a) rfl, storeIndirect_goTo h]
  rfl

/-- `DEC X` -/
theorem after_FFC6 (hpc : s.cpu.pc = 0xFFC6) : s.after = s.setRegisters { s.cpu.toRegisterSet with
    pc := 0xFFC7, x := s.cpu.x - 1, psw := s.cpu.psw.setNZ (s.cpu.x - 1) } := by
  rw [after_of_decode h (by decide) hpc (i := .unary .decrement (.register .x)) rfl]
  rfl

/-- `BNE FFC5` -/
theorem after_FFC7 (hpc : s.cpu.pc = 0xFFC7) :
    s.after = s.goTo (if s.cpu.psw.zero = false then 0xFFC5 else 0xFFC9) := by
  rw [after_of_decode h (by decide) hpc (i := .branch .zero false) rfl, branchIf_goTo h (by decide)]
  rfl

/-- `MOV F4,#AA` -/
theorem after_FFC9 (hpc : s.cpu.pc = 0xFFC9) : s.after = (s.goTo 0xFFCC).write 0xF4 0xAA := by
  rw [after_of_decode h (by decide) hpc (i := .storeImmediate) rfl,
    storeImmediate_goTo h (by decide) (by decide) (a := 0xF4) (by decide)]
  rfl

/-- `MOV F5,#BB` -/
theorem after_FFCC (hpc : s.cpu.pc = 0xFFCC) : s.after = (s.goTo 0xFFCF).write 0xF5 0xBB := by
  rw [after_of_decode h (by decide) hpc (i := .storeImmediate) rfl,
    storeImmediate_goTo h (by decide) (by decide) (a := 0xF5) (by decide)]
  rfl

/-- `CMP F4,#CC` -/
theorem after_FFCF (hpc : s.cpu.pc = 0xFFCF) : s.after = s.setRegisters { s.cpu.toRegisterSet with
    pc := 0xFFD2, psw := s.cpu.psw.compare (s.cpu.ports.cpuRead 0) 0xCC } := by
  rw [after_of_decode h (by decide) hpc (i := .binaryMemory .cmp .directImmediate) rfl,
    compareImmediate_goTo h (by decide) (by decide) (a := 0xF4) (by decide) rfl]
  rfl

/-- `BNE FFCF` -/
theorem after_FFD2 (hpc : s.cpu.pc = 0xFFD2) :
    s.after = s.goTo (if s.cpu.psw.zero = false then 0xFFCF else 0xFFD4) := by
  rw [after_of_decode h (by decide) hpc (i := .branch .zero false) rfl, branchIf_goTo h (by decide)]
  rfl

/-- `BRA FFEF` -/
theorem after_FFD4 (hpc : s.cpu.pc = 0xFFD4) : s.after = s.goTo 0xFFEF := by
  rw [after_of_decode h (by decide) hpc (i := .branchAlways) rfl, branchAlways_goTo h (by decide)]
  rfl

/-- `MOV Y,F4` -/
theorem after_FFD6 (hpc : s.cpu.pc = 0xFFD6) : s.after = s.setRegisters { s.cpu.toRegisterSet with
    pc := 0xFFD8, y := s.cpu.ports.cpuRead 0, psw := s.cpu.psw.setNZ (s.cpu.ports.cpuRead 0) } := by
  rw [after_of_decode h (by decide) hpc (i := .load .y (.memory .direct)) rfl,
    loadDirect_goTo h (by decide) _ (a := 0xF4) (by decide) rfl]
  rfl

/-- `BNE FFD6` -/
theorem after_FFD8 (hpc : s.cpu.pc = 0xFFD8) :
    s.after = s.goTo (if s.cpu.psw.zero = false then 0xFFD6 else 0xFFDA) := by
  rw [after_of_decode h (by decide) hpc (i := .branch .zero false) rfl, branchIf_goTo h (by decide)]
  rfl

/-- `CMP Y,F4` -/
theorem after_FFDA (hpc : s.cpu.pc = 0xFFDA) : s.after = s.setRegisters { s.cpu.toRegisterSet with
    pc := 0xFFDC, psw := s.cpu.psw.compare s.cpu.y (s.cpu.ports.cpuRead 0) } := by
  rw [after_of_decode h (by decide) hpc (i := .compare .y (.memory .direct)) rfl,
    compareDirect_goTo h (by decide) _ (a := 0xF4) (by decide) rfl]
  rfl

/-- `BNE FFE9` -/
theorem after_FFDC (hpc : s.cpu.pc = 0xFFDC) :
    s.after = s.goTo (if s.cpu.psw.zero = false then 0xFFE9 else 0xFFDE) := by
  rw [after_of_decode h (by decide) hpc (i := .branch .zero false) rfl, branchIf_goTo h (by decide)]
  rfl

/-- `MOV A,F5` -/
theorem after_FFDE (hpc : s.cpu.pc = 0xFFDE) : s.after = s.setRegisters { s.cpu.toRegisterSet with
    pc := 0xFFE0, a := s.cpu.ports.cpuRead 1, psw := s.cpu.psw.setNZ (s.cpu.ports.cpuRead 1) } := by
  rw [after_of_decode h (by decide) hpc (i := .load .a (.memory .direct)) rfl,
    loadDirect_goTo h (by decide) _ (a := 0xF5) (by decide) rfl]
  rfl

/-- `MOV F4,Y` -/
theorem after_FFE0 (hpc : s.cpu.pc = 0xFFE0) : s.after = (s.goTo 0xFFE2).write 0xF4 s.cpu.y := by
  rw [after_of_decode h (by decide) hpc (i := .store .direct .y) rfl,
    storeDirect_goTo h (by decide) _ (a := 0xF4) (by decide)]
  rfl

/-- `MOV [00]+Y,A` -/
theorem after_FFE2 (hpc : s.cpu.pc = 0xFFE2) :
    s.after = (s.goTo 0xFFE4).write (s.memory.readWord 0 + s.cpu.y.toUInt16) s.cpu.a := by
  rw [after_of_decode h (by decide) hpc (i := .store .indirectIndexed .a) rfl,
    storeIndexed_goTo h (by decide) (by decide) (peek_ram (by decide) (by decide)) (peek_ram (by decide) (by decide))]
  rfl

/-- `INC Y` -/
theorem after_FFE4 (hpc : s.cpu.pc = 0xFFE4) : s.after = s.setRegisters { s.cpu.toRegisterSet with
    pc := 0xFFE5, y := s.cpu.y + 1, psw := s.cpu.psw.setNZ (s.cpu.y + 1) } := by
  rw [after_of_decode h (by decide) hpc (i := .unary .increment (.register .y)) rfl]
  rfl

/-- `BNE FFDA` -/
theorem after_FFE5 (hpc : s.cpu.pc = 0xFFE5) :
    s.after = s.goTo (if s.cpu.psw.zero = false then 0xFFDA else 0xFFE7) := by
  rw [after_of_decode h (by decide) hpc (i := .branch .zero false) rfl, branchIf_goTo h (by decide)]
  rfl

/-- `INC 01` -/
theorem after_FFE7 (hpc : s.cpu.pc = 0xFFE7) : s.after =
    (s.setRegisters { s.cpu.toRegisterSet with
      pc := 0xFFE9, psw := s.cpu.psw.setNZ (s.memory.get 1 + 1) }).write 1 (s.memory.get 1 + 1) := by
  rw [after_of_decode h (by decide) hpc (i := .unary .increment (.memory .direct)) rfl,
    incrementDirect_goTo h (by decide) (a := 1) (by decide) rfl, peek_ram (by decide) (by decide)]
  rfl

/-- `BPL FFDA` -/
theorem after_FFE9 (hpc : s.cpu.pc = 0xFFE9) :
    s.after = s.goTo (if s.cpu.psw.negative = false then 0xFFDA else 0xFFEB) := by
  rw [after_of_decode h (by decide) hpc (i := .branch .negative false) rfl, branchIf_goTo h (by decide)]
  rfl

/-- `CMP Y,F4` -/
theorem after_FFEB (hpc : s.cpu.pc = 0xFFEB) : s.after = s.setRegisters { s.cpu.toRegisterSet with
    pc := 0xFFED, psw := s.cpu.psw.compare s.cpu.y (s.cpu.ports.cpuRead 0) } := by
  rw [after_of_decode h (by decide) hpc (i := .compare .y (.memory .direct)) rfl,
    compareDirect_goTo h (by decide) _ (a := 0xF4) (by decide) rfl]
  rfl

/-- `BPL FFDA` -/
theorem after_FFED (hpc : s.cpu.pc = 0xFFED) :
    s.after = s.goTo (if s.cpu.psw.negative = false then 0xFFDA else 0xFFEF) := by
  rw [after_of_decode h (by decide) hpc (i := .branch .negative false) rfl, branchIf_goTo h (by decide)]
  rfl

/-- `MOVW YA,F6` -/
theorem after_FFEF (hpc : s.cpu.pc = 0xFFEF) : s.after = s.setRegisters { s.cpu.toRegisterSet with
    pc := 0xFFF1, a := s.cpu.ports.cpuRead 2, y := s.cpu.ports.cpuRead 3
    psw := s.cpu.psw.setNZ16 (word (s.cpu.ports.cpuRead 2) (s.cpu.ports.cpuRead 3)) } := by
  rw [after_of_decode h (by decide) hpc (i := .loadWord) rfl,
    loadWord_goTo h (by decide) (a := 0xF6) (b := 0xF7) (by decide) (by decide) rfl rfl]
  rfl

/-- `MOVW 00,YA` -/
theorem after_FFF1 (hpc : s.cpu.pc = 0xFFF1) : s.after = ((s.goTo 0xFFF3).write 0 s.cpu.a).write 1 s.cpu.y := by
  rw [after_of_decode h (by decide) hpc (i := .storeWord) rfl,
    storeWord_goTo h (by decide) (a := 0) (b := 1) (by decide) (by decide)]
  rfl

/-- `MOVW YA,F4` -/
theorem after_FFF3 (hpc : s.cpu.pc = 0xFFF3) : s.after = s.setRegisters { s.cpu.toRegisterSet with
    pc := 0xFFF5, a := s.cpu.ports.cpuRead 0, y := s.cpu.ports.cpuRead 1
    psw := s.cpu.psw.setNZ16 (word (s.cpu.ports.cpuRead 0) (s.cpu.ports.cpuRead 1)) } := by
  rw [after_of_decode h (by decide) hpc (i := .loadWord) rfl,
    loadWord_goTo h (by decide) (a := 0xF4) (b := 0xF5) (by decide) (by decide) rfl rfl]
  rfl

/-- `MOV F4,A` -/
theorem after_FFF5 (hpc : s.cpu.pc = 0xFFF5) : s.after = (s.goTo 0xFFF7).write 0xF4 s.cpu.a := by
  rw [after_of_decode h (by decide) hpc (i := .store .direct .a) rfl,
    storeDirect_goTo h (by decide) _ (a := 0xF4) (by decide)]
  rfl

/-- `MOV A,Y` -/
theorem after_FFF7 (hpc : s.cpu.pc = 0xFFF7) : s.after = s.setRegisters { s.cpu.toRegisterSet with
    pc := 0xFFF8, a := s.cpu.y, psw := s.cpu.psw.setNZ s.cpu.y } := by
  rw [after_of_decode h (by decide) hpc (i := .transfer .a .y) rfl]
  rfl

/-- `MOV X,A` -/
theorem after_FFF8 (hpc : s.cpu.pc = 0xFFF8) : s.after = s.setRegisters { s.cpu.toRegisterSet with
    pc := 0xFFF9, x := s.cpu.a, psw := s.cpu.psw.setNZ s.cpu.a } := by
  rw [after_of_decode h (by decide) hpc (i := .transfer .x .a) rfl]
  rfl

/-- `BNE FFD6` -/
theorem after_FFF9 (hpc : s.cpu.pc = 0xFFF9) :
    s.after = s.goTo (if s.cpu.psw.zero = false then 0xFFD6 else 0xFFFB) := by
  rw [after_of_decode h (by decide) hpc (i := .branch .zero false) rfl, branchIf_goTo h (by decide)]
  rfl

end Program

end Core

end SnesSound
