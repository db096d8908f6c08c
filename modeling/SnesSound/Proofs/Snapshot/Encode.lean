import SnesSound.Session

/-!
# SPC files as they are written

The shortest SPC file that holds given registers of the CPU, a given RAM and given registers of the sound unit: without
a tag, and without the RAM behind the boot ROM.

Main statement: what is written is read back (`parse_encode`, `load_encode`).
-/

namespace SnesSound

/-- The address of a register selects it. -/
theorem Registers.read_ofNat (registers : Registers) (a : Fin 128) :
    registers.read (UInt8.ofNat a.val) = registers.get a := by
  have ha : ofByte (UInt8.ofNat a.val) = a := by
    apply Fin.ext
    change (UInt8.ofNat a.val).toNat % 128 = a.val
    rw [UInt8.toNat_ofNat']
    omega
  rw [read, ha]

namespace SpcFile

/-- The bytes in front of RAM that are not zero. -/
def header (cpu : CpuRegisters) : List UInt8 :=
  layout.identification ++ List.replicate 10 0 ++
    [lowByte cpu.pc, highByte cpu.pc, cpu.a, cpu.x, cpu.y, cpu.psw, cpu.sp]

/-- The byte at an offset of a file. -/
def byteAt (cpu : CpuRegisters) (memory : Memory) (registers : Registers) (i : Nat) : UInt8 :=
  if i < 0x100 then (header cpu).getD i 0
  else if i < 0x10100 then memory.get (UInt16.ofNat (i - 0x100))
  else registers.read (UInt8.ofNat (i - 0x10100))

/-- A file without a tag. -/
def encode (cpu : CpuRegisters) (memory : Memory) (registers : Registers) : ByteArray :=
  ⟨Array.ofFn fun i : Fin 0x10180 => byteAt cpu memory registers i⟩

variable (cpu : CpuRegisters) (memory : Memory) (registers : Registers)

@[simp] theorem size_encode : (encode cpu memory registers).size = 0x10180 := by simp [encode, ByteArray.size]

@[simp] theorem getElem_encode {i : Nat} (h : i < (encode cpu memory registers).size) :
    (encode cpu memory registers)[i] = byteAt cpu memory registers i := by
  simp [encode, ByteArray.getElem_eq_getElem_data]

theorem length_identification : layout.identification.length = 27 := by decide +kernel

/-- A file begins with the bytes of its header. -/
theorem byteAt_identification {i : Nat} {b : UInt8} (h : layout.identification[i]? = some b) :
    byteAt cpu memory registers i = b := by
  have hi : i < 27 := length_identification ▸ (List.getElem?_eq_some_iff.mp h).1
  rw [byteAt, if_pos (by omega), header, List.getD_eq_getElem?_getD, List.append_assoc,
    List.getElem?_append_left (by rw [length_identification]; exact hi), h]
  rfl

theorem accepts_encode : layout.Accepts (encode cpu memory registers) := by
  refine ⟨?_, Nat.le_of_eq (size_encode ..).symm⟩
  rw [Layout.startsWith, List.all_eq_true]
  rintro ⟨b, i⟩ hb
  have hid : layout.identification[i]? = some b := by simpa using List.mem_zipIdx_iff_getElem?.mp hb
  have hi : i < 27 := length_identification ▸ (List.getElem?_eq_some_iff.mp hid).1
  have hsize : i < (encode cpu memory registers).size := by rw [size_encode]; omega
  have hget := getElem_encode cpu memory registers hsize
  rw [byteAt_identification cpu memory registers hid] at hget
  generalize encode cpu memory registers = bytes at hsize hget ⊢
  simp [hsize, hget]

/-- The header of a file behind its identification. -/
theorem byteAt_header {i : Nat} (h : 27 ≤ i) (hi : i < 0x100) : byteAt cpu memory registers i =
    (List.replicate 10 0 ++
      [lowByte cpu.pc, highByte cpu.pc, cpu.a, cpu.x, cpu.y, cpu.psw, cpu.sp]).getD (i - 27) 0 := by
  rw [byteAt, if_pos hi, header, List.append_assoc, List.getD_eq_getElem?_getD, List.getD_eq_getElem?_getD,
    List.getElem?_append_right (by rw [length_identification]; exact h), length_identification]

/-- What is written is read back. -/
theorem parse_encode : parse (encode cpu memory registers) =
    .ok { version := 0, cpu, tag := none, memory, registers, extra := none } := by
  have hheader (i : Nat) (h : 27 ≤ i) (hi : i < 0x100) := byteAt_header cpu memory registers h hi
  have hmemory : (⟨Layout.block (encode cpu memory registers) 0x100 65536 (by rw [size_encode]; decide)⟩ : Memory) =
      memory := by
    obtain ⟨cells⟩ := memory
    rw [Memory.mk.injEq]
    apply Vector.ext
    intro i hi
    have hn : (UInt16.ofNat (0x100 + i - 0x100)).toFin.val = i := by
      change (UInt16.ofNat (0x100 + i - 0x100)).toNat = i
      rw [Nat.add_sub_cancel_left, UInt16.toNat_ofNat', Nat.mod_eq_of_lt hi]
    rw [Layout.getElem_block, getElem_encode, byteAt, if_neg (by omega), if_pos (by omega)]
    simp only [Memory.get, Fin.getElem_fin, hn]
  have hregisters :
      (⟨Layout.block (encode cpu memory registers) 0x10100 128 (Nat.le_of_eq (size_encode ..).symm)⟩ : Registers) =
        registers := by
    obtain ⟨bank⟩ := registers
    rw [Registers.mk.injEq]
    apply Vector.ext
    intro i hi
    rw [Layout.getElem_block, getElem_encode, byteAt, if_neg (by omega), if_neg (by omega), Nat.add_sub_cancel_left,
      Registers.read_ofNat _ ⟨i, hi⟩]
    rfl
  rw [parse, Layout.parse_eq_ok (accepts_encode ..), read, hmemory, hregisters]
  simp [hheader, tagMarker, word_lowByte_highByte]

end SpcFile

namespace Session

/-- Loading what is written restores what was written. -/
theorem load_encode (s : Session) (cpu : CpuRegisters) (memory : Memory) (registers : Registers) :
    s.load (SpcFile.encode cpu memory registers) =
      .ok (s.install { format := .spc, tag := none, cpu, memory, registers }) := by
  have hparse : Snapshot.parse? (SpcFile.encode cpu memory registers) =
      some { format := .spc, tag := none, cpu, memory, registers } := by
    have hfile := SpcFile.parse_encode cpu memory registers
    rw [SpcFile.parse, Layout.parse_eq_ok (SpcFile.accepts_encode ..)] at hfile
    rw [Snapshot.parse?, dif_pos (SpcFile.accepts_encode ..), Except.ok.inj hfile]
    rfl
  rw [load, hparse]

end Session

end SnesSound
