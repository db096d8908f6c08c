import Mathlib.Logic.Basic
import SnesSound.Proofs.Dsp.Mask
import SnesSound.Proofs.Snapshot.Accept
import SnesSound.Proofs.Snapshot.Encode

/-!
# Images of the same machine

An SPC file and a save state may hold the same machine. Each of them has its own place for everything, and a save state
keeps two flags of the CPU as the result that they were set from, and the voices that play apart from the register that
keys them on. Both are read as the same machine, whatever else the images hold.

Main statements: an SPC file and a save state with the same contents restore the same machine (`restore_agree`), and
there is a save state with given contents unless N and Z are both set (`ZstFile.holds_encode`).
-/

namespace SnesSound

variable {bytes : ByteArray} {cpu : CpuRegisters} {memory : Memory} {registers : Registers} {voices : Vector UInt8 8}

/-! ## Voices that play -/

/-- A voice that plays sets its own bit. -/
theorem ZstFile.bit_voiceMask (z : ZstFile) (voice : Fin 8) : bit z.voiceMask voice = z.voiceOn.get voice := by
  have hfold (l : List (Fin 8)) (mask : UInt8) :
      bit (l.foldl (fun mask i => if z.voiceOn.get i then mask ||| bitMask i else mask) mask) voice =
        (bit mask voice || l.any fun i => z.voiceOn.get i && decide (i = voice)) := by
    induction l generalizing mask with
    | nil => simp
    | cons i l ih =>
      rw [List.foldl_cons, ih, List.any_cons]
      cases z.voiceOn.get i
      · simp
      · simp [bit_or, bit_bitMask, Bool.or_assoc]
  have hany : ((List.finRange 8).any fun i => z.voiceOn.get i && decide (i = voice)) = z.voiceOn.get voice := by
    rw [Bool.eq_iff_iff, List.any_eq_true]
    constructor
    · rintro ⟨i, -, hi⟩
      obtain ⟨hon, rfl⟩ := by simpa using hi
      exact hon
    · intro hon
      exact ⟨voice, List.mem_finRange voice, by simp [hon]⟩
  rw [ZstFile.voiceMask, Fin.foldl_eq_finRange_foldl, hfold, hany]
  simp [bit]

/-! ## Images -/

/-- A word at an offset of an image, low byte first. -/
def HoldsWord (bytes : ByteArray) (offset : Nat) (value : UInt16) : Prop :=
  bytes[offset]? = some (lowByte value) ∧ bytes[offset + 1]? = some (highByte value)

/-- RAM at an offset of an image. -/
def HoldsMemory (bytes : ByteArray) (offset : Nat) (memory : Memory) : Prop :=
  ∀ a : UInt16, bytes[offset + a.toNat]? = some (memory.get a)

/-- The registers of the sound unit at an offset of an image. -/
def HoldsRegisters (bytes : ByteArray) (offset : Nat) (registers : Registers) : Prop :=
  ∀ a : Fin 128, bytes[offset + a.val]? = some (registers.get a)

/-- An SPC file holds the registers of the CPU, RAM and the registers of the sound unit at their offsets. -/
structure SpcFile.Holds (bytes : ByteArray) (cpu : CpuRegisters) (memory : Memory) (registers : Registers) : Prop where
  complete : Format.Complete .spc bytes
  pc : HoldsWord bytes 0x25 cpu.pc
  a : bytes[0x27]? = some cpu.a
  x : bytes[0x28]? = some cpu.x
  y : bytes[0x29]? = some cpu.y
  psw : bytes[0x2A]? = some cpu.psw
  sp : bytes[0x2B]? = some cpu.sp
  memory : HoldsMemory bytes 0x100 memory
  registers : HoldsRegisters bytes 0x10100 registers

/-- A save state holds them at its own offsets, with N and Z in a result, and notes about the voices. -/
structure ZstFile.Holds (bytes : ByteArray) (cpu : CpuRegisters) (memory : Memory) (registers : Registers)
    (voices : Vector UInt8 8) : Prop where
  complete : Format.Complete .zst bytes
  pc : HoldsWord bytes 265251 cpu.pc
  a : bytes[265255]? = some cpu.a
  x : bytes[265259]? = some cpu.x
  y : bytes[265263]? = some cpu.y
  /-- N and Z may be anything here. -/
  psw : ∃ b, bytes[265267]? = some b ∧ ∀ n : Fin 8, n ≠ 1 → n ≠ 7 → bit b n = bit cpu.psw n
  /-- Z is set if all bytes of the result are zero, N is the highest bit of its first byte. -/
  result : ∃ result : Vector UInt8 4, (∀ i : Fin 4, bytes[265271 + i.val]? = some (result.get i)) ∧
    ((∀ i : Fin 4, result.get i = 0) ↔ bit cpu.psw 1 = true) ∧ bit (result.get 0) 7 = bit cpu.psw 7
  sp : bytes[265275]? = some cpu.sp
  memory : HoldsMemory bytes 199699 memory
  voices : ∀ voice : Fin 8, bytes[265699 + voice.val]? = some (voices.get voice)
  registers : HoldsRegisters bytes 266623 registers

/-! ## Reading -/

theorem HoldsWord.word_eq {offset : Nat} {value : UInt16} (h : HoldsWord bytes offset value)
    (hlow : offset < bytes.size) (hhigh : offset + 1 < bytes.size) :
    word bytes[offset] bytes[offset + 1] = value := by
  rw [(getElem_of_getElem? h.1).snd, (getElem_of_getElem? h.2).snd, word_lowByte_highByte]

theorem HoldsMemory.block_eq {offset : Nat} (h : HoldsMemory bytes offset memory)
    (hsize : offset + 65536 ≤ bytes.size) : (⟨Layout.block bytes offset 65536 hsize⟩ : Memory) = memory := by
  obtain ⟨cells⟩ := memory
  rw [Memory.mk.injEq]
  apply Vector.ext
  intro i hi
  have hget := h (UInt16.ofNatLT i hi)
  rw [UInt16.toNat_ofNatLT] at hget
  rw [Layout.getElem_block, (getElem_of_getElem? hget).snd]
  rfl

theorem HoldsRegisters.block_eq {offset : Nat} (h : HoldsRegisters bytes offset registers)
    (hsize : offset + 128 ≤ bytes.size) : (⟨Layout.block bytes offset 128 hsize⟩ : Registers) = registers := by
  apply Registers.ext_get
  intro a
  rw [← (getElem_of_getElem? (h a)).snd]
  exact Layout.getElem_block bytes offset 128 hsize a.val a.isLt

/-- The flags of a save state: bits 1 and 7 come from the result, the others from PSW. -/
theorem ZstFile.flags_eq {psw b : UInt8} {result : Vector UInt8 4}
    (hpsw : ∀ n : Fin 8, n ≠ 1 → n ≠ 7 → bit b n = bit psw n)
    (hzero : (∀ i : Fin 4, result.get i = 0) ↔ bit psw 1 = true) (hnegative : bit (result.get 0) 7 = bit psw 7) :
    flags b result = psw := by
  have hall : result.all (· == 0) = bit psw 1 := by
    rw [Bool.eq_iff_iff, ← hzero, Vector.all_eq_true]
    constructor
    · intro h i
      exact eq_of_beq (h i.val i.isLt)
    · intro h i hi
      exact beq_iff_eq.mpr (h ⟨i, hi⟩)
  have h0 : bit b 0 = bit psw 0 := hpsw 0 (by decide) (by decide)
  have h2 : bit b 2 = bit psw 2 := hpsw 2 (by decide) (by decide)
  have h3 : bit b 3 = bit psw 3 := hpsw 3 (by decide) (by decide)
  have h4 : bit b 4 = bit psw 4 := hpsw 4 (by decide) (by decide)
  have h5 : bit b 5 = bit psw 5 := hpsw 5 (by decide) (by decide)
  have h6 : bit b 6 = bit psw 6 := hpsw 6 (by decide) (by decide)
  have hfirst : bit result[0] 7 = bit psw 7 := hnegative
  have hstatus :
      { Status.ofByte b with zero := result.all (· == 0), negative := bit result[0] 7 } = Status.ofByte psw := by
    simp only [Status.ofByte, hall, hfirst, h0, h2, h3, h4, h5, h6]
  rw [flags, hstatus, Status.toByte_ofByte]

/-- What a machine is restored from. -/
structure Snapshot.IsOf (snapshot : Snapshot) (cpu : CpuRegisters) (memory : Memory) (registers : Registers) :
    Prop where
  cpu : snapshot.cpu = cpu
  memory : snapshot.memory = memory
  registers : snapshot.registers = registers

theorem SpcFile.Holds.parse? (h : Holds bytes cpu memory registers) :
    ∃ snapshot, Snapshot.parse? bytes = some snapshot ∧ snapshot.IsOf cpu memory registers := by
  have haccepts := (Format.accepts_iff .spc).mpr h.complete
  have hsize : 0x10180 ≤ bytes.size := h.complete.2
  refine ⟨_, dif_pos haccepts, ⟨?_, h.memory.block_eq (by omega), h.registers.block_eq (by omega)⟩⟩
  simp only [Snapshot.ofSpc, read, Layout.getElem_block, Nat.zero_add]
  rw [h.pc.word_eq (by omega) (by omega), (getElem_of_getElem? h.a).snd, (getElem_of_getElem? h.x).snd,
    (getElem_of_getElem? h.y).snd, (getElem_of_getElem? h.psw).snd, (getElem_of_getElem? h.sp).snd]

namespace ZstFile

/-- The slots hold the registers of the CPU. -/
theorem Holds.cpu_eq (h : Holds bytes cpu memory registers voices) : (read bytes h.complete.2).cpu = cpu := by
  obtain ⟨b, hb, hpsw⟩ := h.psw
  obtain ⟨result, hresult, hzero, hnegative⟩ := h.result
  have hsize : 266879 ≤ bytes.size := h.complete.2
  have hslots : slotOffset + 28 ≤ bytes.size := by
    change 265279 ≤ bytes.size
    omega
  have hblock : Layout.block bytes (slotOffset + 20) 4 (by omega) = result := by
    apply Vector.ext
    intro i hi
    rw [Layout.getElem_block]
    exact (getElem_of_getElem? (hresult ⟨i, hi⟩)).snd
  have hpc : word bytes[slotOffset] bytes[slotOffset + 1] = cpu.pc := h.pc.word_eq (by omega) (by omega)
  have ha : bytes[slotOffset + 4] = cpu.a := (getElem_of_getElem? h.a).snd
  have hx : bytes[slotOffset + 8] = cpu.x := (getElem_of_getElem? h.x).snd
  have hy : bytes[slotOffset + 12] = cpu.y := (getElem_of_getElem? h.y).snd
  have hslot : bytes[slotOffset + 16] = b := (getElem_of_getElem? hb).snd
  have hsp : bytes[slotOffset + 24] = cpu.sp := (getElem_of_getElem? h.sp).snd
  rw [cpu_read h.complete.2 hslots, hpc, ha, hx, hy, hslot, hblock, hsp, flags_eq hpsw hzero hnegative]

/-- The voices that play are those with notes that are not zero. -/
theorem Holds.voiceMask_eq {mask : UInt8} (h : Holds bytes cpu memory registers voices)
    (hmask : ∀ voice : Fin 8, bit mask voice = (voices.get voice != 0)) :
    (read bytes h.complete.2).voiceMask = mask := by
  have hsize : 266879 ≤ bytes.size := h.complete.2
  apply ext_bit
  intro voice
  have hi : voiceOffset + voice.val < bytes.size := by
    change 265699 + voice.val < bytes.size
    omega
  have hnote : (read bytes h.complete.2).voiceOn.get voice = (bytes[voiceOffset + voice.val] != 0) :=
    (Vector.getElem_map (· != 0) voice.isLt).trans (congrArg (· != 0) (Layout.getElem_block ..))
  have hvoice : bytes[voiceOffset + voice.val] = voices.get voice := (getElem_of_getElem? (h.voices voice)).snd
  rw [bit_voiceMask, hmask, hnote, hvoice]

/-- Voices that play are keyed on. -/
theorem Holds.parse? {mask : UInt8} (h : Holds bytes cpu memory registers voices)
    (hmask : ∀ voice : Fin 8, bit mask voice = (voices.get voice != 0)) :
    ∃ snapshot, Snapshot.parse? bytes = some snapshot ∧
      snapshot.IsOf cpu memory (registers.store Register.kon (registers.get Register.kon ||| mask)) := by
  have hspc : ¬SpcFile.layout.Accepts bytes := fun hspc =>
    Format.not_begins_both ⟨((Format.accepts_iff .spc).mp hspc).1, h.complete.1⟩
  have haccepts := (Format.accepts_iff .zst).mpr h.complete
  have hsize : 266879 ≤ bytes.size := h.complete.2
  have hregisters : (read bytes h.complete.2).registers = registers := h.registers.block_eq (by omega)
  refine ⟨_, (dif_neg hspc).trans (dif_pos haccepts), ⟨h.cpu_eq, h.memory.block_eq (by omega), ?_⟩⟩
  simp only [Snapshot.ofZst, h.voiceMask_eq hmask, hregisters]

end ZstFile

/-! ## Images of given contents -/

section Encode

variable (cpu : CpuRegisters) (memory : Memory) (registers : Registers) (voices : Vector UInt8 8)

theorem SpcFile.holds_encode : Holds (encode cpu memory registers) cpu memory registers := by
  have hbyte {i : Nat} (hi : i < 0x10180) :
      (encode cpu memory registers)[i]? = some (byteAt cpu memory registers i) := by
    have hsize : i < (encode cpu memory registers).size := by rwa [size_encode]
    exact getElem?_eq_some_iff.mpr ⟨hsize, getElem_encode cpu memory registers hsize⟩
  have hheader (i : Nat) (h27 : 27 ≤ i) (hi : i < 0x100) :=
    (hbyte (Nat.lt_trans hi (by decide))).trans (congrArg some (byteAt_header cpu memory registers h27 hi))
  have hmemory : HoldsMemory (encode cpu memory registers) 0x100 memory := by
    intro a
    have ha := a.toNat_lt
    rw [hbyte (by omega), byteAt, if_neg (by omega), if_pos (by omega), Nat.add_sub_cancel_left, UInt16.ofNat_toNat]
  have hregisters : HoldsRegisters (encode cpu memory registers) 0x10100 registers := by
    intro a
    have ha := a.isLt
    rw [hbyte (by omega), byteAt, if_neg (by omega), if_neg (by omega), Nat.add_sub_cancel_left,
      Registers.read_ofNat]
  exact {
    complete := (Format.accepts_iff .spc).mp (accepts_encode cpu memory registers)
    pc := ⟨hheader 0x25 (by decide) (by decide), hheader 0x26 (by decide) (by decide)⟩
    a := hheader 0x27 (by decide) (by decide)
    x := hheader 0x28 (by decide) (by decide)
    y := hheader 0x29 (by decide) (by decide)
    psw := hheader 0x2A (by decide) (by decide)
    sp := hheader 0x2B (by decide) (by decide)
    memory := hmemory
    registers := hregisters }

namespace ZstFile

/-- A result that sets Z and N as they are in PSW, unless both of them are set. -/
def resultOf (psw : UInt8) : Vector UInt8 4 :=
  if bit psw 1 then #v[0, 0, 0, 0] else if bit psw 7 then #v[0x80, 0, 0, 0] else #v[1, 0, 0, 0]

/-- The slots of the registers of the CPU. -/
def slots : List UInt8 :=
  let result := resultOf cpu.psw
  [lowByte cpu.pc, highByte cpu.pc, 0, 0, cpu.a, 0, 0, 0, cpu.x, 0, 0, 0, cpu.y, 0, 0, 0, cpu.psw, 0, 0, 0,
    result.get 0, result.get 1, result.get 2, result.get 3, cpu.sp, 0, 0, 0]

/-- The byte at an offset of a save state. -/
def byteAt (i : Nat) : UInt8 :=
  if i < memoryOffset then layout.identification.getD i 0
  else if i < memoryOffset + 65536 then memory.get (UInt16.ofNat (i - memoryOffset))
  else if i < voiceOffset then (slots cpu).getD (i - slotOffset) 0
  else if i < registerOffset then voices.toList.getD (i - voiceOffset) 0
  else registers.read (UInt8.ofNat (i - registerOffset))

/-- A save state without anything else in it. -/
def encode : ByteArray := ⟨Array.ofFn fun i : Fin layout.required => byteAt cpu memory registers voices i⟩

theorem size_encode : (encode cpu memory registers voices).size = layout.required := Array.size_ofFn

theorem getElem?_encode {i : Nat} (hi : i < layout.required) :
    (encode cpu memory registers voices)[i]? = some (byteAt cpu memory registers voices i) := by
  have hsize : i < (encode cpu memory registers voices).size := by rwa [size_encode]
  exact getElem?_eq_some_iff.mpr ⟨hsize, Array.getElem_ofFn ..⟩

theorem resultOf_eq_zero_iff {psw : UInt8} : (∀ i : Fin 4, (resultOf psw).get i = 0) ↔ bit psw 1 = true := by
  unfold resultOf
  cases bit psw 1 <;> cases bit psw 7 <;> decide

theorem negative_resultOf {psw : UInt8} (h : ¬(bit psw 1 = true ∧ bit psw 7 = true)) :
    bit ((resultOf psw).get 0) 7 = bit psw 7 := by
  revert h
  unfold resultOf
  cases bit psw 1 <;> cases bit psw 7 <;> decide

theorem holds_encode (h : ¬(bit cpu.psw 1 = true ∧ bit cpu.psw 7 = true)) :
    Holds (encode cpu memory registers voices) cpu memory registers voices := by
  have hstart : memoryOffset = 199699 := rfl
  have hslots : slotOffset = 265251 := rfl
  have hnotes : voiceOffset = 265699 := rfl
  have hbank : registerOffset = 266623 := rfl
  have hbyte {i : Nat} (hi : i < 266879) := getElem?_encode cpu memory registers voices hi
  have hslot (i : Nat) (hi : i < 28) :
      (encode cpu memory registers voices)[slotOffset + i]? = some ((slots cpu).getD i 0) := by
    rw [hbyte (by omega), byteAt, if_neg (by omega), if_neg (by omega), if_pos (by omega), Nat.add_sub_cancel_left]
  have hmemory : HoldsMemory (encode cpu memory registers voices) memoryOffset memory := by
    intro a
    have ha := a.toNat_lt
    rw [hbyte (by omega), byteAt, if_neg (by omega), if_pos (by omega), Nat.add_sub_cancel_left, UInt16.ofNat_toNat]
  have hvoices (voice : Fin 8) :
      (encode cpu memory registers voices)[voiceOffset + voice.val]? = some (voices.get voice) := by
    have hv := voice.isLt
    rw [hbyte (by omega), byteAt, if_neg (by omega), if_neg (by omega), if_neg (by omega), if_pos (by omega),
      Nat.add_sub_cancel_left]
    simp [get_eq_getElem]
  have hregisters : HoldsRegisters (encode cpu memory registers voices) registerOffset registers := by
    intro a
    have ha := a.isLt
    rw [hbyte (by omega), byteAt, if_neg (by omega), if_neg (by omega), if_neg (by omega), if_neg (by omega),
      Nat.add_sub_cancel_left, Registers.read_ofNat]
  have hcomplete : Format.Complete .zst (encode cpu memory registers voices) := by
    refine ⟨List.prefix_iff_getElem?.mpr fun i hi => ?_, Nat.le_of_eq (size_encode ..).symm⟩
    have hid : i < layout.identification.length := hi
    have hlength : layout.identification.length = 21 := by decide +kernel
    have hget : layout.identification.getD i 0 = layout.identification[i] := by
      rw [List.getD_eq_getElem?_getD, List.getElem?_eq_getElem hid, Option.getD_some]
    rw [getElem?_toList, hbyte (by omega), byteAt, if_pos (by omega), hget]
    rfl
  have hresult (i : Fin 4) :
      (encode cpu memory registers voices)[265271 + i.val]? = some ((resultOf cpu.psw).get i) := by
    match i with
    | 0 => exact hslot 20 (by decide)
    | 1 => exact hslot 21 (by decide)
    | 2 => exact hslot 22 (by decide)
    | 3 => exact hslot 23 (by decide)
  exact {
    complete := hcomplete
    pc := ⟨hslot 0 (by decide), hslot 1 (by decide)⟩
    a := hslot 4 (by decide)
    x := hslot 8 (by decide)
    y := hslot 12 (by decide)
    psw := ⟨cpu.psw, hslot 16 (by decide), fun _ _ _ => rfl⟩
    result := ⟨resultOf cpu.psw, hresult, resultOf_eq_zero_iff, negative_resultOf h⟩
    sp := hslot 24 (by decide)
    memory := hmemory
    voices := hvoices
    registers := hregisters }

end ZstFile

end Encode

/-! ## Restoring -/

/-- A machine is restored from what a snapshot holds of it. -/
theorem Snapshot.IsOf.restore_eq {s : Snapshot} (h : s.IsOf cpu memory registers) (options : LoadOptions) :
    s.restore options = {
      cpu := .restore cpu memory
      memory := if options.clearEcho then memory.clear (echoStart registers) (echoLength registers) else memory
      registers } := by
  simp only [restore, h.cpu, h.memory, h.registers]

/-- A save state restores the same machine as an SPC file with the same contents in which the voices that play are
keyed on, and it is the machine of these contents. -/
theorem restore_agree {spc zst : ByteArray} {mask : UInt8}
    (hmask : ∀ voice : Fin 8, bit mask voice = (voices.get voice != 0))
    (hspc : SpcFile.Holds spc cpu memory (registers.store Register.kon (registers.get Register.kon ||| mask)))
    (hzst : ZstFile.Holds zst cpu memory registers voices) (options : LoadOptions) :
    ∃ machine, (Snapshot.parse? spc).map (·.restore options) = some machine ∧
      (Snapshot.parse? zst).map (·.restore options) = some machine ∧ machine.cpu = .restore cpu memory ∧
      machine.registers = registers.store Register.kon (registers.get Register.kon ||| mask) ∧
      (options.clearEcho = false → machine.memory = memory) := by
  obtain ⟨s, hs, hsof⟩ := hspc.parse?
  obtain ⟨t, ht, htof⟩ := hzst.parse? hmask
  have hrestore := hsof.restore_eq options
  refine ⟨s.restore options, ?_, ?_, ?_, ?_, ?_⟩
  · rw [hs, Option.map_some]
  · rw [ht, Option.map_some, htof.restore_eq, hrestore]
  · rw [hrestore]
  · rw [hrestore]
  · intro hkeep
    rw [hrestore, hkeep]
    rfl

/-- Both images of a machine with a voice that plays and another one that is keyed on. -/
theorem restore_agree_encode :
    let cpu : CpuRegisters := { pc := 0x1234, a := 0x56, psw := 0x81 }
    let registers := Registers.zero.store Register.kon 0x02
    let keyed := registers.store Register.kon (registers.get Register.kon ||| 0x01)
    let spc := SpcFile.encode cpu .zero keyed
    let zst := ZstFile.encode cpu .zero registers #v[1, 0, 0, 0, 0, 0, 0, 0]
    SpcFile.Holds spc cpu .zero keyed ∧ ZstFile.Holds zst cpu .zero registers #v[1, 0, 0, 0, 0, 0, 0, 0] ∧
      ∃ machine, (Snapshot.parse? spc).map (·.restore { clearEcho := false }) = some machine ∧
        (Snapshot.parse? zst).map (·.restore { clearEcho := false }) = some machine ∧
        machine.cpu = .restore cpu .zero ∧ machine.registers = keyed ∧ machine.memory = .zero := by
  intro cpu registers keyed spc zst
  have hspc : SpcFile.Holds spc cpu .zero keyed := SpcFile.holds_encode ..
  have hzst : ZstFile.Holds zst cpu .zero registers #v[1, 0, 0, 0, 0, 0, 0, 0] :=
    ZstFile.holds_encode _ _ _ _ (by decide)
  obtain ⟨machine, hs, ht, hcpu, hregisters, hmemory⟩ := restore_agree (by decide) hspc hzst { clearEcho := false }
  exact ⟨hspc, hzst, machine, hs, ht, hcpu, hregisters, hmemory rfl⟩

end SnesSound
