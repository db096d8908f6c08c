import SnesSound.Proofs.Checked.Bus
import SnesSound.Snapshot

/-!
# Checked loading

Bytes that are accepted as a snapshot are long enough for everything that is read from them. What a snapshot holds may
be anything at all: the fields of a tag are cut where they end, the region of the echo buffer is cut at the end of
RAM, and every latch and register of the restored machine is found.

Main statements: reading a snapshot and restoring a machine from it never stop the engine (`readSnapshot_eq`,
`restore_eq`), nor does power-on (`powerOn_eq`).
-/

namespace SnesSound.Checked

/-! ## Bytes -/

/-- The byte at an offset. -/
def byteAt (bytes : ByteArray) (offset : Nat) : Checked UInt8 :=
  if h : offset < bytes.size then .ok bytes[offset] else .error .outOfBounds

/-- Copies bytes into a block, which must be as long as they are. -/
def copyBlock (length : Nat) (source : ByteArray) : Checked (Vector UInt8 length) :=
  if h : source.size = length then .ok (Vector.ofFn fun i => source[i.val]) else .error .assertion

/-- The block of bytes at an offset. -/
def block (bytes : ByteArray) (offset length : Nat) : Checked (Vector UInt8 length) := do
  let source ← slice bytes offset (offset + length)
  copyBlock length source

/-- The bytes of a field up to the first one that is zero. -/
def cut (field : List UInt8) : Checked (List UInt8) :=
  let stop := field.findIdx (· == 0)
  if stop ≤ field.length then .ok (field.take stop) else .error .outOfBounds

theorem byteAt_ok {bytes : ByteArray} {offset : Nat} (h : offset < bytes.size) :
    byteAt bytes offset = .ok bytes[offset] := dif_pos h

theorem block_ok {bytes : ByteArray} {offset length : Nat} (h : offset + length ≤ bytes.size) :
    block bytes offset length = .ok (Layout.block bytes offset length h) := by
  have hsize : (bytes.extract offset (offset + length)).size = length := by
    rw [ByteArray.size_extract]
    omega
  rw [block, slice_ok ⟨Nat.le_add_right _ _, h⟩, ok_bind, copyBlock, dif_pos hsize]
  refine congrArg Except.ok (Vector.ext fun i hi => ?_)
  rw [Vector.getElem_ofFn, ByteArray.getElem_extract, Layout.getElem_block]

theorem cut_eq (field : List UInt8) : cut field = .ok (field.takeWhile (· ≠ 0)) := by
  have hstop : (fun b : UInt8 => !decide (b ≠ 0)) = fun b => b == 0 := by
    funext b
    by_cases hb : b = 0 <;> simp [hb]
  rw [cut, if_pos List.findIdx_le_length, List.takeWhile_eq_take_findIdx_not, hstop]

/-! ## Files -/

/-- Offsets and lengths of the fields of a tag that hold text or a numeral. -/
def textFields : List (Nat × Nat) :=
  [(0x2E, 32), (0x4E, 32), (0x6E, 16), (0x7E, 32), (0xB0, 32), (0x9E, 2), (0xA1, 2), (0xA4, 4), (0xA9, 3), (0xAC, 5),
    (0xB1, 32)]

/-- The tag of an SPC file, if it declares one. -/
def readTag (bytes : ByteArray) (header : List UInt8) : Checked (Option Tag) := do
  let marker ← byteAt bytes 0x23
  if marker = SpcFile.tagMarker then do
    let _ ← slice bytes 0x2E 0x100
    textFields.forM fun (offset, length) => discard (cut (Tag.field header offset length))
    return Tag.ofHeader? header
  else return none

/-- RAM behind the boot ROM, if the file holds it. -/
def readExtra (bytes : ByteArray) : Checked (Option (Vector UInt8 64)) :=
  if 0x101C0 + 64 ≤ bytes.size then some <$> block bytes 0x101C0 64 else return none

/-- Reads a complete SPC file. -/
def readSpc (bytes : ByteArray) (h : SpcFile.layout.required ≤ bytes.size) : Checked SpcFile := do
  let _ ← slice bytes 0x25 bytes.size
  let tag ← readTag bytes (Layout.block bytes 0 256 (Nat.le_trans (by decide) h)).toList
  let memory ← block bytes 0x100 65536
  let registers ← block bytes 0x10100 128
  let extra ← readExtra bytes
  let version ← byteAt bytes 0x24
  return { SpcFile.read bytes h with version, tag, memory := ⟨memory⟩, registers := ⟨registers⟩, extra }

theorem readTag_eq {bytes : ByteArray} (h : 0x100 ≤ bytes.size) (header : List UInt8) :
    readTag bytes header = .ok (if bytes[0x23] = SpcFile.tagMarker then Tag.ofHeader? header else none) := by
  have hcut : textFields.forM (fun (offset, length) => discard (cut (Tag.field header offset length))) = .ok () := by
    simp only [cut_eq]
    rfl
  rw [readTag, byteAt_ok (by omega), ok_bind]
  split
  · rw [slice_ok ⟨by decide, h⟩, ok_bind, hcut]
    rfl
  · rfl

theorem readExtra_eq (bytes : ByteArray) : readExtra bytes = .ok
    (if hx : 0x101C0 + 64 ≤ bytes.size then some (Layout.block bytes 0x101C0 64 hx) else none) := by
  unfold readExtra
  split
  next hx => rw [block_ok hx, map_ok]
  next hx => rfl

theorem readSpc_eq {bytes : ByteArray} (h : SpcFile.layout.required ≤ bytes.size) :
    readSpc bytes h = .ok (SpcFile.read bytes h) := by
  have hsize : 0x10180 ≤ bytes.size := h
  rw [readSpc, slice_ok ⟨by omega, by omega⟩, ok_bind, readTag_eq (by omega), ok_bind, block_ok (by omega), ok_bind,
    block_ok (by omega), ok_bind, readExtra_eq, ok_bind, byteAt_ok (by omega), ok_bind]
  refine congrArg Except.ok ?_
  simp only [SpcFile.read, Layout.getElem_block, Nat.zero_add]

/-- Reads a complete save state. -/
def readZst (bytes : ByteArray) (h : ZstFile.layout.required ≤ bytes.size) : Checked ZstFile := do
  let slots ← slice bytes ZstFile.slotOffset bytes.size
  let _ ← byteAt slots 20
  let notes ← block bytes ZstFile.voiceOffset 8
  let memory ← block bytes ZstFile.memoryOffset 65536
  let registers ← block bytes ZstFile.registerOffset 128
  return { ZstFile.read bytes h with memory := ⟨memory⟩, registers := ⟨registers⟩, voiceOn := notes.map (· != 0) }

theorem readZst_eq {bytes : ByteArray} (h : ZstFile.layout.required ≤ bytes.size) :
    readZst bytes h = .ok (ZstFile.read bytes h) := by
  have hsize : 266879 ≤ bytes.size := h
  have hmemory : ZstFile.memoryOffset + 65536 ≤ bytes.size := Nat.le_trans (by decide) hsize
  have hslots : ZstFile.slotOffset + 28 ≤ bytes.size := Nat.le_trans (by decide) hsize
  have hvoices : ZstFile.voiceOffset + 8 ≤ bytes.size := Nat.le_trans (by decide) hsize
  have hregisters : ZstFile.registerOffset + 128 ≤ bytes.size := Nat.le_trans (by decide) hsize
  have hresult : 20 < (bytes.extract ZstFile.slotOffset bytes.size).size := by
    rw [ByteArray.size_extract]
    omega
  rw [readZst, slice_ok ⟨Nat.le_of_add_right_le hslots, Nat.le_refl _⟩, ok_bind, byteAt_ok hresult, ok_bind,
    block_ok hvoices, ok_bind, block_ok hmemory, ok_bind, block_ok hregisters, ok_bind]
  rfl

/-- The voices that play, one bit each. -/
def voiceMask (z : ZstFile) : Checked UInt8 :=
  Fin.foldlM 8 (fun mask i => if z.voiceOn.get i then do
      let _ ← places 8 i
      return mask ||| bitMask i
    else return mask) 0

theorem voiceMask_eq (z : ZstFile) : voiceMask z = .ok z.voiceMask := by
  have hmask := foldlM_ok (f := fun mask (i : Fin 8) => if z.voiceOn.get i then do
      let _ ← places 8 i
      return mask ||| bitMask i
    else return mask) (g := fun mask i => if z.voiceOn.get i then mask ||| bitMask i else mask) (P := fun _ _ => True)
    (fun i mask _ => ⟨by rw [places_ok i.isLt, ok_bind]; split <;> rfl, trivial⟩) (a := 0) trivial
  exact hmask.1

/-! ## Snapshots -/

/-- The snapshot in a save state. -/
def ofZst (f : ZstFile) : Checked Snapshot := do
  let mask ← voiceMask f
  let kon ← cell f.registers.bank Register.kon
  let bank ← setCell f.registers.bank Register.kon (kon ||| mask)
  return { format := .zst, tag := none, cpu := f.cpu, memory := f.memory, registers := ⟨bank⟩ }

/-- Reads a snapshot of any format. -/
def readSnapshot (bytes : ByteArray) : Checked (Option Snapshot) :=
  if h : SpcFile.layout.Accepts bytes then do
    let f ← readSpc bytes h.required_le
    return some (.ofSpc f)
  else if h : ZstFile.layout.Accepts bytes then do
    let f ← readZst bytes h.required_le
    some <$> ofZst f
  else return none

theorem ofZst_eq (f : ZstFile) : ofZst f = .ok (.ofZst f) := by
  rw [ofZst, voiceMask_eq, ok_bind, cell_ok Register.kon.isLt, ok_bind, setCell_ok Register.kon.isLt]
  rfl

/-- Reading a snapshot never stops the engine, whatever the bytes are. -/
theorem readSnapshot_eq (bytes : ByteArray) : readSnapshot bytes = .ok (Snapshot.parse? bytes) := by
  unfold readSnapshot Snapshot.parse?
  split
  next h =>
    rw [readSpc_eq h.required_le]
    rfl
  next =>
    split
    next h =>
      rw [readZst_eq h.required_le, ok_bind, ofZst_eq]
      rfl
    next => rfl

/-! ## Machines -/

/-- The CPU of a snapshot, with the cells of page 0 and the latches that it is restored from. -/
def restoreCpu (registers : CpuRegisters) (m : Memory) : Checked Cpu := do
  let control ← cell m.cells 0xF1
  let dspAddress ← cell m.cells 0xF2
  checkAll 3 fun i => discard (cell m.cells (0xFA + i))
  checkAll 3 fun i => discard (cell m.cells (0xFD + i))
  checkAll 4 fun i => discard (cell m.cells (0xF4 + i))
  checkAll 4 fun i => discard (index .assertion 4 i)
  return { Cpu.restore registers m with control := ⟨control⟩, dspAddress }

/-- Zeroes a region of RAM, which is cut at the end of RAM. -/
def clearMemory (m : Memory) (start length : Nat) : Checked Memory := do
  let stop ← natural 64 (start + length)
  let stop := min stop 65536
  require (start < stop → start ≤ stop ∧ stop ≤ 65536) .outOfBounds
  return m.clear start length

/-- RAM as it is restored from a snapshot. -/
def restoreMemory (s : Snapshot) (options : LoadOptions) : Checked Memory :=
  if options.clearEcho then do
    let esa ← cell s.registers.bank Register.esa
    let start ← natural 64 (esa.toNat * 256)
    let edl ← cell s.registers.bank Register.edl
    let length ← natural 64 (edl.toNat * 2048)
    clearMemory s.memory start length
  else return s.memory

/-- The machine that a snapshot describes. Every register of the sound unit is stored by its number. -/
def restore (s : Snapshot) (options : LoadOptions) : Checked Machine := do
  let cpu ← restoreCpu s.cpu s.memory
  let memory ← restoreMemory s options
  checkAll 128 fun i => discard (registerNumber (UInt8.ofNat i))
  return { cpu, memory, registers := s.registers }

/-- The machine after power-on. -/
def powerOn : Checked Machine := do
  let low ← memoryByte .powerOn Cpu.resetVector true
  let next ← natural 16 (Cpu.resetVector.toNat + 1)
  let high ← memoryByte .powerOn (UInt16.ofNat next) true
  return { cpu := { pc := word low high }, memory := .powerOn }

theorem restoreCpu_eq (registers : CpuRegisters) (m : Memory) :
    restoreCpu registers m = .ok (.restore registers m) := by
  have hcell (a : Nat) (ha : a < 65536) : discard (cell m.cells a) = .ok () := by
    rw [cell_ok ha]
    rfl
  have hport (i : Fin 4) : discard (index .assertion 4 i) = .ok () := by
    rw [index_ok i.isLt]
    rfl
  rw [restoreCpu, cell_ok (by decide), ok_bind, cell_ok (by decide), ok_bind,
    checkAll_ok fun i => hcell (0xFA + i) (by omega), ok_bind,
    checkAll_ok fun i => hcell (0xFD + i) (by omega), ok_bind,
    checkAll_ok fun i => hcell (0xF4 + i) (by omega), ok_bind, checkAll_ok hport, ok_bind]
  rfl

theorem clearMemory_eq (m : Memory) {start length : Nat} (h : start + length < 2 ^ 64) :
    clearMemory m start length = .ok (m.clear start length) := by
  rw [clearMemory, natural_ok h, ok_bind]
  dsimp only
  rw [require_ok (by omega)]
  rfl

theorem restoreMemory_eq (s : Snapshot) (options : LoadOptions) :
    restoreMemory s options = .ok (if options.clearEcho
      then s.memory.clear (Snapshot.echoStart s.registers) (Snapshot.echoLength s.registers) else s.memory) := by
  have hesa := (s.registers.get Register.esa).toNat_lt
  have hedl := (s.registers.get Register.edl).toNat_lt
  unfold restoreMemory
  split
  · rw [cell_ok Register.esa.isLt, ok_bind]
    change natural 64 ((s.registers.get Register.esa).toNat * 256) >>= _ = _
    rw [natural_ok (by omega), ok_bind, cell_ok Register.edl.isLt, ok_bind]
    change natural 64 ((s.registers.get Register.edl).toNat * 2048) >>= _ = _
    rw [natural_ok (by omega), ok_bind, clearMemory_eq _ (by omega)]
    rfl
  · rfl

theorem restore_eq (s : Snapshot) (options : LoadOptions) : restore s options = .ok (s.restore options) := by
  have hregisters : checkAll 128 (fun i => discard (registerNumber (UInt8.ofNat i))) = .ok () :=
    checkAll_ok fun i => by
      rw [registerNumber_eq]
      rfl
  rw [restore, restoreCpu_eq, ok_bind, restoreMemory_eq, ok_bind, hregisters, ok_bind]
  rfl

/-- Power-on never stops the engine. -/
theorem powerOn_eq : powerOn = .ok .powerOn := by
  rw [powerOn, memoryByte_eq, ok_bind, natural_ok (by decide), ok_bind, memoryByte_eq]
  rfl

end SnesSound.Checked
