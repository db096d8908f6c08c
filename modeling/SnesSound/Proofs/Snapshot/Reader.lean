import SnesSound.Snapshot

/-!
# Snapshots read field by field

The registers of the CPU can be read one behind the other, and such a reader fails where the bytes end too early. An
accepted image is long enough, so that the reader finds what lies at the fixed offsets and its failure is never
reported.

Main statement: an image that is read field by field is the image that is read at fixed offsets
(`SpcFile.parseFields_eq`, `ZstFile.parseFields_eq`).
-/

namespace SnesSound

/-- Reads bytes one behind the other, and fails if they end too early. -/
abbrev Reader := StateT (List UInt8) Option

namespace Reader

variable {α β : Type} {bytes : ByteArray} {i j k : Nat}

/-! ## Readers -/

/-- A byte. -/
def byte : Reader UInt8
  | [] => none
  | b :: rest => some (b, rest)

/-- A word, low byte first. -/
def word : Reader UInt16 := do
  let low ← byte
  let high ← byte
  return SnesSound.word low high

/-- A number of bytes. -/
def block : (length : Nat) → Reader (Vector UInt8 length)
  | 0 => return #v[]
  | length + 1 => do
    let front ← block length
    return front.push (← byte)

/-- The first byte of a slot of four bytes. -/
def slot : Reader UInt8 := do
  let b ← byte
  let _ ← block 3
  return b

/-! ## What they find -/

/-- A reader finds `a` in the bytes from offset `i` up to `j`. -/
def Finds (r : Reader α) (bytes : ByteArray) (i j : Nat) (a : α) : Prop :=
  r (bytes.data.toList.drop i) = some (a, bytes.data.toList.drop j)

theorem finds_pure (a : α) : (pure a : Reader α).Finds bytes i i a := rfl

theorem Finds.bind {r : Reader α} {f : α → Reader β} {a : α} {b : β} (h : r.Finds bytes i j a)
    (hf : (f a).Finds bytes j k b) : (r >>= f).Finds bytes i k b := by
  change (r _).bind (fun p => f p.1 p.2) = _
  rw [show r _ = _ from h]
  exact hf

theorem finds_byte (h : i < bytes.size) : byte.Finds bytes i (i + 1) bytes[i] := by
  have hlist : i < bytes.data.toList.length := h
  rw [Finds, List.drop_eq_getElem_cons hlist]
  rfl

theorem finds_word (h : i + 1 < bytes.size) :
    word.Finds bytes i (i + 2) (SnesSound.word bytes[i] bytes[i + 1]) :=
  (finds_byte (Nat.lt_of_succ_lt h)).bind ((finds_byte h).bind (finds_pure _))

theorem finds_block {length : Nat} (h : i + length ≤ bytes.size) :
    (block length).Finds bytes i (i + length) (Layout.block bytes i length h) := by
  induction length with
  | zero =>
    have hnil : Layout.block bytes i 0 h = #v[] := Vector.ext (by simp)
    rw [hnil]
    exact finds_pure _
  | succ length ih =>
    have hpush : (Layout.block bytes i length (by omega)).push bytes[i + length] =
        Layout.block bytes i (length + 1) h := by
      apply Vector.ext
      intro n hn
      rw [Vector.getElem_push, Layout.getElem_block]
      split
      next => rw [Layout.getElem_block]
      next => simp only [show n = length by omega]
    rw [← hpush]
    exact (ih (by omega)).bind ((finds_byte (by omega)).bind (finds_pure _))

theorem finds_slot (h : i + 4 ≤ bytes.size) : slot.Finds bytes i (i + 4) bytes[i] :=
  (finds_byte (by omega)).bind ((finds_block (by omega)).bind (finds_pure _))

end Reader

/-! ## Files -/

/-- Reads a snapshot, if the bytes are one, with `fields` read one behind the other from an offset on. -/
def Layout.parseFields {α β : Type} (l : Layout) (bytes : ByteArray) (offset : Nat) (fields : Reader β)
    (read : l.required ≤ bytes.size → β → α) : Except LayoutError α :=
  if h : l.Accepts bytes then
    match fields (bytes.data.toList.drop offset) with
    | some (values, _) => .ok (read h.required_le values)
    | none => .error (.tooShort l.format bytes.size l.required)
  else .error (l.complaint bytes)

/-- If an accepted image is long enough for the fields, no failure is added. -/
theorem Layout.parseFields_eq {α β : Type} {l : Layout} {bytes : ByteArray} {i j : Nat} {fields : Reader β}
    {values : l.required ≤ bytes.size → β} {read : l.required ≤ bytes.size → β → α}
    {whole : l.required ≤ bytes.size → α}
    (hfields : ∀ h, fields.Finds bytes i j (values h)) (hread : ∀ h, read h (values h) = whole h) :
    l.parseFields bytes i fields read = l.parse bytes whole := by
  unfold parseFields parse
  split
  next haccepts =>
    rw [show fields _ = _ from hfields haccepts.2]
    exact congrArg Except.ok (hread haccepts.2)
  next => rfl

namespace SpcFile

/-- The registers of the CPU. -/
def cpuReader : Reader CpuRegisters := do
  let pc ← Reader.word
  let a ← Reader.byte
  let x ← Reader.byte
  let y ← Reader.byte
  let psw ← Reader.byte
  let sp ← Reader.byte
  return { pc, a, x, y, psw, sp }

/-- Reads a file, with the registers of the CPU one behind the other. -/
def parseFields (bytes : ByteArray) : Except LayoutError SpcFile :=
  layout.parseFields bytes 0x25 cpuReader fun h cpu => { read bytes h with cpu }

theorem finds_cpuReader {bytes : ByteArray} (h : layout.required ≤ bytes.size) :
    cpuReader.Finds bytes 0x25 0x2C (read bytes h).cpu := by
  have hsize : 0x10180 ≤ bytes.size := h
  refine (Reader.finds_word (by omega)).bind ?_
  refine (Reader.finds_byte (by omega)).bind ?_
  refine (Reader.finds_byte (by omega)).bind ?_
  refine (Reader.finds_byte (by omega)).bind ?_
  refine (Reader.finds_byte (by omega)).bind ?_
  refine (Reader.finds_byte (by omega)).bind ?_
  simp only [read, Layout.getElem_block, Nat.zero_add]
  exact Reader.finds_pure _

theorem parseFields_eq (bytes : ByteArray) : parseFields bytes = parse bytes := by
  unfold parseFields parse
  refine Layout.parseFields_eq finds_cpuReader fun h => ?_
  generalize read bytes h = f
  rfl

end SpcFile

namespace ZstFile

/-- The registers of the CPU, each in a slot of its own. -/
def cpuReader : Reader CpuRegisters := do
  let pc ← Reader.word
  let _ ← Reader.block 2
  let a ← Reader.slot
  let x ← Reader.slot
  let y ← Reader.slot
  let psw ← Reader.slot
  let result ← Reader.block 4
  let sp ← Reader.slot
  return { pc, a, x, y, psw := flags psw result, sp }

/-- Reads a save state, with the registers of the CPU one behind the other. -/
def parseFields (bytes : ByteArray) : Except LayoutError ZstFile :=
  layout.parseFields bytes slotOffset cpuReader fun h cpu => { read bytes h with cpu }

theorem finds_slots {bytes : ByteArray} {o : Nat} (h : o + 28 ≤ bytes.size) :
    cpuReader.Finds bytes o (o + 28) {
      pc := word bytes[o] bytes[o + 1]
      a := bytes[o + 4]
      x := bytes[o + 8]
      y := bytes[o + 12]
      psw := flags bytes[o + 16] (Layout.block bytes (o + 20) 4 (by omega))
      sp := bytes[o + 24] } := by
  refine (Reader.finds_word (by omega)).bind ?_
  refine (Reader.finds_block (by omega)).bind ?_
  refine (Reader.finds_slot (by omega)).bind ?_
  refine (Reader.finds_slot (by omega)).bind ?_
  refine (Reader.finds_slot (by omega)).bind ?_
  refine (Reader.finds_slot (by omega)).bind ?_
  refine (Reader.finds_block (by omega)).bind ?_
  refine (Reader.finds_slot (by omega)).bind ?_
  exact Reader.finds_pure _

/-- The registers of the CPU at their offsets. -/
theorem cpu_read {bytes : ByteArray} (h : layout.required ≤ bytes.size) (hsize : slotOffset + 28 ≤ bytes.size) :
    (read bytes h).cpu = {
      pc := word bytes[slotOffset] bytes[slotOffset + 1]
      a := bytes[slotOffset + 4]
      x := bytes[slotOffset + 8]
      y := bytes[slotOffset + 12]
      psw := flags bytes[slotOffset + 16] (Layout.block bytes (slotOffset + 20) 4 (by omega))
      sp := bytes[slotOffset + 24] } := by
  have hresult : Layout.block bytes (slotOffset + 20) 4 (by omega) =
      #v[bytes[slotOffset + 20], bytes[slotOffset + 21], bytes[slotOffset + 22], bytes[slotOffset + 23]] := by
    apply Vector.ext
    intro i hi
    rw [Layout.getElem_block]
    match i, hi with
    | 0, _ | 1, _ | 2, _ | 3, _ => rfl
  simp only [read, Layout.getElem_block, Nat.add_zero, hresult]

theorem finds_cpuReader {bytes : ByteArray} (h : layout.required ≤ bytes.size) :
    cpuReader.Finds bytes slotOffset (slotOffset + 28) (read bytes h).cpu := by
  have hsize : slotOffset + 28 ≤ bytes.size := Nat.le_trans (by decide) h
  rw [cpu_read h hsize]
  exact finds_slots hsize

theorem parseFields_eq (bytes : ByteArray) : parseFields bytes = parse bytes :=
  Layout.parseFields_eq finds_cpuReader fun _ => rfl

end ZstFile

end SnesSound
