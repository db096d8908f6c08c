import SnesSound.Text.Numeral

/-!
# Snapshot layouts

A snapshot begins with an identification and holds everything at fixed offsets. It is accepted if the identification
is there and nothing that is needed lies behind its end.

Main statements: reading succeeds exactly on accepted bytes (`parse_eq_ok`, `parse_eq_error`), and a missing
identification is reported before a missing end (`complaint`).
-/

namespace SnesSound

/-- A format of snapshots. -/
inductive Format
  /-- SPC file. -/
  | spc
  /-- ZSNES save state. -/
  | zst
  deriving DecidableEq, Repr

/-- The name of a format. -/
def Format.name : Format → String
  | .spc => "SPC"
  | .zst => "ZSNES save state"

/-- What identifies a format, and how long it is at least. -/
structure Layout where
  format : Format
  /-- The bytes at the start. -/
  identification : List UInt8
  /-- Least length in bytes. -/
  required : Nat

/-- Why bytes are not a snapshot of some format. -/
inductive LayoutError
  /-- The identification is missing. -/
  | missingIdentification (format : Format)
  /-- The bytes end too early. -/
  | tooShort (format : Format) (actual required : Nat)
  deriving DecidableEq, Repr

/-- The text of an error. -/
def LayoutError.message : LayoutError → String
  | .missingIdentification format => "input does not start with the " ++ format.name ++ " identification string"
  | .tooShort format actual required =>
    format.name ++ " input is 0x" ++ Numeral.hex 1 actual ++ " bytes long, but at least 0x" ++ Numeral.hex 1 required
      ++ " bytes are needed"

namespace Layout

/-- Whether bytes start with given ones. -/
def startsWith (bytes : ByteArray) (start : List UInt8) : Bool :=
  start.zipIdx.all fun (b, i) => bytes[i]? == some b

/-- Whether bytes are a complete snapshot. -/
def Accepts (l : Layout) (bytes : ByteArray) : Prop :=
  startsWith bytes l.identification = true ∧ l.required ≤ bytes.size

instance (l : Layout) (bytes : ByteArray) : Decidable (l.Accepts bytes) := inferInstanceAs (Decidable (_ ∧ _))

theorem Accepts.required_le {l : Layout} {bytes : ByteArray} (h : l.Accepts bytes) : l.required ≤ bytes.size := h.2

/-- Why bytes that are not accepted are not. -/
def complaint (l : Layout) (bytes : ByteArray) : LayoutError :=
  if startsWith bytes l.identification then .tooShort l.format bytes.size l.required
  else .missingIdentification l.format

/-- Reads a snapshot, if the bytes are one. -/
def parse {α : Type} (l : Layout) (bytes : ByteArray) (read : l.required ≤ bytes.size → α) : Except LayoutError α :=
  if h : l.Accepts bytes then .ok (read h.2) else .error (l.complaint bytes)

theorem parse_eq_ok {α : Type} {l : Layout} {bytes : ByteArray} (h : l.Accepts bytes)
    (read : l.required ≤ bytes.size → α) : l.parse bytes read = .ok (read h.2) := by
  simp [parse, h]

theorem parse_eq_error {α : Type} {l : Layout} {bytes : ByteArray} (h : ¬l.Accepts bytes)
    (read : l.required ≤ bytes.size → α) : l.parse bytes read = .error (l.complaint bytes) := by
  simp [parse, h]

/-- A block of bytes at a fixed offset. -/
def block (bytes : ByteArray) (offset length : Nat) (h : offset + length ≤ bytes.size) : Vector UInt8 length :=
  Vector.ofFn fun i => bytes[offset + i.val]

@[simp] theorem getElem_block (bytes : ByteArray) (offset length : Nat) (h : offset + length ≤ bytes.size) (i : Nat)
    (hi : i < length) : (block bytes offset length h)[i] = bytes[offset + i] := by
  simp [block]

theorem toList_block (bytes : ByteArray) (offset length : Nat) (h : offset + length ≤ bytes.size) :
    (block bytes offset length h).toList = (bytes.data.toList.drop offset).take length := by
  have hsize : bytes.data.toList.length = bytes.size := Array.length_toList
  apply List.ext_getElem
  · rw [Vector.length_toList, List.length_take, List.length_drop, hsize]
    omega
  · intro i hi _
    rw [Vector.length_toList] at hi
    rw [Vector.getElem_toList, getElem_block, List.getElem_take, List.getElem_drop]
    rfl

end Layout

end SnesSound
