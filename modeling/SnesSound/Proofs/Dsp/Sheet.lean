import Mathlib.Data.Fintype.Basic
import Mathlib.Tactic.FinCases
import SnesSound.Proofs.Checked.Basic
import SnesSound.Proofs.Dsp.RegisterFile

/-!
# Registers by name

The register file can be kept as a bank of 128 bytes or as a sheet that has a name for every register: ten for each
voice, which lie in a row, the global ones in two columns, and five columns of coefficients and of registers without a
meaning. An access to the sheet finds a register by the row and the column of its address, once for reading and once
for storing, and a case that is left over stops the engine.

A slot is a place in the sheet. There are as many slots as addresses (`Slot.address`), what is put into one of them does
not change any other (`get_put_of_ne`), and both kinds of accesses find the slot of an address (`read_eq`, `store_eq`).
So the sheet is the bank by other names (`flat`).

Main statement: the sheet has 128 independent registers and loses none of them (`registers_are_independent`).
-/

namespace SnesSound

/-! ## The sheet -/

/-- The registers of one voice, `x0` to `x9`. -/
structure VoiceSheet where
  volumeLeft : UInt8 := 0
  volumeRight : UInt8 := 0
  pitchLow : UInt8 := 0
  pitchHigh : UInt8 := 0
  source : UInt8 := 0
  adsr1 : UInt8 := 0
  adsr2 : UInt8 := 0
  gain : UInt8 := 0
  envx : UInt8 := 0
  outx : UInt8 := 0

namespace VoiceSheet

/-- The register in a column. -/
def read (v : VoiceSheet) : Fin 10 → UInt8
  | 0 => v.volumeLeft
  | 1 => v.volumeRight
  | 2 => v.pitchLow
  | 3 => v.pitchHigh
  | 4 => v.source
  | 5 => v.adsr1
  | 6 => v.adsr2
  | 7 => v.gain
  | 8 => v.envx
  | 9 => v.outx

/-- Changes the register in a column. -/
def write (v : VoiceSheet) (column : Fin 10) (value : UInt8) : VoiceSheet :=
  match column with
  | 0 => { v with volumeLeft := value }
  | 1 => { v with volumeRight := value }
  | 2 => { v with pitchLow := value }
  | 3 => { v with pitchHigh := value }
  | 4 => { v with source := value }
  | 5 => { v with adsr1 := value }
  | 6 => { v with adsr2 := value }
  | 7 => { v with gain := value }
  | 8 => { v with envx := value }
  | 9 => { v with outx := value }

theorem read_write (v : VoiceSheet) (c d : Fin 10) (value : UInt8) :
    (v.write c value).read d = if c = d then value else v.read d := by
  fin_cases c <;> fin_cases d <;> rfl

theorem ext_read {v w : VoiceSheet} (h : ∀ c, v.read c = w.read c) : v = w := by
  obtain ⟨v0, v1, v2, v3, v4, v5, v6, v7, v8, v9⟩ := v
  obtain rfl : v0 = _ := h 0
  obtain rfl : v1 = _ := h 1
  obtain rfl : v2 = _ := h 2
  obtain rfl : v3 = _ := h 3
  obtain rfl : v4 = _ := h 4
  obtain rfl : v5 = _ := h 5
  obtain rfl : v6 = _ := h 6
  obtain rfl : v7 = _ := h 7
  obtain rfl : v8 = _ := h 8
  obtain rfl : v9 = _ := h 9
  rfl

end VoiceSheet

/-- The register file with a name for every register. -/
@[ext]
structure RegisterSheet where
  voices : Vector VoiceSheet 8 := Vector.replicate 8 {}
  /-- Register `0C`. -/
  mainVolumeLeft : UInt8 := 0
  /-- Register `1C`. -/
  mainVolumeRight : UInt8 := 0
  /-- Register `2C`. -/
  echoVolumeLeft : UInt8 := 0
  /-- Register `3C`. -/
  echoVolumeRight : UInt8 := 0
  /-- Register `4C`. -/
  keyOn : UInt8 := 0
  /-- Register `5C`. -/
  keyOff : UInt8 := 0
  /-- Register `6C`. -/
  flags : UInt8 := 0
  /-- Register `7C`, ENDX. -/
  ended : UInt8 := 0
  /-- Register `0D`. -/
  feedback : UInt8 := 0
  /-- Register `2D`. -/
  pitchModulation : UInt8 := 0
  /-- Register `3D`. -/
  noise : UInt8 := 0
  /-- Register `4D`. -/
  echo : UInt8 := 0
  /-- Register `5D`. -/
  directory : UInt8 := 0
  /-- Register `6D`. -/
  echoSource : UInt8 := 0
  /-- Register `7D`. -/
  echoDelay : UInt8 := 0
  /-- Registers `xF`. -/
  coefficients : Vector UInt8 8 := Vector.replicate 8 0
  /-- Registers `xA`. -/
  unusedA : Vector UInt8 8 := Vector.replicate 8 0
  /-- Registers `xB`. -/
  unusedB : Vector UInt8 8 := Vector.replicate 8 0
  /-- Register `1D`. -/
  unused1D : UInt8 := 0
  /-- Registers `xE`. -/
  unusedE : Vector UInt8 8 := Vector.replicate 8 0

namespace RegisterSheet

/-- There are eight rows. -/
theorem row_lt (row : Fin 8) : row.val < 8 := row.isLt

/-- There are sixteen columns. -/
theorem column_lt (address : UInt8) : address.toNat % 16 < 16 := Nat.mod_lt _ (by decide)

/-- The row of an address. -/
def row (address : UInt8) : Fin 8 := ⟨address.toNat / 16 % 8, Nat.mod_lt _ (by decide)⟩

/-- The column of an address. -/
def column (address : UInt8) : Fin 16 := ⟨address.toNat % 16, column_lt address⟩

/-- The register in a row and a column. -/
def readAt (r : RegisterSheet) (row : Fin 8) (column : Fin 16) : Checked UInt8 :=
  if h : column.val < 10 then .ok ((r.voices.get row).read ⟨column, h⟩)
  else
    match row, column with
    | row, 0xA => .ok (r.unusedA.get row)
    | row, 0xB => .ok (r.unusedB.get row)
    | row, 0xE => .ok (r.unusedE.get row)
    | 0x1, 0xD => .ok r.unused1D
    | 0x0, 0xC => .ok r.mainVolumeLeft
    | 0x1, 0xC => .ok r.mainVolumeRight
    | 0x2, 0xC => .ok r.echoVolumeLeft
    | 0x3, 0xC => .ok r.echoVolumeRight
    | 0x4, 0xC => .ok r.keyOn
    | 0x5, 0xC => .ok r.keyOff
    | 0x6, 0xC => .ok r.flags
    | 0x7, 0xC => .ok r.ended
    | 0x0, 0xD => .ok r.feedback
    | 0x2, 0xD => .ok r.pitchModulation
    | 0x3, 0xD => .ok r.noise
    | 0x4, 0xD => .ok r.echo
    | 0x5, 0xD => .ok r.directory
    | 0x6, 0xD => .ok r.echoSource
    | 0x7, 0xD => .ok r.echoDelay
    | row, 0xF => .ok (r.coefficients.get row)
    | _, _ => .error .unreachable

/-- Changes the register in a row and a column. -/
def storeAt (r : RegisterSheet) (row : Fin 8) (column : Fin 16) (value : UInt8) : Checked RegisterSheet :=
  if h : column.val < 10 then
    .ok { r with voices := r.voices.set row ((r.voices.get row).write ⟨column, h⟩ value) (row_lt row) }
  else
    match row, column with
    | row, 0xA => .ok { r with unusedA := r.unusedA.set row value (row_lt row) }
    | row, 0xB => .ok { r with unusedB := r.unusedB.set row value (row_lt row) }
    | row, 0xE => .ok { r with unusedE := r.unusedE.set row value (row_lt row) }
    | 0x1, 0xD => .ok { r with unused1D := value }
    | 0x0, 0xC => .ok { r with mainVolumeLeft := value }
    | 0x1, 0xC => .ok { r with mainVolumeRight := value }
    | 0x2, 0xC => .ok { r with echoVolumeLeft := value }
    | 0x3, 0xC => .ok { r with echoVolumeRight := value }
    | 0x4, 0xC => .ok { r with keyOn := value }
    | 0x5, 0xC => .ok { r with keyOff := value }
    | 0x6, 0xC => .ok { r with flags := value }
    | 0x7, 0xC => .ok { r with ended := value }
    | 0x0, 0xD => .ok { r with feedback := value }
    | 0x2, 0xD => .ok { r with pitchModulation := value }
    | 0x3, 0xD => .ok { r with noise := value }
    | 0x4, 0xD => .ok { r with echo := value }
    | 0x5, 0xD => .ok { r with directory := value }
    | 0x6, 0xD => .ok { r with echoSource := value }
    | 0x7, 0xD => .ok { r with echoDelay := value }
    | row, 0xF => .ok { r with coefficients := r.coefficients.set row value (row_lt row) }
    | _, _ => .error .unreachable

/-- Reads a register as the CPU does. -/
def read (r : RegisterSheet) (address : UInt8) : Checked UInt8 := r.readAt (row address) (column address)

/-- Changes a register without side effects. -/
def store (r : RegisterSheet) (address value : UInt8) : Checked RegisterSheet :=
  r.storeAt (row address) (column address) value

/-- Writes a register as the CPU does. -/
def write (r : RegisterSheet) (address value : UInt8) : Checked RegisterSheet :=
  if 0x80 ≤ address then .ok r
  else if address = 0x7C then .ok { r with ended := 0 }
  else r.store address value

/-- Writes registers one after the other. Every write is an address and a value. -/
def writeAll (r : RegisterSheet) (writes : List (UInt8 × UInt8)) : Checked RegisterSheet :=
  writes.foldlM (fun r w => r.write w.1 w.2) r

/-- The sheet for a bank of registers: its bytes are stored one after the other. -/
def ofBank (bank : Vector UInt8 128) : Checked RegisterSheet :=
  Fin.foldlM 128 (fun r i => r.store (UInt8.ofNat i) (bank.get i)) {}

/-- The bank of registers: all of them are read. -/
def toBank (r : RegisterSheet) : Checked (Vector UInt8 128) := Vector.ofFnM fun i => r.read (UInt8.ofNat i)

/-! ## Slots -/

/-- A place in the sheet. -/
inductive Slot
  | voice (row : Fin 8) (column : Fin 10)
  | mainVolumeLeft | mainVolumeRight | echoVolumeLeft | echoVolumeRight
  | keyOn | keyOff | flags | ended
  | feedback | unused1D | pitchModulation | noise | echo | directory | echoSource | echoDelay
  | unusedA (row : Fin 8) | unusedB (row : Fin 8) | unusedE (row : Fin 8) | coefficient (row : Fin 8)
  deriving DecidableEq

namespace Slot

/-- The address of the register that has its place there. -/
def address : Slot → Fin 128
  | voice row column => Register.ofVoice row (column.castLE (by decide))
  | mainVolumeLeft => Register.mvolL
  | mainVolumeRight => Register.mvolR
  | echoVolumeLeft => Register.evolL
  | echoVolumeRight => Register.evolR
  | keyOn => Register.kon
  | keyOff => Register.koff
  | flags => Register.flg
  | ended => Register.endx
  | feedback => Register.efb
  | unused1D => Register.ofVoice 1 0xD
  | pitchModulation => Register.pmon
  | noise => Register.non
  | echo => Register.eon
  | directory => Register.dir
  | echoSource => Register.esa
  | echoDelay => Register.edl
  | unusedA row => Register.ofVoice row 0xA
  | unusedB row => Register.ofVoice row 0xB
  | unusedE row => Register.ofVoice row 0xE
  | coefficient row => Register.ofVoice row 0xF

/-- The slot of the register in a row and a column. -/
def ofPosition (row : Fin 8) (column : Fin 16) : Slot :=
  if h : column.val < 10 then voice row ⟨column, h⟩
  else
    match column with
    | 0xA => unusedA row
    | 0xB => unusedB row
    | 0xC => #v[mainVolumeLeft, mainVolumeRight, echoVolumeLeft, echoVolumeRight, keyOn, keyOff, flags, ended].get row
    | 0xD => #v[feedback, unused1D, pitchModulation, noise, echo, directory, echoSource, echoDelay].get row
    | 0xE => unusedE row
    | _ => coefficient row

/-- The slot of an address. -/
def ofAddress (address : Fin 128) : Slot := ofPosition ⟨address / 16, by omega⟩ ⟨address % 16, by omega⟩

theorem address_ofAddress : ∀ address, (ofAddress address).address = address := by decide

theorem ofAddress_address (s : Slot) : ofAddress s.address = s := by
  cases s with
  | voice row column =>
    revert row column
    decide
  | unusedA row | unusedB row | unusedE row | coefficient row =>
    revert row
    decide
  | _ => rfl

theorem ofPosition_row_column (address : UInt8) :
    ofPosition (row address) (column address) = ofAddress (Registers.ofByte address) := by
  have hlt := address.toNat_lt
  have hrow : row address = ⟨(Registers.ofByte address).val / 16, by omega⟩ := by
    apply Fin.ext
    change address.toNat / 16 % 8 = address.toNat % 128 / 16
    omega
  have hcolumn : column address = ⟨(Registers.ofByte address).val % 16, by omega⟩ := by
    apply Fin.ext
    change address.toNat % 16 = address.toNat % 128 % 16
    omega
  rw [ofAddress, hrow, hcolumn]

end Slot

/-- The register in a slot. -/
def get (r : RegisterSheet) : Slot → UInt8
  | .voice row column => (r.voices.get row).read column
  | .mainVolumeLeft => r.mainVolumeLeft
  | .mainVolumeRight => r.mainVolumeRight
  | .echoVolumeLeft => r.echoVolumeLeft
  | .echoVolumeRight => r.echoVolumeRight
  | .keyOn => r.keyOn
  | .keyOff => r.keyOff
  | .flags => r.flags
  | .ended => r.ended
  | .feedback => r.feedback
  | .unused1D => r.unused1D
  | .pitchModulation => r.pitchModulation
  | .noise => r.noise
  | .echo => r.echo
  | .directory => r.directory
  | .echoSource => r.echoSource
  | .echoDelay => r.echoDelay
  | .unusedA row => r.unusedA.get row
  | .unusedB row => r.unusedB.get row
  | .unusedE row => r.unusedE.get row
  | .coefficient row => r.coefficients.get row

/-- Changes the register in a slot. -/
def put (r : RegisterSheet) (s : Slot) (value : UInt8) : RegisterSheet :=
  match s with
  | .voice row column => { r with voices := r.voices.set row ((r.voices.get row).write column value) (row_lt row) }
  | .mainVolumeLeft => { r with mainVolumeLeft := value }
  | .mainVolumeRight => { r with mainVolumeRight := value }
  | .echoVolumeLeft => { r with echoVolumeLeft := value }
  | .echoVolumeRight => { r with echoVolumeRight := value }
  | .keyOn => { r with keyOn := value }
  | .keyOff => { r with keyOff := value }
  | .flags => { r with flags := value }
  | .ended => { r with ended := value }
  | .feedback => { r with feedback := value }
  | .unused1D => { r with unused1D := value }
  | .pitchModulation => { r with pitchModulation := value }
  | .noise => { r with noise := value }
  | .echo => { r with echo := value }
  | .directory => { r with directory := value }
  | .echoSource => { r with echoSource := value }
  | .echoDelay => { r with echoDelay := value }
  | .unusedA row => { r with unusedA := r.unusedA.set row value (row_lt row) }
  | .unusedB row => { r with unusedB := r.unusedB.set row value (row_lt row) }
  | .unusedE row => { r with unusedE := r.unusedE.set row value (row_lt row) }
  | .coefficient row => { r with coefficients := r.coefficients.set row value (row_lt row) }

variable (r : RegisterSheet)

@[simp] theorem get_put_self (s : Slot) (value : UInt8) : (r.put s value).get s = value := by
  cases s with
  | voice row column => simp [get, put, get_eq_getElem, VoiceSheet.read_write]
  | unusedA row | unusedB row | unusedE row | coefficient row => simp [get, put, get_eq_getElem]
  | _ => rfl

/-- Other slots keep their registers. -/
theorem get_put_of_ne {s t : Slot} (value : UInt8) (h : s ≠ t) : (r.put s value).get t = r.get t := by
  have hset {α : Type} (v : Vector α 8) {i j : Fin 8} (a : α) (hne : i ≠ j) : (v.set i a i.isLt)[j] = v[j] :=
    Vector.getElem_set_ne i.isLt j.isLt fun e => hne (Fin.ext e)
  cases s with
  | voice row column =>
    cases t with
    | voice row' column' =>
      by_cases hrow : row = row'
      · subst hrow
        have hcolumn : column ≠ column' := fun e => h (congrArg _ e)
        simp [get, put, get_eq_getElem, VoiceSheet.read_write, hcolumn]
      · exact congrArg (fun v : VoiceSheet => v.read column') (hset _ _ hrow)
    | _ => rfl
  | unusedA row =>
    cases t with
    | unusedA row' => exact hset _ _ fun e => h (congrArg _ e)
    | _ => rfl
  | unusedB row =>
    cases t with
    | unusedB row' => exact hset _ _ fun e => h (congrArg _ e)
    | _ => rfl
  | unusedE row =>
    cases t with
    | unusedE row' => exact hset _ _ fun e => h (congrArg _ e)
    | _ => rfl
  | coefficient row =>
    cases t with
    | coefficient row' => exact hset _ _ fun e => h (congrArg _ e)
    | _ => rfl
  | _ => cases t <;> first | rfl | exact absurd rfl h

/-- A sheet has nothing but its slots. -/
theorem ext_get {r r' : RegisterSheet} (h : ∀ s, r.get s = r'.get s) : r = r' := by
  ext1
  case voices => exact Vector.ext fun i hi => VoiceSheet.ext_read fun column => h (.voice ⟨i, hi⟩ column)
  case coefficients => exact Vector.ext fun i hi => h (.coefficient ⟨i, hi⟩)
  case unusedA => exact Vector.ext fun i hi => h (.unusedA ⟨i, hi⟩)
  case unusedB => exact Vector.ext fun i hi => h (.unusedB ⟨i, hi⟩)
  case unusedE => exact Vector.ext fun i hi => h (.unusedE ⟨i, hi⟩)
  case mainVolumeLeft => exact h .mainVolumeLeft
  case mainVolumeRight => exact h .mainVolumeRight
  case echoVolumeLeft => exact h .echoVolumeLeft
  case echoVolumeRight => exact h .echoVolumeRight
  case keyOn => exact h .keyOn
  case keyOff => exact h .keyOff
  case flags => exact h .flags
  case ended => exact h .ended
  case feedback => exact h .feedback
  case unused1D => exact h .unused1D
  case pitchModulation => exact h .pitchModulation
  case noise => exact h .noise
  case echo => exact h .echo
  case directory => exact h .directory
  case echoSource => exact h .echoSource
  case echoDelay => exact h .echoDelay

/-! ## Accesses find the slot of an address -/

theorem readAt_eq (row : Fin 8) (column : Fin 16) :
    r.readAt row column = .ok (r.get (Slot.ofPosition row column)) := by
  fin_cases column <;> fin_cases row <;> rfl

theorem storeAt_eq (row : Fin 8) (column : Fin 16) (value : UInt8) :
    r.storeAt row column value = .ok (r.put (Slot.ofPosition row column) value) := by
  fin_cases column <;> fin_cases row <;> rfl

theorem read_eq (address : UInt8) : r.read address = .ok (r.get (Slot.ofAddress (Registers.ofByte address))) := by
  rw [read, readAt_eq, Slot.ofPosition_row_column]

theorem store_eq (address value : UInt8) :
    r.store address value = .ok (r.put (Slot.ofAddress (Registers.ofByte address)) value) := by
  rw [store, storeAt_eq, Slot.ofPosition_row_column]

/-! ## The sheet as a bank -/

/-- The same registers as a bank of bytes. -/
def flat (r : RegisterSheet) : Registers := ⟨Vector.ofFn fun address => r.get (Slot.ofAddress address)⟩

theorem get_flat (address : Fin 128) : r.flat.get address = r.get (Slot.ofAddress address) := by
  rw [Registers.get, get_eq_getElem, flat]
  exact Vector.getElem_ofFn _

theorem get_eq_get_flat (s : Slot) : r.get s = r.flat.get s.address := by
  rw [get_flat, Slot.ofAddress_address]

theorem flat_injective : Function.Injective flat := by
  intro r r' h
  refine ext_get fun s => ?_
  rw [get_eq_get_flat, get_eq_get_flat, h]

/-- To put a value into a slot is to store it at the address. -/
theorem flat_put (address : Fin 128) (value : UInt8) :
    (r.put (Slot.ofAddress address) value).flat = r.flat.store address value := by
  refine Registers.ext_get fun other => ?_
  rw [get_flat]
  by_cases h : address = other
  · rw [h, get_put_self, Registers.get_store_self]
  · have hne : Slot.ofAddress address ≠ Slot.ofAddress other := fun e =>
      h (by rw [← Slot.address_ofAddress address, e, Slot.address_ofAddress])
    rw [get_put_of_ne r value hne, Registers.get_store_of_ne _ _ h, get_flat]

theorem read_eq_flat (address : UInt8) : r.read address = .ok (r.flat.read address) := by
  rw [read_eq, Registers.read, get_flat]

/-- A write to the sheet is one to the bank. -/
theorem exists_write_eq (address value : UInt8) :
    ∃ r', r.write address value = .ok r' ∧ r'.flat = r.flat.write address value := by
  unfold write Registers.write
  by_cases hhigh : 0x80 ≤ address
  · rw [if_pos hhigh, if_pos hhigh]
    exact ⟨r, rfl, rfl⟩
  · have hendx : address = 0x7C ↔ Registers.ofByte address = Register.endx := by
      rw [Fin.ext_iff, Registers.val_ofByte hhigh, ← UInt8.toNat_inj]
      rfl
    rw [if_neg hhigh, if_neg hhigh]
    by_cases h : address = 0x7C
    · rw [if_pos h, if_pos (hendx.mp h)]
      exact ⟨_, rfl, r.flat_put Register.endx 0⟩
    · rw [if_neg h, if_neg (mt hendx.mpr h), store_eq]
      exact ⟨_, rfl, r.flat_put _ value⟩

/-- Writes to the sheet are writes to the bank. -/
theorem exists_writeAll_eq (writes : List (UInt8 × UInt8)) :
    ∃ r', r.writeAll writes = .ok r' ∧ r'.flat = r.flat.writeAll writes := by
  induction writes generalizing r with
  | nil => exact ⟨r, rfl, rfl⟩
  | cons w ws ih =>
    obtain ⟨r', hwrite, hflat⟩ := r.exists_write_eq w.1 w.2
    obtain ⟨r'', hrest, hflat'⟩ := ih r'
    refine ⟨r'', ?_, ?_⟩
    · rw [writeAll, List.foldlM_cons, hwrite, Checked.ok_bind]
      exact hrest
    · rw [hflat', hflat, Registers.writeAll, Registers.writeAll, List.foldl_cons]

theorem ofByte_ofNat : ∀ address : Fin 128, Registers.ofByte (UInt8.ofNat address) = address := by decide

theorem toBank_eq : r.toBank = .ok r.flat.bank := by
  simp only [toBank, read_eq, ofByte_ofNat]
  exact Vector.ofFnM_pure

/-- The registers of a sheet below an address are those of a bank. -/
def AgreesBelow (bank : Vector UInt8 128) (n : Nat) (r : RegisterSheet) : Prop :=
  ∀ address : Fin 128, address.val < n → r.flat.get address = bank.get address

theorem AgreesBelow.put {bank : Vector UInt8 128} {r : RegisterSheet} {i : Fin 128} (h : AgreesBelow bank i r) :
    AgreesBelow bank (i + 1) (r.put (Slot.ofAddress i) (bank.get i)) := by
  intro address hlt
  rw [flat_put]
  by_cases hi : i = address
  · rw [hi, Registers.get_store_self]
  · have hne : i.val ≠ address.val := fun e => hi (Fin.ext e)
    rw [Registers.get_store_of_ne _ _ hi]
    exact h address (by omega)

/-- A sheet that is made from a bank has the registers of the bank. -/
theorem exists_ofBank_eq (bank : Vector UInt8 128) : ∃ r, ofBank bank = .ok r ∧ r.flat = ⟨bank⟩ := by
  have hround (i : Fin 128) (r : RegisterSheet) (h : AgreesBelow bank i r) :
      r.store (UInt8.ofNat i) (bank.get i) = .ok (r.put (Slot.ofAddress i) (bank.get i)) ∧
        AgreesBelow bank (i + 1) (r.put (Slot.ofAddress i) (bank.get i)) := by
    rw [store_eq, ofByte_ofNat]
    exact ⟨rfl, h.put⟩
  have hstart : AgreesBelow bank 0 {} := fun _ h => absurd h (Nat.not_lt_zero _)
  obtain ⟨hok, hall⟩ := Checked.foldlM_ok hround hstart
  exact ⟨_, hok, Registers.ext_get fun address => hall address address.isLt⟩

/-- **The registers are independent.** To make a sheet from a bank and a bank from the sheet gives the bank again, and
to make a bank from a sheet and a sheet from the bank gives the sheet again. After any writes to a sheet, a read at any
address `c` gives the value of the last one to the address `c % 128` (zero in the case of ENDX), or what was there in
the beginning; writes at `0x80` and above change nothing. Reads, writes and banks of a sheet are those of the register
file as a bank. -/
theorem registers_are_independent :
    (∀ bank : Vector UInt8 128, (do let r ← ofBank bank; r.toBank) = .ok bank) ∧
    (∀ r : RegisterSheet, (do let bank ← r.toBank; ofBank bank) = .ok r) ∧
    (∀ (r : RegisterSheet) (writes : List (UInt8 × UInt8)) (c : UInt8), ∃ initial, r.read c = .ok initial ∧
      (do let r' ← r.writeAll writes; r'.read c) =
        .ok (latest (Registers.stored (Registers.ofByte c)) initial writes)) ∧
    (∀ (r : RegisterSheet) (address value : UInt8), 0x80 ≤ address → r.write address value = .ok r) ∧
    Function.Bijective flat ∧ ∀ (r : RegisterSheet) (address value : UInt8),
      r.toBank = .ok r.flat.bank ∧ r.read address = .ok (r.flat.read address) ∧
        flat <$> r.write address value = .ok (r.flat.write address value) := by
  refine ⟨fun bank => ?_, fun r => ?_, fun r writes c => ?_, fun r address value h => if_pos h,
    ⟨flat_injective, fun registers => ?_⟩, fun r address value => ⟨r.toBank_eq, r.read_eq_flat address, ?_⟩⟩
  · obtain ⟨r, hok, hflat⟩ := exists_ofBank_eq bank
    rw [hok, Checked.ok_bind, toBank_eq, hflat]
  · obtain ⟨r', hok, hflat⟩ := exists_ofBank_eq r.flat.bank
    rw [toBank_eq, Checked.ok_bind, hok, flat_injective hflat]
  · obtain ⟨r', hok, hflat⟩ := r.exists_writeAll_eq writes
    refine ⟨_, r.read_eq_flat c, ?_⟩
    rw [hok, Checked.ok_bind, read_eq_flat, hflat, Registers.read, Registers.get_writeAll]
    rfl
  · obtain ⟨r, -, hflat⟩ := exists_ofBank_eq registers.bank
    exact ⟨r, hflat⟩
  · obtain ⟨r', hok, hflat⟩ := r.exists_write_eq address value
    rw [hok, Checked.map_ok, hflat]

/-- A value that is written at `12` is read at `92`, but none is written there; and ENDX is cleared by `55`. -/
theorem registers_are_independent_mirrored :
    ({ ended := 0xFF } : RegisterSheet).write 0x92 0x12 = .ok { ended := 0xFF } ∧
    (do let r ← ({} : RegisterSheet).writeAll [(0x12, 0x34), (0x92, 0x12), (0x13, 0xFF)]; r.read 0x92) = .ok 0x34 ∧
    (do let r ← ({ ended := 0xFF } : RegisterSheet).writeAll [(0x7C, 0x55)]; r.read 0x7C) = .ok 0 := by
  obtain ⟨-, -, hread, hhigh, -⟩ := registers_are_independent
  obtain ⟨_, -, hmirrored⟩ := hread {} [(0x12, 0x34), (0x92, 0x12), (0x13, 0xFF)] 0x92
  obtain ⟨_, -, hcleared⟩ := hread { ended := 0xFF } [(0x7C, 0x55)] 0x7C
  exact ⟨hhigh _ 0x92 0x12 (by decide), hmirrored, hcleared⟩

end RegisterSheet

end SnesSound
