import SnesSound.Proofs.Session.Reach
import SnesSound.Proofs.Snapshot.Reader

/-!
# What is accepted as a snapshot

Whether bytes are an image of a format depends on how they begin and on how many there are, and on nothing else. This
is what reading, the recognition of formats and loading go by, so that they never disagree; above all, a tag that makes
no sense is no reason to refuse an image.

Main statement: reading succeeds exactly on complete images of its format, no bytes are complete images of both
formats, and loading succeeds exactly on complete images, with the session that a new one would be, while a session
that is refused an image stays as it is (`acceptance`).
-/

namespace SnesSound

variable {bytes : ByteArray} {format : Format}

/-! ## Beginnings -/

theorem getElem?_toList (bytes : ByteArray) (i : Nat) : bytes.data.toList[i]? = bytes[i]? := by
  by_cases h : i < bytes.size
  · rw [getElem?_pos bytes i h, List.getElem?_eq_getElem h]
    rfl
  · rw [getElem?_neg bytes i h, List.getElem?_eq_none (Nat.le_of_not_lt h)]

/-- Bytes start with others if these are their first ones. -/
theorem Layout.startsWith_iff {start : List UInt8} :
    startsWith bytes start = true ↔ start <+: bytes.data.toList := by
  simp only [startsWith, List.all_eq_true, List.prefix_iff_getElem?, getElem?_toList, beq_iff_eq]
  constructor
  · intro h i hi
    exact h (start[i], i) (List.mem_zipIdx_iff_getElem?.mpr (List.getElem?_eq_getElem hi))
  · rintro h ⟨b, i⟩ hb
    obtain ⟨hi, hget⟩ := List.getElem?_eq_some_iff.mp (List.mem_zipIdx_iff_getElem?.mp hb)
    exact (h i hi).trans (congrArg some hget)

theorem Layout.map_parse {α β : Type} {l : Layout} (f : α → β) (read : l.required ≤ bytes.size → α) :
    (l.parse bytes read).map f = l.parse bytes fun h => f (read h) := by
  by_cases h : l.Accepts bytes
  · rw [parse_eq_ok h, parse_eq_ok h, Except.map]
  · rw [parse_eq_error h, parse_eq_error h, Except.map]

namespace Format

/-- How images of a format are laid out. -/
def layout : Format → Layout
  | .spc => SpcFile.layout
  | .zst => ZstFile.layout

/-- Whether bytes begin like an image of a format. -/
def Begins (format : Format) (bytes : ByteArray) : Prop := format.layout.identification <+: bytes.data.toList

/-- Whether bytes are a complete image of a format. -/
def Complete (format : Format) (bytes : ByteArray) : Prop :=
  format.Begins bytes ∧ format.layout.required ≤ bytes.size

theorem accepts_iff (format : Format) : format.layout.Accepts bytes ↔ format.Complete bytes := by
  rw [Layout.Accepts, Layout.startsWith_iff]
  rfl

/-- The identifications differ, so bytes begin with one of them at most. -/
theorem not_begins_both : ¬(Begins .spc bytes ∧ Begins .zst bytes) := by
  rintro ⟨hspc, hzst⟩
  have hprefix := List.prefix_of_prefix_length_le hzst hspc (by decide +kernel)
  revert hprefix
  decide +kernel

/-! ## Reading -/

/-- Reads an image of a format. -/
def parse : Format → ByteArray → Except LayoutError (SpcFile ⊕ ZstFile)
  | .spc, bytes => (SpcFile.parse bytes).map .inl
  | .zst, bytes => (ZstFile.parse bytes).map .inr

/-- Reads an image of a format, with the registers of the CPU one behind the other. -/
def parseFields : Format → ByteArray → Except LayoutError (SpcFile ⊕ ZstFile)
  | .spc, bytes => (SpcFile.parseFields bytes).map .inl
  | .zst, bytes => (ZstFile.parseFields bytes).map .inr

theorem parseFields_eq_parse : format.parseFields bytes = format.parse bytes := by
  cases format with
  | spc => rw [parseFields, parse, SpcFile.parseFields_eq]
  | zst => rw [parseFields, parse, ZstFile.parseFields_eq]

/-- Both formats are read by their layouts. -/
theorem exists_parse_eq (format : Format) (bytes : ByteArray) :
    ∃ read, format.parse bytes = format.layout.parse bytes read := by
  cases format with
  | spc => exact ⟨_, Layout.map_parse _ _⟩
  | zst => exact ⟨_, Layout.map_parse _ _⟩

theorem exists_parse_eq_ok (h : format.Complete bytes) : ∃ file, format.parse bytes = .ok file := by
  obtain ⟨read, hread⟩ := format.exists_parse_eq bytes
  exact ⟨_, hread.trans (Layout.parse_eq_ok (format.accepts_iff.mpr h) read)⟩

theorem parse_eq_complaint (h : ¬format.Complete bytes) :
    format.parse bytes = .error (format.layout.complaint bytes) := by
  obtain ⟨read, hread⟩ := format.exists_parse_eq bytes
  exact hread.trans (Layout.parse_eq_error (mt format.accepts_iff.mp h) read)

theorem parse_eq_ok_iff : (∃ file, format.parse bytes = .ok file) ↔ format.Complete bytes := by
  refine ⟨fun ⟨file, hfile⟩ => ?_, exists_parse_eq_ok⟩
  by_cases h : format.Complete bytes
  · exact h
  · rw [parse_eq_complaint h] at hfile
    cases hfile

/-- What is wrong with bytes that are no complete image. -/
theorem parse_eq_error_iff {e : LayoutError} : format.parse bytes = .error e ↔
    ¬format.Begins bytes ∧ e = .missingIdentification format ∨
      format.Begins bytes ∧ bytes.size < format.layout.required ∧
        e = .tooShort format bytes.size format.layout.required := by
  have hformat : format.layout.format = format := by cases format <;> rfl
  by_cases hcomplete : format.Complete bytes
  · obtain ⟨file, hfile⟩ := exists_parse_eq_ok hcomplete
    simp [hfile, hcomplete.1, Nat.not_lt_of_le hcomplete.2]
  · rw [parse_eq_complaint hcomplete, Layout.complaint, hformat]
    by_cases hbegins : format.Begins bytes
    · have hshort : bytes.size < format.layout.required := Nat.lt_of_not_le fun h => hcomplete ⟨hbegins, h⟩
      rw [if_pos (Layout.startsWith_iff.mpr hbegins)]
      simp [hbegins, hshort, eq_comm]
    · rw [if_neg (mt Layout.startsWith_iff.mp hbegins)]
      simp [hbegins, eq_comm]

theorem detect?_eq_some_iff : detect? bytes = some format ↔ format.Complete bytes := by
  have hboth : ¬(Complete .spc bytes ∧ Complete .zst bytes) := fun h => not_begins_both ⟨h.1.1, h.2.1⟩
  have hspc : SpcFile.layout.Accepts bytes ↔ Complete .spc bytes := accepts_iff .spc
  have hzst : ZstFile.layout.Accepts bytes ↔ Complete .zst bytes := accepts_iff .zst
  simp only [detect?, hspc, hzst]
  cases format <;> split <;> simp_all

/-- Everything that has to do with a format agrees on bytes. -/
structure Agrees (format : Format) (bytes : ByteArray) : Prop where
  /-- Reading field by field adds no failure. -/
  fields : format.parseFields bytes = format.parse bytes
  accepted : format.layout.Accepts bytes ↔ format.Complete bytes
  parsed : (∃ file, format.parse bytes = .ok file) ↔ format.Complete bytes
  detected : detect? bytes = some format ↔ format.Complete bytes
  /-- A missing identification is reported as such, and only then a missing end. -/
  refused : ∀ e, format.parse bytes = .error e ↔
    ¬format.Begins bytes ∧ e = .missingIdentification format ∨
      format.Begins bytes ∧ bytes.size < format.layout.required ∧
        e = .tooShort format bytes.size format.layout.required

end Format

/-! ## Loading -/

namespace Session

variable {s : Session}

/-- What a session is loaded with does not depend on what it was before. -/
theorem load_eq_ofSnapshot (s : Session) (bytes : ByteArray) : s.load bytes = ofSnapshot bytes s.options := by
  rw [ofSnapshot, load, load]
  cases Snapshot.parse? bytes <;> rfl

theorem load_eq_ok_iff : (∃ t, s.load bytes = .ok t) ↔ (Format.detect? bytes).isSome := by
  rw [← Snapshot.isSome_parse?_iff, load]
  cases Snapshot.parse? bytes <;> simp

/-- Loading bytes is all or nothing. -/
structure LoadsAnew (s : Session) (bytes : ByteArray) : Prop where
  loaded : (∃ t, s.load bytes = .ok t) ↔ (Format.detect? bytes).isSome
  /-- The session is the one that is created from the bytes. -/
  anew : ∀ t, s.load bytes = .ok t → ofSnapshot bytes s.options = .ok t ∧ s.perform (.load bytes) = t
  /-- A session that is refused an image stays as it is. -/
  unchanged : ∀ e, s.load bytes = .error e → e = .unrecognizedFormat ∧ s.perform (.load bytes) = s

theorem loadsAnew (s : Session) (bytes : ByteArray) : s.LoadsAnew bytes where
  loaded := load_eq_ok_iff
  anew t h := by
    refine ⟨s.load_eq_ofSnapshot bytes ▸ h, ?_⟩
    rw [perform, h]
    rfl
  unchanged e h := by
    refine ⟨by cases e; rfl, ?_⟩
    rw [perform, h]
    rfl

end Session

/-- Reading, the recognition of formats and loading go by the same predicate, which tells the formats apart. -/
theorem acceptance (bytes : ByteArray) : (∀ format, Format.Agrees format bytes) ∧
    ¬(Format.Complete .spc bytes ∧ Format.Complete .zst bytes) ∧ ∀ s : Session, s.LoadsAnew bytes :=
  ⟨fun _ => ⟨Format.parseFields_eq_parse, Format.accepts_iff _, Format.parse_eq_ok_iff, Format.detect?_eq_some_iff,
      fun _ => Format.parse_eq_error_iff⟩,
    fun h => Format.not_begins_both ⟨h.1.1, h.2.1⟩, fun s => s.loadsAnew bytes⟩

end SnesSound
