import SnesSound.Snapshot.Date
import SnesSound.Text.Blank
import SnesSound.Text.Utf8
import SnesSound.Word

/-!
# ID666 tags

The header of an SPC file may hold a tag with the title of the music, its length and more. There are two layouts of
the second half of the tag, one with binary numbers and one with numerals, and nothing tells which one a file has. The
binary layout is taken if everything in it makes sense, else the text layout if that does; otherwise there is no tag.

All offsets are offsets in the file, whose first 256 bytes are its header.
-/

namespace SnesSound

/-- The emulator that a dump was made with. -/
inductive Emulator
  | unknown
  | zsnes
  | snes9x
  | zst2spc
  | other
  | sneShout
  | zsnesW
  | snes9xpp
  | snesGT
  deriving DecidableEq, Repr, Inhabited

/-- The emulator with a number. The number is stored as such or as a digit. -/
def Emulator.ofByte? (b : UInt8) : Option Emulator :=
  match b.toNat with
  | 0x00 | 0x30 => some .unknown
  | 0x01 | 0x31 => some .zsnes
  | 0x02 | 0x32 => some .snes9x
  | 0x03 | 0x33 => some .zst2spc
  | 0x04 | 0x34 => some .other
  | 0x05 | 0x35 => some .sneShout
  | 0x06 | 0x36 => some .zsnesW
  | 0x07 | 0x37 => some .snes9xpp
  | 0x08 | 0x38 => some .snesGT
  | _ => none

/-- What a tag tells about the music. -/
structure Tag where
  title : String := ""
  game : String := ""
  artist : String := ""
  /-- Who made the dump. -/
  dumper : String := ""
  comments : String := ""
  dumpDate : Option Date := none
  /-- Time to play before the fade, in milliseconds. -/
  duration : Nat := 0
  /-- Time of the fade, in milliseconds. -/
  fade : Nat := 0
  /-- Whether some voices are to be muted from the start. -/
  mutesVoices : Bool := false
  emulator : Emulator := .unknown
  deriving DecidableEq, Repr, Inhabited

namespace Tag

/-! ## Fields -/

/-- The bytes of a field. -/
def field (header : List UInt8) (offset length : Nat) : List UInt8 := (header.drop offset).take length

/-- A field of one byte. -/
def byte (header : List UInt8) (offset : Nat) : UInt8 := header.getD offset 0

/-- The characters of a field, which ends early at a zero byte. -/
def characters (bytes : List UInt8) : List Char := Utf8.decodeChars (bytes.takeWhile (· ≠ 0))

/-- The text of a field. -/
def text (header : List UInt8) (offset length : Nat) : String :=
  String.ofList (characters (field header offset length))

/-- The number of a field with binary contents, lowest byte first. -/
def binary (header : List UInt8) (offset length : Nat) : Nat := ofLittleEndian (field header offset length)

/-- The number of a field with a numeral. An empty field stands for zero. -/
def numeral? (header : List UInt8) (offset length greatest : Nat) : Option Nat :=
  match trimBlanks (characters (field header offset length)) with
  | [] => some 0
  | cs => Numeral.read greatest cs

/-! ## Dates -/

/-- The date of a binary tag: day, month and year, or zeros if there is none. -/
def binaryDate? (header : List UInt8) : Option (Option Date) :=
  let day := (byte header 0x9E).toNat
  let month := (byte header 0x9F).toNat
  let year := binary header 0xA0 2
  if day = 0 ∧ month = 0 ∧ year = 0 then some none
  else if 1 ≤ year ∧ year ≤ 9999 then (Date.make? year month day).map some
  else none

/-- Month, day and year of a text tag, as they are written; zeros if they are written in any other way. -/
def writtenDate (header : List UInt8) : Nat × Nat × Nat :=
  let parts := do
    let month ← numeral? header 0x9E 2 255
    let day ← numeral? header 0xA1 2 255
    let year ← numeral? header 0xA4 4 65535
    if byte header 0xA0 = 0x2F ∧ byte header 0xA3 = 0x2F then some (month, day, year) else none
  parts.getD (0, 0, 0)

/-- The date of a text tag. There is none if it is not written as a date; one that is written but does not exist is an
error. -/
def textDate? (header : List UInt8) : Option (Option Date) :=
  match writtenDate header with
  | (0, 0, 0) => some none
  | (month, day, year) => (Date.make? year month day).map some

/-! ## Tags -/

/-- The first half of a tag, which is the same in both layouts. -/
def common (header : List UInt8) : Tag where
  title := text header 0x2E 32
  game := text header 0x4E 32
  dumper := text header 0x6E 16
  comments := text header 0x7E 32

/-- A binary tag. -/
def ofBinary? (header : List UInt8) : Option Tag := do
  let dumpDate ← binaryDate? header
  let mutesVoices ← match (byte header 0xD0).toNat with
    | 0 => some false
    | 1 => some true
    | _ => none
  let emulator ← Emulator.ofByte? (byte header 0xD1)
  return { common header with
    dumpDate
    duration := 1000 * binary header 0xA9 3
    fade := binary header 0xAC 4
    artist := text header 0xB0 32
    mutesVoices
    emulator }

/-- A text tag. -/
def ofText? (header : List UInt8) : Option Tag := do
  let dumpDate ← textDate? header
  let seconds ← numeral? header 0xA9 3 0xFFFFFFFFFFFFFFFF
  let fade ← numeral? header 0xAC 5 0xFFFFFFFFFFFFFFFF
  return { common header with
    dumpDate
    duration := 1000 * seconds
    fade
    artist := text header 0xB1 32
    mutesVoices := byte header 0xD1 = 1 || byte header 0xD1 = 0x31
    emulator := (Emulator.ofByte? (byte header 0xD2)).getD .unknown }

/-- The tag in a header. -/
def ofHeader? (header : List UInt8) : Option Tag :=
  match ofBinary? header with
  | some tag => some tag
  | none => ofText? header

end Tag

end SnesSound
