import Mathlib.Tactic.MkIffOfInductiveProp
import SnesSound.Proofs.Snapshot.Accept
import SnesSound.Proofs.Snapshot.Encode
import SnesSound.Proofs.Snapshot.Field

/-!
# Tags as they are written

Nothing tells which layout a tag has, and the same bytes may make sense in both. A binary tag is always read as one. A
text tag with a date never is, since the digits of a month are no number of a month. But the zeros of a text tag without
a date are also those of a binary tag without a date, and nothing behind them says otherwise, so that digits are read as
binary numbers: what both layouts share comes out right then, and the rest only if there is nothing in it.

Main statements: a binary tag is read back (`SpcFile.parse_binaryTag`), and so is a text tag with a date, while one
without is taken for a binary tag (`SpcFile.parse_textTag`).
-/

namespace SnesSound

/-! ## What is written -/

/-- Whether a byte stands for a number: as such, or as its digit. -/
def StandsFor (b : UInt8) (n : Nat) : Prop := b.toNat = n ∨ b.toNat = 0x30 + n

instance (b : UInt8) (n : Nat) : Decidable (StandsFor b n) := inferInstanceAs (Decidable (_ ∨ _))

theorem StandsFor.eq_flag {b : UInt8} {flag : Bool} (h : StandsFor b flag.toNat) :
    (decide (b = 1) || decide (b = 0x31)) = flag := by
  have hb : b = UInt8.ofNat flag.toNat ∨ b = UInt8.ofNat (0x30 + flag.toNat) :=
    h.imp (fun h => by rw [← h, UInt8.ofNat_toNat]) fun h => by rw [← h, UInt8.ofNat_toNat]
  rcases hb with rfl | rfl <;> cases flag <;> rfl

namespace Emulator

/-- The number of an emulator. -/
def number : Emulator → Nat
  | unknown => 0
  | zsnes => 1
  | snes9x => 2
  | zst2spc => 3
  | other => 4
  | sneShout => 5
  | zsnesW => 6
  | snes9xpp => 7
  | snesGT => 8

theorem ofByte?_eq {b : UInt8} {e : Emulator} (h : StandsFor b e.number) : ofByte? b = some e := by
  unfold ofByte?
  rcases h with h | h <;> rw [h] <;> cases e <;> rfl

end Emulator

namespace Tag

/-- A date in a text tag: month, day and year, or nothing. -/
def dateText : Option Date → String
  | none => ""
  | some d => Numeral.decimal 2 d.month ++ ("/" ++ (Numeral.decimal 2 d.day ++ ("/" ++ Numeral.decimal 4 d.year)))

/-- A date in a binary tag: day, month and year, or zeros. -/
def dateBytes : Option Date → List UInt8
  | none => [0, 0, 0, 0]
  | some d => UInt8.ofNat d.day :: UInt8.ofNat d.month :: littleEndian 2 d.year

/-- A header holds the first half of a tag, which is the same in both layouts. -/
@[mk_iff]
structure HoldsCommon (header : List UInt8) (tag : Tag) : Prop where
  title : HoldsText header 0x2E 32 tag.title
  game : HoldsText header 0x4E 32 tag.game
  dumper : HoldsText header 0x6E 16 tag.dumper
  comments : HoldsText header 0x7E 32 tag.comments

/-- A header holds a text tag, with these digits for the seconds to play and for the fade. -/
@[mk_iff]
structure HoldsTextTag (header : List UInt8) (tag : Tag) (seconds fade : String) : Prop
    extends HoldsCommon header tag where
  date_text : HoldsText header 0x9E 11 (dateText tag.dumpDate)
  date_exists : ∀ d ∈ tag.dumpDate, d.Valid ∧ d.year ≤ 9999
  seconds_text : HoldsText header 0xA9 3 seconds
  seconds_all : seconds.toList.all Char.isDigit = true
  duration_eq : tag.duration = 1000 * Nat.ofDigitChars 10 seconds.toList 0
  fade_text : HoldsText header 0xAC 5 fade
  fade_all : fade.toList.all Char.isDigit = true
  fade_eq : tag.fade = Nat.ofDigitChars 10 fade.toList 0
  artist : HoldsText header 0xB1 32 tag.artist
  /-- The last byte of the field stays zero. -/
  artist_short : (Utf8.encode tag.artist).length ≤ 31
  mutesVoices : StandsFor (byte header 0xD1) tag.mutesVoices.toNat
  emulator : StandsFor (byte header 0xD2) tag.emulator.number

/-- A header holds a binary tag, with this number of seconds to play. Anything may stand between the date and them. -/
@[mk_iff]
structure HoldsBinaryTag (header : List UInt8) (tag : Tag) (seconds : Nat) : Prop extends HoldsCommon header tag where
  date_bytes : field header 0x9E 4 = dateBytes tag.dumpDate
  date_exists : ∀ d ∈ tag.dumpDate, d.Valid ∧ 1 ≤ d.year ∧ d.year ≤ 9999
  seconds_bytes : field header 0xA9 3 = littleEndian 3 seconds
  seconds_lt : seconds < 2 ^ 24
  duration_eq : tag.duration = 1000 * seconds
  fade_bytes : field header 0xAC 4 = littleEndian 4 tag.fade
  fade_lt : tag.fade < 2 ^ 32
  artist : HoldsText header 0xB0 32 tag.artist
  mutesVoices : (byte header 0xD0).toNat = tag.mutesVoices.toNat
  emulator : StandsFor (byte header 0xD1) tag.emulator.number

variable {header : List UInt8} {tag : Tag} {seconds fade : String} {date : Option Date} {d : Date}

instance : Decidable (HoldsCommon header tag) := decidable_of_iff' _ (holdsCommon_iff header tag)

instance : Decidable (HoldsTextTag header tag seconds fade) :=
  decidable_of_iff' _ (holdsTextTag_iff header tag seconds fade)

instance (seconds : Nat) : Decidable (HoldsBinaryTag header tag seconds) :=
  decidable_of_iff' _ (holdsBinaryTag_iff header tag seconds)

theorem HoldsTextTag.seconds_digits (h : HoldsTextTag header tag seconds fade) :
    ∀ c ∈ seconds.toList, c.isDigit = true := List.all_eq_true.mp h.seconds_all

theorem HoldsTextTag.fade_digits (h : HoldsTextTag header tag seconds fade) :
    ∀ c ∈ fade.toList, c.isDigit = true := List.all_eq_true.mp h.fade_all

theorem HoldsCommon.common_eq (h : HoldsCommon header tag) : common header =
    { title := tag.title, game := tag.game, dumper := tag.dumper, comments := tag.comments } := by
  rw [common, h.title.text_eq, h.game.text_eq, h.dumper.text_eq, h.comments.text_eq]

/-! ## Binary tags -/

theorem binary_eq_of_field {offset width n : Nat} (h : field header offset width = littleEndian width n)
    (hn : n < 256 ^ width) : binary header offset width = n := by
  rw [binary, h, ofLittleEndian_littleEndian hn]

theorem binaryDate?_eq (h : field header 0x9E 4 = dateBytes date)
    (hdate : ∀ d ∈ date, d.Valid ∧ 1 ≤ d.year ∧ d.year ≤ 9999) : binaryDate? header = some date := by
  have hday : byte header 0x9E = (dateBytes date).getD 0 0 := h ▸ byte_eq_getD (show 0 < 4 by decide)
  have hmonth : byte header 0x9F = (dateBytes date).getD 1 0 := h ▸ byte_eq_getD (show 1 < 4 by decide)
  have hyear : binary header 0xA0 2 = ofLittleEndian ((dateBytes date).drop 2) :=
    h ▸ congrArg ofLittleEndian (field_eq_drop (k := 2))
  rw [binaryDate?, hday, hmonth, hyear]
  cases date with
  | none => rfl
  | some d =>
    obtain ⟨hvalid, hfirst, hlast⟩ := hdate d rfl
    have hd : (UInt8.ofNat d.day).toNat = d.day :=
      UInt8.toNat_ofNat_of_lt' (Nat.lt_of_le_of_lt hvalid.day_le (by decide))
    have hm : (UInt8.ofNat d.month).toNat = d.month :=
      UInt8.toNat_ofNat_of_lt' (Nat.lt_of_le_of_lt hvalid.month_le (by decide))
    have hy : ofLittleEndian (littleEndian 2 d.year) = d.year :=
      ofLittleEndian_littleEndian (Nat.lt_of_le_of_lt hlast (by decide))
    have hmake : Date.make? d.year d.month d.day = some d := Date.make?_eq_some.mpr ⟨rfl, hvalid⟩
    simp only [dateBytes, List.getD_cons_zero, List.getD_cons_succ, List.drop_succ_cons, List.drop_zero, hd, hm, hy]
    rw [if_neg (by omega), if_pos ⟨hfirst, hlast⟩, hmake, Option.map_some]

/-- A binary tag is read if its date, its flag and its emulator make sense; nothing else in it can fail to. -/
theorem ofBinary?_eq {mutesVoices : Bool} {emulator : Emulator} (hdate : binaryDate? header = some date)
    (hmutes : (byte header 0xD0).toNat = mutesVoices.toNat)
    (hemulator : Emulator.ofByte? (byte header 0xD1) = some emulator) : ofBinary? header = some
      { common header with
        dumpDate := date
        duration := 1000 * binary header 0xA9 3
        fade := binary header 0xAC 4
        artist := text header 0xB0 32
        mutesVoices
        emulator } := by
  rw [ofBinary?, hdate, hmutes, hemulator]
  cases mutesVoices <;> rfl

/-- A binary tag is read back. -/
theorem HoldsBinaryTag.ofHeader?_eq {seconds : Nat} (h : HoldsBinaryTag header tag seconds) :
    ofHeader? header = some tag := by
  have hread := ofBinary?_eq (binaryDate?_eq h.date_bytes h.date_exists) h.mutesVoices (Emulator.ofByte?_eq h.emulator)
  rw [h.common_eq, binary_eq_of_field h.seconds_bytes h.seconds_lt, binary_eq_of_field h.fade_bytes h.fade_lt,
    h.artist.text_eq, ← h.duration_eq] at hread
  rw [ofHeader?, hread]

/-! ## Text tags with a date -/

/-- The parts of a date in a text tag. -/
structure HoldsDate (header : List UInt8) (d : Date) : Prop where
  month : HoldsText header 0x9E 2 (Numeral.decimal 2 d.month)
  first_slash : byte header 0xA0 = 0x2F
  day : HoldsText header 0xA1 2 (Numeral.decimal 2 d.day)
  second_slash : byte header 0xA3 = 0x2F
  year : HoldsText header 0xA4 4 (Numeral.decimal 4 d.year)

theorem HoldsText.byte_eq_slash {offset length : Nat} {s : String}
    (h : HoldsText header offset (length + 1) ("/" ++ s)) : byte header offset = 0x2F := by
  have hbyte := h.byte_eq (Nat.zero_lt_succ length)
  rwa [Utf8.encode_append] at hbyte

theorem length_encode_month (h : d.Valid) : (Utf8.encode (Numeral.decimal 2 d.month)).length = 2 :=
  length_encode_decimal (by decide) (Nat.lt_of_le_of_lt h.month_le (by decide))

/-- The parts of a date are found one behind the other. -/
theorem HoldsText.holdsDate (h : HoldsText header 0x9E 11 (dateText (some d))) (hvalid : d.Valid)
    (hyear : d.year ≤ 9999) : HoldsDate header d := by
  have hmonth := length_encode_month hvalid
  have hday : (Utf8.encode (Numeral.decimal 2 d.day)).length = 2 :=
    length_encode_decimal (by decide) (Nat.lt_of_le_of_lt hvalid.day_le (by decide))
  have hyears : (Utf8.encode (Numeral.decimal 4 d.year)).length = 4 :=
    length_encode_decimal (by decide) (Nat.lt_of_le_of_lt hyear (by decide))
  have hslash : (Utf8.encode "/").length = 1 := by decide
  have first : HoldsText header 0xA0 9 _ := h.right hmonth
  have day : HoldsText header 0xA1 8 _ := first.right hslash
  have second : HoldsText header 0xA3 6 _ := day.right hday
  have year : HoldsText header 0xA4 5 _ := second.right hslash
  exact ⟨h.left hmonth, first.byte_eq_slash, day.left hday, second.byte_eq_slash,
    year.shorten (by decide) (Nat.le_of_eq hyears)⟩

theorem HoldsDate.textDate?_eq (h : HoldsDate header d) (hvalid : d.Valid) :
    textDate? header = some (some d) := by
  have hwritten : writtenDate header = (d.month, d.day, d.year) := by
    rw [writtenDate, h.month.numeral?_decimal (by decide), h.day.numeral?_decimal (by decide),
      h.year.numeral?_decimal (by decide), h.first_slash, h.second_slash]
    rfl
  have hmake : Date.make? d.year d.month d.day = some d := Date.make?_eq_some.mpr ⟨rfl, hvalid⟩
  rw [textDate?, hwritten]
  split
  next hzero =>
    have hday : d.day = 0 := congrArg (fun parts => parts.2.1) hzero
    exact absurd hvalid.1 (hday ▸ by decide)
  next heq =>
    cases heq
    rw [hmake, Option.map_some]

/-- A date that is written with digits is no binary date: a digit is no month. -/
theorem HoldsDate.binaryDate?_eq (h : HoldsDate header d) (hvalid : d.Valid) : binaryDate? header = none := by
  have hlen := length_encode_month hvalid
  have hdigit : 0x30 ≤ (byte header 0x9F).toNat := by
    have hbyte := h.month.byte_eq (show 1 < 2 by decide)
    rw [List.getD_eq_getElem?_getD, List.getElem?_eq_getElem (by omega), Option.getD_some] at hbyte
    rw [hbyte]
    exact le_of_mem_encode_digits (fun _ => Numeral.isDigit_of_mem_decimal) (List.getElem_mem _)
  have hmake : ∀ year day, Date.make? year (byte header 0x9F).toNat day = none := by
    intro year day
    cases hd : Date.make? year (byte header 0x9F).toNat day with
    | none => rfl
    | some d =>
      obtain ⟨rfl, hv⟩ := Date.make?_eq_some.mp hd
      exact absurd hv.month_le (by dsimp only; omega)
  rw [binaryDate?, if_neg (by omega), hmake]
  split <;> rfl

/-- A text tag with a date is read back. -/
theorem HoldsTextTag.ofHeader?_eq_of_date (h : HoldsTextTag header tag seconds fade) (hd : tag.dumpDate = some d) :
    ofHeader? header = some tag := by
  obtain ⟨hvalid, hyear⟩ := h.date_exists d hd
  have hdate := HoldsText.holdsDate (hd ▸ h.date_text) hvalid hyear
  have hbinary : ofBinary? header = none := by
    rw [ofBinary?, hdate.binaryDate?_eq hvalid]
    rfl
  rw [ofHeader?, hbinary, ofText?, hdate.textDate?_eq hvalid,
    h.seconds_text.numeral?_eq h.seconds_digits (by decide), h.fade_text.numeral?_eq h.fade_digits (by decide),
    h.toHoldsCommon.common_eq, h.artist.text_eq, h.mutesVoices.eq_flag, Emulator.ofByte?_eq h.emulator]
  simp [← h.duration_eq, ← h.fade_eq, ← hd]

/-! ## Text tags without a date -/

/-- What a text tag without a date is taken for: its digits for binary numbers, and the last of five digits of the fade
for the start of the artist. -/
def takenForBinary (tag : Tag) (seconds fade : String) : Tag :=
  { tag with
    duration := 1000 * ofLittleEndian (Utf8.encode seconds)
    fade := ofLittleEndian ((Utf8.encode fade).take 4)
    artist := if fade.toList.length = 5 then String.ofList (fade.toList.drop 4) ++ tag.artist else ""
    mutesVoices := false
    emulator := if tag.mutesVoices then .zsnes else .unknown }

namespace HoldsTextTag

/-- Where a text tag has no date, a binary tag has none either. -/
theorem binaryDate?_eq (h : HoldsTextTag header tag seconds fade) (hd : tag.dumpDate = none) :
    binaryDate? header = some none := by
  have hempty : HoldsText header 0x9E 11 (dateText none) := hd ▸ h.date_text
  have hzeros : field header 0x9E 4 = dateBytes none := by
    rw [field_eq_take (show 4 ≤ 11 by decide), hempty.field_eq]
    rfl
  exact Tag.binaryDate?_eq hzeros fun d hd => by cases hd

/-- The end of the artist is a clear flag for a binary tag. -/
theorem byte_flag_eq (h : HoldsTextTag header tag seconds fade) : byte header 0xD0 = 0 := by
  have hbyte := h.artist.byte_eq (show 31 < 32 by decide)
  rwa [List.getD_eq_getElem?_getD, List.getElem?_eq_none h.artist_short] at hbyte

theorem binary_seconds_eq (h : HoldsTextTag header tag seconds fade) :
    binary header 0xA9 3 = ofLittleEndian (Utf8.encode seconds) := by
  rw [binary, h.seconds_text.field_eq, ofLittleEndian_append_zeros]

theorem binary_fade_eq (h : HoldsTextTag header tag seconds fade) :
    binary header 0xAC 4 = ofLittleEndian ((Utf8.encode fade).take 4) := by
  rw [binary, field_eq_take (show 4 ≤ 5 by decide), h.fade_text.field_eq, List.take_append, List.take_replicate,
    ofLittleEndian_append_zeros]

theorem text_artist_eq (h : HoldsTextTag header tag seconds fade) : text header 0xB0 32 =
    if fade.toList.length = 5 then String.ofList (fade.toList.drop 4) ++ tag.artist else "" := by
  have hlen := length_encode_digits h.fade_digits
  split
  next hfive =>
    -- The fade fills its field, and its last digit stands where a binary tag has the first byte of the artist.
    have hsplit : String.ofList (fade.toList.take 4) ++ String.ofList (fade.toList.drop 4) = fade := by
      rw [← String.ofList_append, List.take_append_drop, String.ofList_toList]
    have hfirst : (Utf8.encode (String.ofList (fade.toList.take 4))).length = 4 := by
      rw [length_encode_digits fun c hc => h.fade_digits c (List.mem_of_mem_take (by simpa using hc))]
      simp [hfive]
    have hlast : (Utf8.encode (String.ofList (fade.toList.drop 4))).length = 1 := by
      rw [length_encode_digits fun c hc => h.fade_digits c (List.mem_of_mem_drop (by simpa using hc))]
      simp [hfive]
    have hdigit : HoldsText header 0xB0 1 (String.ofList (fade.toList.drop 4)) :=
      HoldsText.right (k := 4) (hsplit.symm ▸ h.fade_text) hfirst
    have hartist : HoldsText header 0xB1 31 tag.artist := h.artist.shorten (by decide) h.artist_short
    exact (hdigit.append hartist hlast).text_eq
  next hfive =>
    have hle := h.fade_text.length_le
    have hbyte := h.fade_text.byte_eq (show 4 < 5 by decide)
    rw [List.getD_eq_getElem?_getD, List.getElem?_eq_none (by omega)] at hbyte
    exact text_eq_empty hbyte

/-- A text tag without a date is read as a binary tag. -/
theorem ofHeader?_eq_of_no_date (h : HoldsTextTag header tag seconds fade) (hd : tag.dumpDate = none) :
    ofHeader? header = some (tag.takenForBinary seconds fade) := by
  have hmutes : (byte header 0xD0).toNat = Bool.toNat false := by
    rw [h.byte_flag_eq]
    rfl
  have hemulator : StandsFor (byte header 0xD1) (if tag.mutesVoices then Emulator.zsnes else .unknown).number := by
    have hflag := h.mutesVoices
    cases hm : tag.mutesVoices <;> rw [hm] at hflag <;> exact hflag
  have hread := ofBinary?_eq (h.binaryDate?_eq hd) hmutes (Emulator.ofByte?_eq hemulator)
  rw [h.toHoldsCommon.common_eq, h.binary_seconds_eq, h.binary_fade_eq, h.text_artist_eq, ← hd] at hread
  rw [ofHeader?, hread]
  rfl

/-- Digits are never read as the number that they stand for, so that the tag comes out right only if there is nothing
in it but what both layouts share. -/
theorem takenForBinary_eq_iff (h : HoldsTextTag header tag seconds fade) : tag.takenForBinary seconds fade = tag ↔
    seconds = "" ∧ fade = "" ∧ tag.artist = "" ∧ tag.mutesVoices = false ∧ tag.emulator = .unknown := by
  constructor
  · intro heq
    have hseconds_length := length_encode_digits h.seconds_digits ▸ h.seconds_text.length_le
    have hfade_length := length_encode_digits h.fade_digits ▸ h.fade_text.length_le
    have hseconds : seconds = "" := by
      have hduration : 1000 * ofLittleEndian (Utf8.encode seconds) = tag.duration := congrArg Tag.duration heq
      refine eq_empty_of_ofLittleEndian_eq (k := 3) h.seconds_digits (by omega) ?_
      rw [List.take_of_length_le h.seconds_text.length_le]
      exact Nat.eq_of_mul_eq_mul_left (by decide) (hduration.trans h.duration_eq)
    have hfade : fade = "" :=
      eq_empty_of_ofLittleEndian_eq (k := 4) h.fade_digits (by omega) ((congrArg Tag.fade heq).trans h.fade_eq)
    have hartist := congrArg Tag.artist heq
    have hmutes : false = tag.mutesVoices := congrArg Tag.mutesVoices heq
    have hemulator := congrArg Tag.emulator heq
    subst hfade
    simp only [takenForBinary, ← hmutes] at hartist hemulator
    exact ⟨hseconds, rfl, hartist.symm, hmutes.symm, hemulator.symm⟩
  · rintro ⟨rfl, rfl, hartist, hmutes, hemulator⟩
    have hduration := h.duration_eq
    have hfade := h.fade_eq
    cases tag
    simp_all [takenForBinary, Utf8.encode]

end HoldsTextTag

end Tag

/-! ## Files with a header and nothing else -/

namespace SpcFile

/-- The shortest file with a header, and zeros behind it. -/
def ofHeader (header : List UInt8) : ByteArray := ⟨(header ++ List.replicate 0x10080 0).toArray⟩

/-- A header that declares a tag and has these bytes for it. -/
def taggedHeader (tag : List UInt8) : List UInt8 :=
  (layout.identification ++ (List.replicate 8 0 ++ tagMarker :: List.replicate 10 0 ++ tag)).rightpad 256 0

/-- A file with a tagged header is complete and declares its tag. -/
theorem declares_ofHeader (tag : List UInt8) (h : tag.length ≤ 210) :
    Format.Complete .spc (ofHeader (taggedHeader tag)) ∧
      (ofHeader (taggedHeader tag))[0x23]? = some tagMarker ∧
      (ofHeader (taggedHeader tag)).data.toList.take 256 = taggedHeader tag := by
  have hlist : (ofHeader (taggedHeader tag)).data.toList = taggedHeader tag ++ List.replicate 0x10080 0 :=
    List.toList_toArray
  have hlen : (taggedHeader tag).length = 256 := by
    simp [taggedHeader, length_identification]
    omega
  refine ⟨⟨?_, ?_⟩, ?_, ?_⟩
  · rw [Format.Begins, hlist]
    exact (List.prefix_append ..).trans ((List.prefix_append ..).trans (List.prefix_append ..))
  · have hsize : (ofHeader (taggedHeader tag)).size = 256 + 0x10080 := by
      rw [← hlen, ← List.length_replicate (n := 0x10080) (a := (0 : UInt8)), ← List.length_append, ← hlist]
      rfl
    rw [hsize]
    exact Nat.le_refl _
  · rw [← getElem?_toList, hlist, List.getElem?_append_left (by omega), taggedHeader, List.rightpad,
      List.append_assoc, List.getElem?_append_right (by rw [length_identification]; decide), length_identification]
    rfl
  · rw [hlist, List.take_left' hlen]

/-- A tag with a date and everything that a tag may hold. -/
def datedTag : Tag where
  title := "Title"
  game := "Game"
  artist := "Artist"
  dumper := "Dumper"
  comments := "Comments"
  dumpDate := some ⟨1999, 6, 21⟩
  duration := 120000
  fade := 5000
  mutesVoices := true
  emulator := .snes9x

/-- The first half of `datedTag`. -/
def datedCommon : List UInt8 :=
  (Utf8.encode "Title").rightpad 32 0 ++ (Utf8.encode "Game").rightpad 32 0 ++ (Utf8.encode "Dumper").rightpad 16 0 ++
    (Utf8.encode "Comments").rightpad 32 0

/-- `datedTag` in the binary layout. -/
def datedBytes : List UInt8 :=
  datedCommon ++ [21, 6, 0xCF, 0x07] ++ List.replicate 7 0xFF ++ [120, 0, 0] ++ [0x88, 0x13, 0, 0] ++
    (Utf8.encode "Artist").rightpad 32 0 ++ [1, 2]

/-- `datedTag` in the text layout. -/
def datedText : List UInt8 :=
  datedCommon ++ (Utf8.encode "06/21/1999").rightpad 11 0 ++ Utf8.encode "120" ++ (Utf8.encode "5000").rightpad 5 0 ++
    (Utf8.encode "Artist").rightpad 32 0 ++ Utf8.encode "12"

/-- A tag with two minutes to play and nothing else. -/
def undatedTag : Tag where
  duration := 120000

/-- `undatedTag` in the text layout. -/
def undatedText : List UInt8 := List.replicate 123 0 ++ Utf8.encode "120"

/-! ## Files -/

variable {bytes : ByteArray} {tag : Tag}

/-- The tag of a file that declares one is the tag in its header. -/
theorem exists_parse_tag (hcomplete : Format.Complete .spc bytes) (hmarker : bytes[0x23]? = some tagMarker) :
    ∃ f, parse bytes = .ok f ∧ f.tag = Tag.ofHeader? (bytes.data.toList.take 256) := by
  have haccepts : layout.Accepts bytes := (Format.accepts_iff .spc).mpr hcomplete
  have hsize : 0x10180 ≤ bytes.size := haccepts.required_le
  have hbyte : bytes[0x23] = tagMarker := by rwa [getElem?_pos bytes 0x23 (by omega), Option.some_inj] at hmarker
  refine ⟨read bytes haccepts.required_le, Layout.parse_eq_ok haccepts _, ?_⟩
  simp only [read, Layout.getElem_block, Layout.toList_block, List.drop_zero]
  exact if_pos hbyte

/-- **A binary tag is read back**, whatever numbers and texts it holds. -/
theorem parse_binaryTag {seconds : Nat} (hcomplete : Format.Complete .spc bytes)
    (hmarker : bytes[0x23]? = some tagMarker) (h : Tag.HoldsBinaryTag (bytes.data.toList.take 256) tag seconds) :
    ∃ f, parse bytes = .ok f ∧ f.tag = some tag := by
  obtain ⟨f, hparse, htag⟩ := exists_parse_tag hcomplete hmarker
  exact ⟨f, hparse, htag.trans h.ofHeader?_eq⟩

theorem parse_binaryTag_dated :
    ∃ f, parse (ofHeader (taggedHeader datedBytes)) = .ok f ∧ f.tag = some datedTag := by
  obtain ⟨hcomplete, hmarker, hheader⟩ := declares_ofHeader datedBytes (by decide +kernel)
  have hholds : Tag.HoldsBinaryTag (taggedHeader datedBytes) datedTag 120 := by decide +kernel
  exact parse_binaryTag hcomplete hmarker (hheader ▸ hholds)

/-- **A text tag with a date is read back; one without is taken for a binary tag.** The latter comes out as it was
written only if neither times nor an artist are given, no voices are to be muted and the emulator is unknown. -/
theorem parse_textTag {seconds fade : String} (hcomplete : Format.Complete .spc bytes)
    (hmarker : bytes[0x23]? = some tagMarker) (h : Tag.HoldsTextTag (bytes.data.toList.take 256) tag seconds fade) :
    ∃ f, parse bytes = .ok f ∧
      f.tag = some (if tag.dumpDate.isSome then tag else tag.takenForBinary seconds fade) ∧
      (f.tag = some tag ↔ tag.dumpDate.isSome ∨
        seconds = "" ∧ fade = "" ∧ tag.artist = "" ∧ tag.mutesVoices = false ∧ tag.emulator = .unknown) := by
  obtain ⟨f, hparse, htag⟩ := exists_parse_tag hcomplete hmarker
  refine ⟨f, hparse, ?_⟩
  cases hd : tag.dumpDate with
  | some d =>
    rw [h.ofHeader?_eq_of_date hd] at htag
    simp [htag]
  | none =>
    rw [h.ofHeader?_eq_of_no_date hd] at htag
    simp [htag, h.takenForBinary_eq_iff]

theorem parse_textTag_dated :
    ∃ f, parse (ofHeader (taggedHeader datedText)) = .ok f ∧ f.tag = some datedTag := by
  obtain ⟨hcomplete, hmarker, hheader⟩ := declares_ofHeader datedText (by decide +kernel)
  have hholds : Tag.HoldsTextTag (taggedHeader datedText) datedTag "120" "5000" := by decide +kernel
  obtain ⟨f, hparse, htag, -⟩ := parse_textTag hcomplete hmarker (hheader ▸ hholds)
  exact ⟨f, hparse, htag⟩

/-- Not every text tag is read back: without a date, the digits `120` are read as `0x303231` seconds. -/
theorem parse_textTag_undated :
    let bytes := ofHeader (taggedHeader undatedText)
    Format.Complete .spc bytes ∧ bytes[0x23]? = some tagMarker ∧
      Tag.HoldsTextTag (bytes.data.toList.take 256) undatedTag "120" "" ∧
      ∃ f, parse bytes = .ok f ∧ f.tag ≠ some undatedTag ∧
        f.tag = some { undatedTag with duration := 1000 * 0x303231 } := by
  intro bytes
  obtain ⟨hcomplete, hmarker, hheader⟩ := declares_ofHeader undatedText (by decide +kernel)
  have hholds : Tag.HoldsTextTag (taggedHeader undatedText) undatedTag "120" "" := by decide +kernel
  obtain ⟨f, hparse, htag⟩ := exists_parse_tag hcomplete hmarker
  rw [hheader, hholds.ofHeader?_eq_of_no_date rfl] at htag
  refine ⟨hcomplete, hmarker, hheader ▸ hholds, f, hparse, ?_, ?_⟩
  · rw [htag]
    decide +kernel
  · rw [htag]
    decide +kernel

end SpcFile

end SnesSound
