/-!
# Text from bytes

Texts in snapshots are meant to be UTF-8, but nothing makes sure that they are. What is no UTF-8 is replaced: every
longest piece that could begin a character but does not, or else every single byte that cannot, becomes one
replacement character.

Main statement: what was written as UTF-8 is read back (`decode_encode`).
-/

namespace SnesSound.Utf8

/-- Stands for bytes that are no text. -/
def replacement : Char := '\uFFFD'

/-- Whether a byte can stand behind the first byte of a character. -/
def isContinuation (b : UInt8) : Bool := 0x80 ≤ b && b ≤ 0xBF

/-- Whether a byte can come second in a character of three or four bytes. -/
def fits (first second : UInt8) : Bool :=
  if first = 0xE0 then 0xA0 ≤ second && second ≤ 0xBF
  else if first = 0xED then 0x80 ≤ second && second ≤ 0x9F
  else if first = 0xF0 then 0x90 ≤ second && second ≤ 0xBF
  else if first = 0xF4 then 0x80 ≤ second && second ≤ 0x8F
  else 0xE0 ≤ first && first ≤ 0xF4 && isContinuation second

/-- How many bytes behind `first` are replaced together with it, if no character begins there. -/
def broken (first : UInt8) : List UInt8 → Nat
  | second :: third :: _ => if fits first second then (if 0xF0 ≤ first && isContinuation third then 2 else 1) else 0
  | [second] => if fits first second then 1 else 0
  | [] => 0

/-- The characters of a text. -/
def decodeChars : List UInt8 → List Char
  | [] => []
  | b :: rest =>
    match ByteArray.utf8DecodeChar? (b :: rest).toByteArray 0 with
    | some c => c :: decodeChars (rest.drop (c.utf8Size - 1))
    | none => replacement :: decodeChars (rest.drop (broken b rest))
termination_by bytes => bytes.length
decreasing_by all_goals simp only [List.length_drop, List.length_cons]; omega

/-- The text that bytes stand for. -/
def decode (bytes : List UInt8) : String := String.ofList (decodeChars bytes)

/-- The bytes of a text. -/
def encode (s : String) : List UInt8 := s.toList.flatMap String.utf8EncodeChar

theorem decodeChars_append (c : Char) (bytes : List UInt8) :
    decodeChars (String.utf8EncodeChar c ++ bytes) = c :: decodeChars bytes := by
  have hlen := String.length_utf8EncodeChar c
  have hpos := c.utf8Size_pos
  match he : String.utf8EncodeChar c with
  | [] => simp [he] at hlen; omega
  | b :: rest =>
    have hd : ByteArray.utf8DecodeChar? (b :: (rest ++ bytes)).toByteArray 0 = some c := by
      rw [← List.cons_append, ← he, List.toByteArray_append]
      exact ByteArray.utf8DecodeChar?_utf8EncodeChar_append
    rw [he, List.length_cons] at hlen
    rw [List.cons_append, decodeChars, hd]
    simp [show c.utf8Size - 1 = rest.length by omega]

theorem encode_append (s t : String) : encode (s ++ t) = encode s ++ encode t := by
  simp [encode]

theorem encodeChar_of_ascii {c : Char} (h : c.toNat < 128) : String.utf8EncodeChar c = [UInt8.ofNat c.toNat] := by
  have hsize : c.utf8Size = 1 := Char.utf8Size_eq_one_iff.mpr (UInt32.le_iff_toNat_le.mpr (Nat.le_of_lt_succ h))
  rw [String.utf8EncodeChar_eq_singleton hsize]
  rfl

/-- A text of characters below 128 has one byte for each. -/
theorem encode_of_ascii {s : String} (h : ∀ c ∈ s.toList, c.toNat < 128) :
    encode s = s.toList.map fun c => UInt8.ofNat c.toNat := by
  rw [encode, List.map_eq_flatMap, List.flatMap_def, List.flatMap_def]
  exact congrArg List.flatten (List.map_congr_left fun c hc => encodeChar_of_ascii (h c hc))

theorem decodeChars_encode (s : String) : decodeChars (encode s) = s.toList := by
  have h : ∀ cs : List Char, decodeChars (cs.flatMap String.utf8EncodeChar) = cs := by
    intro cs
    induction cs with
    | nil => simp [decodeChars]
    | cons c cs ih => rw [List.flatMap_cons, decodeChars_append, ih]
  exact h s.toList

/-- What was written as UTF-8 is read back. -/
theorem decode_encode (s : String) : decode (encode s) = s := by
  rw [decode, decodeChars_encode, String.ofList_toList]

end SnesSound.Utf8
