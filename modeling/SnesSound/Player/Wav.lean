import SnesSound.Session

/-!
# WAV files

The file that audio is written to: a header of 44 bytes, which tells the form of the samples and how many bytes of
them there are, and then the samples as they come.

Main statement: the header has its length whatever it tells (`length_header`), so the samples begin at byte 44
(`size_encode`).
-/

namespace SnesSound.Player.Wav

/-- Channels of a file. -/
def channels : Nat := 2

/-- Bits of a sample. -/
def sampleBits : Nat := 16

/-- The name of a part of a file. -/
def name (a b c d : Char) : List UInt8 := [a, b, c, d].map fun ch => UInt8.ofNat ch.toNat

/-- What tells the form of the samples: integers, without compression. -/
def form : List UInt8 :=
  littleEndian 2 1 ++ littleEndian 2 channels ++ littleEndian 4 frameRate ++
    littleEndian 4 (frameRate * bytesPerFrame) ++ littleEndian 2 bytesPerFrame ++ littleEndian 2 sampleBits

/-- The header of a file with `length` bytes of samples. -/
def header (length : Nat) : List UInt8 :=
  name 'R' 'I' 'F' 'F' ++ littleEndian 4 (length + 36) ++ name 'W' 'A' 'V' 'E' ++
    name 'f' 'm' 't' ' ' ++ littleEndian 4 16 ++ form ++ name 'd' 'a' 't' 'a' ++ littleEndian 4 length

/-- Bytes of the header. -/
def headerBytes : Nat := 44

@[simp] theorem length_header (length : Nat) : (header length).length = headerBytes := by
  simp [header, form, name, headerBytes]

/-- The file with these samples. -/
def encode (audio : ByteArray) : ByteArray := (header audio.size).toByteArray ++ audio

theorem size_encode (audio : ByteArray) : (encode audio).size = headerBytes + audio.size := by
  simp [encode]

end SnesSound.Player.Wav
