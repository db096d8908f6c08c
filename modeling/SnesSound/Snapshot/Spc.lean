import SnesSound.Cpu.State
import SnesSound.Dsp.Registers
import SnesSound.Snapshot.Layout
import SnesSound.Snapshot.Tag

/-!
# SPC files

An SPC file holds the registers of the CPU, all of audio RAM and the registers of the sound unit. It may hold a tag,
and the bytes that lie in RAM behind the boot ROM.
-/

namespace SnesSound

/-- The contents of an SPC file. -/
structure SpcFile where
  /-- Minor version of the format. -/
  version : UInt8
  cpu : CpuRegisters
  tag : Option Tag
  memory : Memory
  registers : Registers
  /-- RAM behind the boot ROM, if the file holds it. -/
  extra : Option (Vector UInt8 64)

namespace SpcFile

/-- How SPC files begin and how long they are. -/
def layout : Layout where
  format := .spc
  identification := "SNES-SPC700 Sound File Data".toUTF8.toList
  required := 0x10180

/-- The byte that declares a tag. -/
def tagMarker : UInt8 := 26

/-- Reads a complete file. -/
def read (bytes : ByteArray) (h : layout.required ≤ bytes.size) : SpcFile :=
  have size_ge : 0x10180 ≤ bytes.size := h
  let header := Layout.block bytes 0 256 (by omega)
  { version := header[0x24]
    cpu := {
      pc := word header[0x25] header[0x26]
      a := header[0x27]
      x := header[0x28]
      y := header[0x29]
      psw := header[0x2A]
      sp := header[0x2B] }
    tag := if header[0x23] = tagMarker then Tag.ofHeader? header.toList else none
    memory := ⟨Layout.block bytes 0x100 65536 (by omega)⟩
    registers := ⟨Layout.block bytes 0x10100 128 (by omega)⟩
    extra := if hx : 0x101C0 + 64 ≤ bytes.size then some (Layout.block bytes 0x101C0 64 hx) else none }

/-- Reads a file. -/
def parse (bytes : ByteArray) : Except LayoutError SpcFile := layout.parse bytes (read bytes)

end SpcFile

end SnesSound
