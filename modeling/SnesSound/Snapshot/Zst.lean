import SnesSound.Cpu.State
import SnesSound.Dsp.Registers
import SnesSound.Snapshot.Layout

/-!
# ZSNES save states

A save state is a dump of the emulator's own memory, so that everything lies at a fixed offset. The registers of the
CPU have slots of four bytes each. The emulator keeps the flags Z and N apart from the others, as the last result they
were set from, and notes for every voice whether it plays.
-/

namespace SnesSound

/-- What a save state holds of the sound subsystem. -/
structure ZstFile where
  cpu : CpuRegisters
  memory : Memory
  registers : Registers
  /-- Whether each voice plays. -/
  voiceOn : Vector Bool 8

namespace ZstFile

/-- How save states begin and how long they are. -/
def layout : Layout where
  format := .zst
  identification := "ZSNES Save State File".toUTF8.toList
  required := 266879

/-- Offset of audio RAM. -/
def memoryOffset : Nat := 199699

/-- Offset of the slots of the CPU registers: PC, A, X, Y, PSW, the last result, SP. -/
def slotOffset : Nat := memoryOffset + 65536 + 16

/-- Offset of the notes about the voices. -/
def voiceOffset : Nat := slotOffset + 7 * 4 + 420

/-- Offset of the registers of the sound unit. -/
def registerOffset : Nat := voiceOffset + 8 + 916

/-- The flags, with Z and N taken from the last result: Z if all of its bytes are zero, N from the top bit of the
first. -/
def flags (psw : UInt8) (result : Vector UInt8 4) : UInt8 :=
  { Status.ofByte psw with zero := result.all (· == 0), negative := bit result[0] 7 }.toByte

/-- Reads a complete save state. -/
def read (bytes : ByteArray) (h : layout.required ≤ bytes.size) : ZstFile :=
  have size_ge : 266879 ≤ bytes.size := h
  let slots := Layout.block bytes slotOffset 28 (by unfold slotOffset memoryOffset; omega)
  { cpu := {
      pc := word slots[0] slots[1]
      a := slots[4]
      x := slots[8]
      y := slots[12]
      psw := flags slots[16] #v[slots[20], slots[21], slots[22], slots[23]]
      sp := slots[24] }
    memory := ⟨Layout.block bytes memoryOffset 65536 (by unfold memoryOffset; omega)⟩
    registers :=
      ⟨Layout.block bytes registerOffset 128 (by unfold registerOffset voiceOffset slotOffset memoryOffset; omega)⟩
    voiceOn := (Layout.block bytes voiceOffset 8 (by unfold voiceOffset slotOffset memoryOffset; omega)).map (· != 0) }

/-- Reads a save state. -/
def parse (bytes : ByteArray) : Except LayoutError ZstFile := layout.parse bytes (read bytes)

/-- The voices that play, one bit each. -/
def voiceMask (z : ZstFile) : UInt8 :=
  Fin.foldl 8 (fun mask i => if z.voiceOn.get i then mask ||| bitMask i else mask) 0

end ZstFile

end SnesSound
