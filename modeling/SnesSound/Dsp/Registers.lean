import SnesSound.Dsp.Rate
import SnesSound.Index
import SnesSound.Stereo
import SnesSound.Word

/-!
# Registers of the sound unit

The register file has 128 bytes. Each voice owns the registers `x0` to `x9` of its row, the global registers lie in
the columns `C` and `D`, and the echo filter coefficients in column `F`; the rest is unused but keeps what is written
to it.

Main statements: a register holds what was last stored there and every other one keeps its value (`get_store_self`,
`get_store_of_ne`).
-/

namespace SnesSound

/-! ## Addresses -/

namespace Register

/-- Main volume, left. -/
def mvolL : Fin 128 := 0x0C

/-- Main volume, right. -/
def mvolR : Fin 128 := 0x1C

/-- Echo volume, left. -/
def evolL : Fin 128 := 0x2C

/-- Echo volume, right. -/
def evolR : Fin 128 := 0x3C

/-- Key on, one bit per voice. -/
def kon : Fin 128 := 0x4C

/-- Key off, one bit per voice. -/
def koff : Fin 128 := 0x5C

/-- Noise rate (bits 0 to 4), echo write disable (5), mute (6) and soft reset (7). -/
def flg : Fin 128 := 0x6C

/-- Voices that have passed the end of their sample. -/
def endx : Fin 128 := 0x7C

/-- Echo feedback volume. -/
def efb : Fin 128 := 0x0D

/-- Pitch modulation, one bit per voice. -/
def pmon : Fin 128 := 0x2D

/-- Noise, one bit per voice. -/
def non : Fin 128 := 0x3D

/-- Echo, one bit per voice. -/
def eon : Fin 128 := 0x4D

/-- Page of the sample directory. -/
def dir : Fin 128 := 0x5D

/-- Page at which the echo buffer starts. -/
def esa : Fin 128 := 0x6D

/-- Length of the echo buffer, in units of 2048 bytes. -/
def edl : Fin 128 := 0x7D

/-- Register `column` in the row of a voice. -/
def ofVoice (voice : Fin 8) (column : Fin 16) : Fin 128 := ⟨16 * voice + column, by omega⟩

end Register

/-! ## The register file -/

/-- The register file of the sound unit. -/
structure Registers where
  bank : Vector UInt8 128
  deriving DecidableEq

namespace Registers

/-- All registers zero. -/
def zero : Registers := ⟨Vector.replicate 128 0⟩

instance : Inhabited Registers := ⟨zero⟩

/-- The value of a register. -/
def get (r : Registers) (address : Fin 128) : UInt8 := r.bank.get address

/-- Changes a register without side effects. -/
def store (r : Registers) (address : Fin 128) (value : UInt8) : Registers :=
  ⟨r.bank.set address value address.isLt⟩

/-- The register that an 8-bit address selects; the upper half of the addresses repeats the lower one. -/
def ofByte (address : UInt8) : Fin 128 := Fin.ofNat 128 address.toNat

/-- Reads a register as the CPU does. -/
def read (r : Registers) (address : UInt8) : UInt8 := r.get (ofByte address)

/-- Writes a register as the CPU does: the upper half of the addresses is read-only, and ENDX is cleared by any write.
-/
def write (r : Registers) (address value : UInt8) : Registers :=
  if 0x80 ≤ address then r
  else if ofByte address = Register.endx then r.store Register.endx 0
  else r.store (ofByte address) value

@[simp] theorem get_store_self (r : Registers) (address : Fin 128) (value : UInt8) :
    (r.store address value).get address = value := by
  simp [get, store, get_eq_getElem]

theorem get_store_of_ne (r : Registers) {address other : Fin 128} (value : UInt8) (h : address ≠ other) :
    (r.store address value).get other = r.get other := by
  have hne : address.val ≠ other.val := fun e => h (Fin.ext e)
  simp [get, store, get_eq_getElem, hne]

theorem ext_get {r r' : Registers} (h : ∀ a, r.get a = r'.get a) : r = r' := by
  obtain ⟨bank⟩ := r
  obtain ⟨bank'⟩ := r'
  congr 1
  apply Vector.ext
  intro i hi
  exact h ⟨i, hi⟩

/-! ## What the registers mean

Volumes and coefficients are signed. -/

/-- The register `column` of a voice. -/
def ofVoice (r : Registers) (voice : Fin 8) (column : Fin 16) : UInt8 := r.get (Register.ofVoice voice column)

/-- Volume of a voice. -/
def volume (r : Registers) (voice : Fin 8) : Stereo Int := ⟨signed8 (r.ofVoice voice 0), signed8 (r.ofVoice voice 1)⟩

/-- The 14-bit pitch of a voice; 4096 plays a sample at the output rate. -/
def pitch (r : Registers) (voice : Fin 8) : Nat :=
  (r.ofVoice voice 2).toNat + (r.ofVoice voice 3).toNat % 64 * 256

/-- First ADSR register of a voice. -/
def adsr1 (r : Registers) (voice : Fin 8) : UInt8 := r.ofVoice voice 5

/-- Second ADSR register of a voice. -/
def adsr2 (r : Registers) (voice : Fin 8) : UInt8 := r.ofVoice voice 6

/-- GAIN register of a voice. -/
def gain (r : Registers) (voice : Fin 8) : UInt8 := r.ofVoice voice 7

/-- Shows the state of a voice in its ENVX and OUTX registers. -/
def showVoice (r : Registers) (voice : Fin 8) (envx outx : UInt8) : Registers :=
  (r.store (Register.ofVoice voice 8) envx).store (Register.ofVoice voice 9) outx

/-- Main volume. -/
def mainVolume (r : Registers) : Stereo Int := ⟨signed8 (r.get Register.mvolL), signed8 (r.get Register.mvolR)⟩

/-- Echo volume. -/
def echoVolume (r : Registers) : Stereo Int := ⟨signed8 (r.get Register.evolL), signed8 (r.get Register.evolR)⟩

/-- Volume with which the filtered echo is fed back. -/
def feedback (r : Registers) : Int := signed8 (r.get Register.efb)

/-- Coefficient of a filter tap; tap 0 belongs to the oldest sample. -/
def coefficient (r : Registers) (tap : Fin 8) : Int := signed8 (r.ofVoice tap 15)

/-- What the noise generator takes from its rate counter. -/
def noiseAmount (r : Registers) : Int := Rate.amount (r.get Register.flg).toNat

/-- Whether the echo buffer is kept as it is. -/
def echoReadOnly (r : Registers) : Bool := bit (r.get Register.flg) 5

/-- Whether the output is muted. -/
def muted (r : Registers) : Bool := bit (r.get Register.flg) 6

/-- Whether all voices are to be silenced. -/
def softReset (r : Registers) : Bool := bit (r.get Register.flg) 7

/-- Address of the sample directory. -/
def directory (r : Registers) : UInt16 := word 0 (r.get Register.dir)

/-- Address of a voice's entry in the sample directory: the start address, then the loop address. -/
def directoryEntry (r : Registers) (voice : Fin 8) : UInt16 :=
  r.directory + 4 * (r.ofVoice voice 4).toUInt16

/-- Address of the echo buffer. -/
def echoStart (r : Registers) : UInt16 := word 0 (r.get Register.esa)

/-- Length of the echo buffer in bytes; it holds at least one sample. -/
def echoLength (r : Registers) : Nat :=
  if (r.get Register.edl).toNat % 16 = 0 then 4 else (r.get Register.edl).toNat % 16 * 2048

end Registers

end SnesSound
