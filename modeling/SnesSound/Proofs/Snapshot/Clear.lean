import SnesSound.Proofs.Dsp.Delay
import SnesSound.Proofs.Session.Reach
import SnesSound.Proofs.Snapshot.Encode

/-!
# What loading clears

Loading zeroes a region of RAM for the echo buffer. The region starts where the delay line of the echo unit does, but
its length is worked out from the whole EDL register, while the echo unit goes by the four lower bits and always keeps
room for a frame. So the two regions do not always end at the same address.

Main statements: RAM after loading is that of the image outside of the cleared region, and zero in it
(`load_clears`); the cleared region is the delay line exactly if EDL is not a multiple of 16 and either has no upper
bits or the delay line reaches the end of RAM (`clears_buffer_iff`); where it is not, loading may erase more than the
delay line (`load_clears_past_buffer`).
-/

namespace SnesSound

/-! ## Images -/

/-- Where an image of a format holds RAM. -/
def Format.memoryOffset : Format → Nat
  | .spc => 0x100
  | .zst => ZstFile.memoryOffset

/-- The RAM of an image. -/
def Format.memory (format : Format) (bytes : ByteArray) : Memory :=
  ⟨Vector.ofFn fun i : Fin 65536 => bytes[format.memoryOffset + i.val]?.getD 0⟩

namespace Snapshot

theorem ofFn_eq_block {bytes : ByteArray} {offset length : Nat} (h : offset + length ≤ bytes.size) :
    Vector.ofFn (fun i : Fin length => bytes[offset + i.val]?.getD 0) = Layout.block bytes offset length h := by
  apply Vector.ext
  intro i hi
  rw [Vector.getElem_ofFn, Layout.getElem_block, getElem?_pos bytes (offset + i) (by omega)]
  rfl

/-- A snapshot holds the RAM of its image. -/
theorem memory_of_parse? {bytes : ByteArray} {snapshot : Snapshot} (h : parse? bytes = some snapshot) :
    snapshot.memory = snapshot.format.memory bytes := by
  unfold parse? at h
  split at h
  next hspc =>
    obtain rfl := Option.some.inj h
    have hsize : 0x10180 ≤ bytes.size := hspc.required_le
    have hram : 0x100 + 65536 ≤ bytes.size := by omega
    exact congrArg Memory.mk (ofFn_eq_block hram).symm
  next =>
    split at h
    next hzst =>
      obtain rfl := Option.some.inj h
      have hsize : 266879 ≤ bytes.size := hzst.required_le
      exact congrArg Memory.mk (ofFn_eq_block (by unfold ZstFile.memoryOffset; omega)).symm
    next => exact absurd h (by simp)

/-! ## Regions -/

/-- Whether an address lies in the region that loading zeroes. -/
def Cleared (r : Registers) (a : UInt16) : Prop := echoStart r ≤ a.toNat ∧ a.toNat < echoStart r + echoLength r

/-- Whether an address lies in the delay line, as far as it does not run around the end of the address space. -/
def Buffered (r : Registers) (a : UInt16) : Prop :=
  r.echoStart.toNat ≤ a.toNat ∧ a.toNat < min (r.echoStart.toNat + r.echoLength) 65536

instance (r : Registers) (a : UInt16) : Decidable (Cleared r a) := inferInstanceAs (Decidable (_ ∧ _))

instance (r : Registers) (a : UInt16) : Decidable (Buffered r a) := inferInstanceAs (Decidable (_ ∧ _))

/-- Both regions start at the same page. -/
theorem toNat_echoStart (r : Registers) : r.echoStart.toNat = echoStart r := by
  rw [Registers.echoStart, toNat_word, echoStart, Nat.mul_comm]
  exact Nat.zero_add _

/-- The regions are the same exactly if EDL is not a multiple of 16 and either has no upper bits or the delay line
reaches the end of RAM. -/
theorem clears_buffer_iff (r : Registers) : (∀ a, Cleared r a ↔ Buffered r a) ↔
    (r.get Register.edl).toNat % 16 ≠ 0 ∧
      ((r.get Register.edl).toNat < 16 ∨
        65536 ≤ (r.get Register.esa).toNat * 256 + (r.get Register.edl).toNat % 16 * 2048) := by
  have hesa := (r.get Register.esa).toNat_lt
  simp only [Cleared, Buffered, toNat_echoStart, echoStart, echoLength, Registers.echoLength]
  generalize (r.get Register.esa).toNat = esa at *
  generalize (r.get Register.edl).toNat = edl at *
  constructor
  · intro h
    -- Each way to fail has an address that lies in one of the regions only.
    have hat (n : Nat) (hn : n < 65536) := h (UInt16.ofNatLT n hn)
    simp only [UInt16.toNat_ofNatLT] at hat
    have h0 : edl % 16 ≠ 0 := by
      intro h0
      have hfirst := hat (esa * 256) (by omega)
      have hbehind := hat (esa * 256 + 4) (by omega)
      rw [if_pos h0] at hfirst hbehind
      omega
    refine ⟨h0, ?_⟩
    apply Decidable.byContradiction
    intro hlong
    have hbehind := hat (esa * 256 + edl % 16 * 2048) (by omega)
    rw [if_neg h0] at hbehind
    omega
  · rintro ⟨h0, h⟩ a
    have ha := a.toNat_lt
    rw [if_neg h0]
    omega

end Snapshot

/-! ## Loading -/

namespace Session

/-- Loading zeroes the cleared region if it is asked to, and leaves the rest of RAM as it is in the image. The cleared
region is the delay line that the echo unit uses exactly if EDL is not a multiple of 16 and either has no upper bits or
the delay line reaches the end of RAM. -/
theorem load_clears {s t : Session} {bytes : ByteArray} (h : s.load bytes = .ok t) :
    ∃ format, t.format = some format ∧
      (s.options.clearEcho = false → t.machine.memory = format.memory bytes) ∧
      (s.options.clearEcho = true → ∀ a, t.machine.memory.get a =
        if Snapshot.Cleared t.machine.registers a then 0 else (format.memory bytes).get a) ∧
      ((∀ a, Snapshot.Cleared t.machine.registers a ↔ Snapshot.Buffered t.machine.registers a) ↔
        (t.machine.registers.get Register.edl).toNat % 16 ≠ 0 ∧
          ((t.machine.registers.get Register.edl).toNat < 16 ∨
            65536 ≤ (t.machine.registers.get Register.esa).toNat * 256 +
              (t.machine.registers.get Register.edl).toNat % 16 * 2048)) := by
  obtain ⟨snapshot, hparse, rfl⟩ := load_eq_ok h
  have hmemory := Snapshot.memory_of_parse? hparse
  refine ⟨snapshot.format, rfl, ?_, ?_, Snapshot.clears_buffer_iff _⟩
  · intro hkeep
    rw [← hmemory]
    simp [install, Snapshot.restore, hkeep]
  · intro hclear a
    rw [← hmemory]
    simp only [install, Snapshot.restore, hclear, if_true]
    exact Memory.get_clear ..

/-- RAM with eight bytes `55` from address `4000` on. -/
def marked : Memory := Memory.zero.setAll ((List.range 8).map fun i => (0x4000 + UInt16.ofNat i, 0x55))

/-- Registers with the delay line at address `4000` and the given EDL. -/
def lineAt4000 (edl : UInt8) : Registers := (Registers.zero.store Register.esa 0x40).store Register.edl edl

/-- A delay line of 2048 bytes is cleared. -/
theorem load_clears_one_page : ∃ t, ({} : Session).load (SpcFile.encode {} marked (lineAt4000 1)) = .ok t ∧
    (∀ a, Snapshot.Cleared t.machine.registers a ↔ Snapshot.Buffered t.machine.registers a) ∧
    t.machine.memory.get 0x4004 = 0 := by
  have hload := load_encode {} {} marked (lineAt4000 1)
  obtain ⟨format, hformat, -, hclear, hregion⟩ := load_clears hload
  refine ⟨_, hload, hregion.mpr ?_, ?_⟩
  · decide
  · rw [hclear rfl]
    exact if_pos (by decide)

/-- A delay line of four bytes is cleared together with what lies behind it. -/
theorem load_clears_past_buffer :
    ∃ t, ({} : Session).load (SpcFile.encode {} marked (lineAt4000 0x10)) = .ok t ∧
      ¬Snapshot.Buffered t.machine.registers 0x4004 ∧ marked.get 0x4004 = 0x55 ∧ t.machine.memory.get 0x4004 = 0 := by
  have hload := load_encode {} {} marked (lineAt4000 0x10)
  refine ⟨_, hload, by decide, ?_, ?_⟩
  · simp [marked, Memory.setAll, List.range, List.range.loop, Memory.get_set]
  · have hmemory (snapshot : Snapshot) : (({} : Session).install snapshot).machine.memory =
        snapshot.memory.clear (Snapshot.echoStart snapshot.registers) (Snapshot.echoLength snapshot.registers) := rfl
    rw [hmemory, Memory.get_clear]
    exact if_pos (by decide)

end Session

end SnesSound
