import SnesSound.Proofs.Dsp.Tick

/-!
# A sound unit at rest

As long as nobody writes to its registers, a sound unit whose registers are zero and that plays and awaits no note goes
on like that: it shows nothing in its registers, and its frames are silence.

Main statements: a tick keeps a sound unit at rest (`Silent.tick`), and its frame is silence (`Silent.frame_tick`).
-/

namespace SnesSound

/-- Whether a voice neither plays nor awaits a note. -/
structure Voice.Silent (v : Voice) : Prop where
  playing : v.playing = false
  keyOnDelay : v.keyOnDelay = 0

/-- A silent voice stays silent and shows nothing. -/
theorem Voice.Silent.tick {v : Voice} (h : v.Silent) (index : Fin 8) (r : Registers) (m : Memory)
    (noise previous : Int) : v.tick index r m noise previous = (v.stop, {}) := by
  have hcount : v.countDown m (r.directoryEntry index) = v := by rw [countDown, h.keyOnDelay]
  have hoff : (if bit (r.get Register.koff) index then v.keyOff else v) = v := by
    rw [keyOff, h.playing]
    exact ite_self v
  unfold Voice.tick
  simp only [hcount, hoff, h.playing, Bool.false_eq_true, if_false]

theorem Registers.store_zero (a : Fin 128) : zero.store a 0 = zero := by
  rw [store, zero, Registers.mk.injEq]
  apply Vector.ext
  intro i hi
  rw [Vector.getElem_set, Vector.getElem_replicate, ite_self]

/-- A register file of zeros has zeros everywhere. -/
theorem Registers.get_zero (a : Fin 128) : zero.get a = 0 := by simp [get, zero, get_eq_getElem]

namespace Dsp

theorem showStatus_zero (index : Fin 8) : showStatus .zero index {} = .zero := by
  change (Registers.zero.store _ 0).store _ 0 = Registers.zero
  rw [Registers.store_zero, Registers.store_zero]

theorem prepareRegisters_zero : prepareRegisters .zero = .zero := by
  rw [prepareRegisters, starting]
  simp only [Registers.get_zero, UInt8.zero_and, Registers.store_zero]

theorem prepareVoices_zero (voices : Vector Voice 8) : prepareVoices voices .zero = voices := by
  apply Vector.ext
  intro i hi
  have hreset : Registers.zero.softReset = false := by decide
  have hbit : bit (starting .zero) i = false := by
    rw [starting, Registers.get_zero, UInt8.zero_and, bit, UInt8.toNat_zero, Nat.zero_testBit]
  simp only [prepareVoices, hreset, Bool.false_eq_true, if_false, Vector.getElem_mapFinIdx, hbit]

/-- A sound unit at rest: its registers are zero, and no voice plays or awaits a note. -/
structure Silent (r : Registers) (d : Dsp) : Prop where
  registers : r = .zero
  voices : ∀ i, (d.voices.get i).Silent

namespace Silent

variable {r : Registers} {d : Dsp} (h : Silent r d) (m : Memory) (mask : UInt8)

include h

/-- Running silent voices leaves them silent, and the registers as they are. -/
theorem pass : (d.pass r m).registers = .zero ∧ ∀ i, ((d.pass r m).voices.get i).Silent := by
  obtain ⟨rfl, hvoices⟩ := h
  rw [Dsp.pass, runVoices, Fin.foldl_eq_finRange_foldl, prepareVoices_zero, prepareRegisters_zero]
  refine List.foldlRecOn (motive := fun p : Pass => p.registers = .zero ∧ ∀ i, (p.voices.get i).Silent) _ _
    ⟨rfl, hvoices⟩ ?_
  rintro p ⟨hregisters, hsilent⟩ index -
  have hrun (noise : Int) : p.run m noise index = p.put index (p.voices.get index).stop {} := by
    rw [Pass.run, (hsilent index).tick]
  rw [hrun]
  refine ⟨(congrArg (showStatus · index {}) hregisters).trans (showStatus_zero index), fun i => ?_⟩
  rw [Pass.get_voices_put]
  split
  · exact ⟨rfl, (hsilent index).keyOnDelay⟩
  · exact hsilent i

/-- A tick keeps a sound unit at rest. -/
theorem tick : Silent (d.tick r m mask).2.2.1 (d.tick r m mask).2.1 :=
  ⟨(h.pass m).1, (h.pass m).2⟩

/-- Its frames are silence, since it has no volume. -/
theorem frame_tick : (d.tick r m mask).1 = .both 0 := by
  have hzero : (d.pass r m).registers = .zero := (h.pass m).1
  have hscale (samples : Stereo Int) : scale samples (.both 0) = .both 0 := by
    simp [scale, Stereo.zipWith, Stereo.both]
  have hfinish (main filtered : Stereo Int) : finish .zero main filtered = .both 0 := by
    have hmain : Registers.zero.mainVolume = .both 0 := by decide
    have hecho : Registers.zero.echoVolume = .both 0 := by decide
    rw [finish, if_neg (by decide), hmain, hecho, hscale, hscale]
    rfl
  rw [← hfinish, ← hzero]
  rfl

end Silent

end Dsp

end SnesSound
