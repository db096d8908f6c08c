import SnesSound.Proofs.Dsp.Tick

/-!
# Voices that are left out of the mix

A mask leaves voices out of the sums of a tick and has no part in anything else. Voices and registers do not depend on
it, nor does the echo unit, except for what it writes; and what it writes, like the frame, is what it would be if the
masked voices had no volume. That a voice without volume contributes nothing needs the sums to be 16-bit numbers, which
saturation does not change.

Main statements: what a tick does to everything but its frame and the frame of the delay line does not depend on the
mask (`tick_mask`), and a masked tick sounds like one in which the masked voices have no volume (`tick_silence`).
-/

namespace SnesSound

/-! ## Registers with voices silenced -/

namespace Registers

/-- The registers with the volumes zero of those voices whose bits are set in `mask`. -/
def silence (mask : UInt8) (r : Registers) : Registers :=
  ⟨r.bank.mapFinIdx fun a value _ => if a % 16 < 2 ∧ bit mask (a / 16) = true then 0 else value⟩

variable (mask : UInt8) (r : Registers)

theorem get_silence (a : Fin 128) :
    (r.silence mask).get a = if a.val % 16 < 2 ∧ bit mask (a.val / 16) = true then 0 else r.get a := by
  rw [get, get_eq_getElem, silence]
  exact Vector.getElem_mapFinIdx _

/-- Silencing touches no register but volumes. -/
theorem get_silence_of_le {a : Fin 128} (h : 2 ≤ a.val % 16) : (r.silence mask).get a = r.get a := by
  rw [get_silence, if_neg fun hs => Nat.not_lt.mpr h hs.1]

theorem ofVoice_silence (voice : Fin 8) {column : Fin 16} (h : 2 ≤ column.val) :
    (r.silence mask).ofVoice voice column = r.ofVoice voice column := by
  apply get_silence_of_le
  change 2 ≤ (16 * voice.val + column.val) % 16
  omega

theorem volume_silence (voice : Fin 8) :
    (r.silence mask).volume voice = if bit mask voice = true then .both 0 else r.volume voice := by
  have hdiv (column : Fin 16) : (Register.ofVoice voice column).val / 16 = voice.val := by
    change (16 * voice.val + column.val) / 16 = voice.val
    omega
  have hmod (column : Fin 16) : (Register.ofVoice voice column).val % 16 = column.val := by
    change (16 * voice.val + column.val) % 16 = column.val
    omega
  simp only [volume, ofVoice, get_silence, hdiv, hmod]
  cases bit mask voice <;> rfl

/-- It does not matter whether voices are silenced before or after a register is stored that is no volume. -/
theorem store_silence {a : Fin 128} (h : 2 ≤ a.val % 16) (value : UInt8) :
    (r.silence mask).store a value = (r.store a value).silence mask := by
  apply ext_get
  intro b
  by_cases hb : a = b
  · subst hb
    rw [get_store_self, get_silence_of_le _ _ h, get_store_self]
  · rw [get_store_of_ne _ _ hb, get_silence, get_silence, get_store_of_ne _ _ hb]

end Registers

namespace Dsp

/-! ## Voices do not see volumes -/

section Voices

variable (mask : UInt8)

/-- A voice does not see volumes, not even its own. -/
theorem sameFor_silence (r : Registers) (index : Fin 8) : (r.silence mask).SameFor index r where
  own _ h _ := Registers.ofVoice_silence mask r index h
  koff := congrArg (bit · index) (Registers.get_silence_of_le _ _ (by decide))
  pmon := congrArg (bit · index) (Registers.get_silence_of_le _ _ (by decide))
  non := congrArg (bit · index) (Registers.get_silence_of_le _ _ (by decide))
  dir := Registers.get_silence_of_le _ _ (by decide)

theorem starting_silence (r : Registers) : starting (r.silence mask) = starting r := by
  rw [starting, starting, Registers.get_silence_of_le _ _ (by decide), Registers.get_silence_of_le _ _ (by decide)]

theorem prepareVoices_silence (voices : Vector Voice 8) (r : Registers) :
    prepareVoices voices (r.silence mask) = prepareVoices voices r := by
  have hreset : (r.silence mask).softReset = r.softReset := by
    rw [Registers.softReset, Registers.softReset, Registers.get_silence_of_le _ _ (by decide)]
  unfold prepareVoices
  rw [hreset, starting_silence]

theorem prepareRegisters_silence (r : Registers) :
    prepareRegisters (r.silence mask) = (prepareRegisters r).silence mask := by
  have hendx := Registers.get_silence_of_le mask r (a := Register.endx) (by decide)
  have hkon := Registers.get_silence_of_le mask r (a := Register.kon) (by decide)
  rw [prepareRegisters, hendx, hkon, starting_silence, Registers.store_silence _ _ (by decide),
    Registers.store_silence _ _ (by decide), prepareRegisters]

theorem showStatus_silence (r : Registers) (index : Fin 8) (status : Voice.Status) :
    showStatus (r.silence mask) index status = (showStatus r index status).silence mask := by
  have hstored (column : Fin 16) (hc : 2 ≤ column.val) : 2 ≤ (Register.ofVoice index column).val % 16 := by
    change 2 ≤ (16 * index.val + column.val) % 16
    omega
  have hshow : (r.silence mask).showVoice index status.envx status.outx =
      (r.showVoice index status.envx status.outx).silence mask := by
    rw [Registers.showVoice, Registers.store_silence mask _ (hstored 8 (by decide)),
      Registers.store_silence mask _ (hstored 9 (by decide)), Registers.showVoice]
  unfold showStatus
  rw [hshow]
  dsimp only
  split
  · rw [Registers.get_silence_of_le mask _ (by decide), Registers.store_silence mask _ (by decide)]
  · rfl

/-- A pass over the registers with voices silenced. -/
def Pass.silence (p : Pass) : Pass := { p with registers := p.registers.silence mask }

theorem run_silence (m : Memory) (noise : Int) (p : Pass) (index : Fin 8) :
    (p.silence mask).run m noise index = (p.run m noise index).silence mask := by
  have htick := (sameFor_silence mask p.registers index).tick (p.voices.get index) m noise (p.previous index)
  have hshow (status : Voice.Status) := showStatus_silence mask p.registers index status
  unfold Pass.run
  change (p.silence mask).put index
    ((p.voices.get index).tick index (p.registers.silence mask) m noise (p.previous index)).1
    ((p.voices.get index).tick index (p.registers.silence mask) m noise (p.previous index)).2 = _
  rw [htick]
  simp only [Pass.put, Pass.silence, hshow]

theorem runVoices_silence (voices : Vector Voice 8) (r : Registers) (m : Memory) (noise : Int) :
    runVoices voices (r.silence mask) m noise = (runVoices voices r m noise).silence mask := by
  rw [runVoices, runVoices, Fin.foldl_eq_finRange_foldl, Fin.foldl_eq_finRange_foldl]
  change List.foldl (Pass.run m noise) (Pass.silence mask { voices, registers := r }) _ = _
  exact List.foldl_hom (Pass.silence mask) (run_silence mask m noise)

end Voices

/-! ## Voices without volume -/

/-- Whether both channels are 16-bit numbers. -/
def IsFrame (s : Stereo Int) : Prop :=
  (-32768 ≤ s.left ∧ s.left ≤ 32767) ∧ -32768 ≤ s.right ∧ s.right ≤ 32767

theorem isFrame_add (s t : Stereo Int) : IsFrame (add s t) := ⟨clamp16_mem _, clamp16_mem _⟩

/-- A voice without volume adds nothing to a sum, since the sum is not saturated anew. -/
theorem add_scale_zero {total : Stereo Int} (h : IsFrame total) (x : Int) :
    add total (scale (.both x) (.both 0)) = total := by
  have hzero : x * 0 / 128 = 0 := by rw [Int.mul_zero]; rfl
  simp only [add, scale, Stereo.both, Stereo.zipWith, hzero, Int.add_zero, clamp16_of_mem h.1, clamp16_of_mem h.2]

/-- Leaving voices out of a sum is the same as silencing them. -/
theorem sum_silence (mask : UInt8) (r : Registers) (outputs : Vector Int 8) (included : Fin 8 → Bool) :
    sum (r.silence mask) outputs (fun i => !bit 0 i && included i) =
      sum r outputs fun i => !bit mask i && included i := by
  have hnone (i : Fin 8) : bit 0 i = false := Nat.zero_testBit i
  rw [sum, sum, Fin.foldl_eq_finRange_foldl, Fin.foldl_eq_finRange_foldl]
  refine (List.foldl_rel (r := fun s t => s = t ∧ IsFrame t) ⟨rfl, ⟨by decide, by decide⟩⟩ ?_).1
  rintro i - total _ ⟨rfl, htotal⟩
  simp only [hnone, Registers.volume_silence]
  cases hi : included i with
  | false => simpa using htotal
  | true =>
    cases hm : bit mask i with
    | false => simpa using isFrame_add ..
    | true => simpa [add_scale_zero htotal] using htotal

/-! ## Ticks -/

section Tick

variable (d : Dsp) (r : Registers) (m : Memory) (mask mask' : UInt8)

/-- Registers, voices, noise and the echo unit do not depend on the mask, and RAM outside of the current frame of the
delay line does not; all of it does not while the delay line is read-only. -/
theorem tick_mask :
    (d.tick r m mask).2.2.1 = (d.tick r m mask').2.2.1 ∧
    (d.tick r m mask).2.1.voices = (d.tick r m mask').2.1.voices ∧
    (d.tick r m mask).2.1.noise = (d.tick r m mask').2.1.noise ∧
    (d.tick r m mask).2.1.echo = (d.tick r m mask').2.1.echo ∧
    (∀ a, ¬Within (d.echo.address r) 4 a → (d.tick r m mask).2.2.2.get a = (d.tick r m mask').2.2.2.get a) ∧
    (r.echoReadOnly = true → (d.tick r m mask).2.2.2 = (d.tick r m mask').2.2.2) := by
  refine ⟨?_, ?_, ?_, ?_, fun a ha => ?_, fun h => ?_⟩
  · rw [registers_tick, registers_tick]
  · rw [voices_tick, voices_tick]
  · rw [noise_tick, noise_tick]
  · rw [echo_tick, echo_tick]
  · rw [get_memory_tick_of_not_within d mask ha, get_memory_tick_of_not_within d mask' ha]
  · rw [memory_tick_of_readOnly d m mask h, memory_tick_of_readOnly d m mask' h]

/-- Under another mask a tick leaves the same sound unit, but for the last frame. -/
theorem dsp_tick_mask :
    (d.tick r m mask').2.1 = { (d.tick r m mask).2.1 with lastFrame := (d.tick r m mask').1 } := by
  obtain ⟨-, hvoices, hnoise, hecho, -⟩ := tick_mask d r m mask mask'
  dsimp only
  rw [hvoices, hnoise, hecho, ← lastFrame_tick]

/-- The echo unit and the output stage do not see the volumes of voices. -/
theorem process_silence (e : Echo) (input : Frame) : e.process (r.silence mask) m input = e.process r m input := by
  have hglobal {a : Fin 128} (ha : 2 ≤ a.val % 16) := Registers.get_silence_of_le mask r ha
  have hfilter : Echo.filter (r.silence mask) = Echo.filter r := by
    funext h
    have htap (tap : Fin 8) : (r.silence mask).coefficient tap = r.coefficient tap :=
      congrArg signed8 (Registers.ofVoice_silence mask r tap (by decide))
    simp only [Echo.filter, htap]
  have haddress : e.address (r.silence mask) = e.address r := by
    rw [Echo.address, Echo.address, Registers.echoStart, Registers.echoStart, hglobal (by decide)]
  have hlength : (r.silence mask).echoLength = r.echoLength := by
    rw [Registers.echoLength, Registers.echoLength, hglobal (by decide)]
  have hreadOnly : (r.silence mask).echoReadOnly = r.echoReadOnly := by
    rw [Registers.echoReadOnly, Registers.echoReadOnly, hglobal (by decide)]
  have hfeedback : (r.silence mask).feedback = r.feedback := by
    rw [Registers.feedback, Registers.feedback, hglobal (by decide)]
  unfold Echo.process
  rw [hfilter, haddress, hlength, hreadOnly, hfeedback]

theorem finish_silence (main filtered : Stereo Int) :
    finish (r.silence mask) main filtered = finish r main filtered := by
  have hglobal {a : Fin 128} (ha : 2 ≤ a.val % 16) := Registers.get_silence_of_le mask r ha
  have hmuted : (r.silence mask).muted = r.muted := by
    rw [Registers.muted, Registers.muted, hglobal (by decide)]
  have hmain : (r.silence mask).mainVolume = r.mainVolume := by
    rw [Registers.mainVolume, Registers.mainVolume, hglobal (by decide), hglobal (by decide)]
  have hecho : (r.silence mask).echoVolume = r.echoVolume := by
    rw [Registers.echoVolume, Registers.echoVolume, hglobal (by decide), hglobal (by decide)]
  rw [finish, finish, hmuted, hmain, hecho]

/-- A masked tick does what a tick without a mask does when the masked voices have no volume: it produces the same frame
and writes the same to RAM. -/
theorem tick_silence :
    d.tick (r.silence mask) m 0 =
      ((d.tick r m mask).1, (d.tick r m mask).2.1, (d.tick r m mask).2.2.1.silence mask, (d.tick r m mask).2.2.2) := by
  have hnoise : ((prepareRegisters r).silence mask).noiseAmount = (prepareRegisters r).noiseAmount := by
    rw [Registers.noiseAmount, Registers.noiseAmount, Registers.get_silence_of_le _ _ (by decide)]
  unfold tick
  simp only [prepareVoices_silence, prepareRegisters_silence, hnoise, runVoices_silence]
  generalize runVoices _ _ m _ = p
  have hmain := sum_silence mask p.registers p.outputs fun _ => true
  have hwet := sum_silence mask p.registers p.outputs fun i => bit (p.registers.get Register.eon) i
  simp only [Bool.and_true] at hmain
  simp only [Pass.silence, hmain, hwet, Registers.get_silence_of_le mask p.registers (a := Register.eon) (by decide),
    process_silence, finish_silence]

end Tick

end Dsp

end SnesSound
