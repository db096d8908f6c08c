import SnesSound.Proofs.Checked.Voice
import SnesSound.Proofs.Dsp.Mixing

/-!
# Checked ticks of the sound unit

Between two ticks all voices are in their ranges, the noise generator counts down, and the echo unit has 15-bit samples
in its history and stands within the longest delay line (`Dsp.InRange`). The registers and the RAM may hold anything.
A tick is one loop here that runs each voice and mixes it at once.

Main statement: a tick never stops the engine and keeps the sound unit in its range (`tick_eq`).
-/

namespace SnesSound

/-! ## Ranges -/

/-- Whether something holds of both channels. -/
structure Stereo.Both {α : Type} (P : α → Prop) (s : Stereo α) : Prop where
  left : P s.left
  right : P s.right

/-- Whether an echo unit is in a state that it can get to. -/
structure Echo.InRange (e : Echo) : Prop where
  offset : e.offset < 30720
  history : e.history.Both (Ring.Mem (-16384) 16383)

/-- Whether a sound unit is in a state that it can get to. -/
structure Dsp.InRange (d : Dsp) : Prop where
  voices : ∀ (i : Nat) (h : i < 8), d.voices[i].InRange
  noise : Rate.InRange d.noise.counter
  echo : d.echo.InRange

/-- Whether a number is a volume or a coefficient. -/
def IsVolume (x : Int) : Prop := -128 ≤ x ∧ x ≤ 127

/-- Whether a number is a 16-bit number that a volume may have scaled. -/
def IsScaled (x : Int) : Prop := -32768 ≤ x ∧ x ≤ 32768

theorem Fits16.isScaled {x : Int} (h : Fits16 x) : IsScaled x := ⟨h.1, Int.le_trans h.2 (by decide)⟩

theorem Stereo.Both.imp {α : Type} {P Q : α → Prop} {s : Stereo α} (h : s.Both P) (hPQ : ∀ a, P a → Q a) :
    s.Both Q :=
  ⟨hPQ _ h.left, hPQ _ h.right⟩

theorem Stereo.both_both {α : Type} {P : α → Prop} {a : α} (h : P a) : (both a).Both P := ⟨h, h⟩

namespace Registers

variable (r : Registers)

theorem isVolume_volume (voice : Fin 8) : (r.volume voice).Both IsVolume := ⟨signed8_mem _, signed8_mem _⟩

theorem isVolume_mainVolume : r.mainVolume.Both IsVolume := ⟨signed8_mem _, signed8_mem _⟩

theorem isVolume_echoVolume : r.echoVolume.Both IsVolume := ⟨signed8_mem _, signed8_mem _⟩

theorem isVolume_feedback : IsVolume r.feedback := signed8_mem _

theorem isVolume_coefficient (tap : Fin 8) : IsVolume (r.coefficient tap) := signed8_mem _

end Registers

theorem Dsp.inRange_default : ({} : Dsp).InRange where
  voices i h := by
    rw [Vector.getElem_replicate]
    exact Voice.inRange_default
  noise := Voice.inRange_default.envelope.counter
  echo := ⟨by decide, Stereo.both_both (Ring.mem_zeros (by decide))⟩

namespace Checked

/-! ## Mixing -/

/-- Combines two pairs channel by channel. -/
def zip {α β γ : Type} (f : α → β → Checked γ) (s : Stereo α) (t : Stereo β) : Checked (Stereo γ) := do
  let left ← f s.left t.left
  let right ← f s.right t.right
  return ⟨left, right⟩

theorem zip_ok {α β γ : Type} {f : α → β → Checked γ} {g : α → β → γ} {P : α → Prop} {Q : β → Prop} {R : γ → Prop}
    (h : ∀ a b, P a → Q b → f a b = .ok (g a b) ∧ R (g a b)) {s : Stereo α} {t : Stereo β} (hs : s.Both P)
    (ht : t.Both Q) : zip f s t = .ok (s.zipWith g t) ∧ (s.zipWith g t).Both R := by
  obtain ⟨hleft, hl⟩ := h _ _ hs.left ht.left
  obtain ⟨hright, hr⟩ := h _ _ hs.right ht.right
  rw [zip, hleft, ok_bind, hright]
  exact ⟨rfl, hl, hr⟩

/-- Computes something for each channel. -/
def each {α β : Type} (f : α → Checked β) (s : Stereo α) : Checked (Stereo β) := do
  let left ← f s.left
  let right ← f s.right
  return ⟨left, right⟩

theorem each_ok {α β : Type} {f : α → Checked β} {g : α → β} {P : α → Prop} {Q : β → Prop}
    (h : ∀ a, P a → f a = .ok (g a) ∧ Q (g a)) {s : Stereo α} (hs : s.Both P) :
    each f s = .ok (s.map g) ∧ (s.map g).Both Q := by
  obtain ⟨hleft, hl⟩ := h _ hs.left
  obtain ⟨hright, hr⟩ := h _ hs.right
  rw [each, hleft, ok_bind, hright]
  exact ⟨rfl, hl, hr⟩

/-- Scales a sample by a volume. -/
def scale (x volume : Int) : Checked Int := do
  let product ← i32 (x * volume)
  return product / 128

/-- Adds two samples with saturation. -/
def add (x y : Int) : Checked Int := do
  let total ← i32 (x + y)
  return clamp16 total

/-- Adds two pairs of samples, the second one at a volume. -/
def addScaled (total samples volume : Stereo Int) : Checked (Stereo Int) := do
  let scaled ← zip scale samples volume
  zip add total scaled

/-- The output frame. -/
def finish (r : Registers) (main filtered : Stereo Int) : Checked Frame :=
  if r.muted then return .both 0
  else do
    let main ← zip scale main r.mainVolume
    addScaled main filtered r.echoVolume

theorem scale_eq (x volume : Int) (hx : Fits16 x) (hv : IsVolume volume) :
    scale x volume = .ok (x * volume / 128) ∧ IsScaled (x * volume / 128) := by
  unfold Fits16 at hx
  unfold IsVolume at hv
  unfold IsScaled
  have hproduct : -(32768 * 128) ≤ x * volume ∧ x * volume ≤ 32768 * 128 := mul_mem (by omega) (by omega)
  rw [scale, i32_ok (by omega)]
  exact ⟨rfl, by omega⟩

theorem add_eq (x y : Int) (hx : IsScaled x) (hy : IsScaled y) :
    add x y = .ok (clamp16 (x + y)) ∧ Fits16 (clamp16 (x + y)) := by
  unfold IsScaled at hx hy
  rw [add, i32_ok (by omega)]
  exact ⟨rfl, clamp16_mem _⟩

theorem addScaled_eq {total samples volume : Stereo Int} (ht : total.Both IsScaled) (hs : samples.Both Fits16)
    (hv : volume.Both IsVolume) :
    addScaled total samples volume = .ok (Dsp.add total (Dsp.scale samples volume)) ∧
      (Dsp.add total (Dsp.scale samples volume)).Both Fits16 := by
  obtain ⟨hscale, hscaled⟩ := zip_ok scale_eq hs hv
  rw [addScaled, hscale, ok_bind]
  exact zip_ok add_eq ht hscaled

theorem finish_eq (r : Registers) {main filtered : Stereo Int} (hm : main.Both Fits16) (hf : filtered.Both Fits16) :
    finish r main filtered = .ok (Dsp.finish r main filtered) := by
  unfold finish Dsp.finish
  split
  · rfl
  · obtain ⟨hscale, hscaled⟩ := zip_ok scale_eq hm r.isVolume_mainVolume
    rw [hscale, ok_bind]
    exact (addScaled_eq hscaled hf r.isVolume_echoVolume).1

/-! ## Echo -/

/-- The address of the current frame. -/
def echoAddress (e : Echo) (r : Registers) : Checked UInt16 := do
  let start ← natural 16 ((r.get Register.esa).toNat * 256)
  return UInt16.ofNat start + UInt16.ofNat e.offset

/-- Length of the echo buffer in bytes. -/
def echoLength (r : Registers) : Checked Nat :=
  if (r.get Register.edl).toNat % 16 = 0 then return 4 else natural 64 ((r.get Register.edl).toNat % 16 * 2048)

/-- The frame of the delay line at an address. -/
def readFrame (m : Memory) (address : UInt16) : Checked Frame := do
  let left ← ramWord m address
  let right ← ramWord m (address + 2)
  return ⟨Echo.sampleOfWord left, Echo.sampleOfWord right⟩

/-- Stores a frame in the delay line. -/
def writeFrame (m : Memory) (address : UInt16) (frame : Frame) : Checked Memory := do
  let m ← setRamWord m address (Echo.wordOfSample frame.left)
  setRamWord m (address + 2) (Echo.wordOfSample frame.right)

/-- Weights a sample of the history by the coefficient of its tap and adds it to a sum. -/
def accumulate (r : Registers) (h : Ring 8) (total : Int) (tap : Fin 8) : Checked Int := do
  let sample ← ringGet h tap
  let product ← i32 (sample * r.coefficient tap)
  i32 (total + product / 64)

/-- The filter. -/
def filter (r : Registers) (h : Ring 8) : Checked Int := do
  let total ← Fin.foldlM 8 (accumulate r h) 0
  return clamp16 total

/-- What is written back for a channel. -/
def recirculate (feedback input filtered : Int) : Checked Int := do
  let scaled ← scale filtered feedback
  let total ← add input scaled
  return evenBelow total

/-- Writes a frame back unless the delay line is read-only. -/
def writeBack (r : Registers) (m : Memory) (address : UInt16) (input filtered : Frame) : Checked Memory :=
  if r.echoReadOnly then return m
  else do
    let frame ← zip (recirculate r.feedback) input filtered
    writeFrame m address frame

/-- One sample of the echo unit. -/
def processEcho (e : Echo) (r : Registers) (m : Memory) (input : Frame) : Checked (Frame × Echo × Memory) := do
  let address ← echoAddress e r
  let frame ← readFrame m address
  let history ← zip ringPush e.history frame
  let filtered ← each (filter r) history
  let m ← writeBack r m address input filtered
  let next ← natural 64 (e.offset + 4)
  let length ← echoLength r
  return (filtered, { offset := if length ≤ next then 0 else next, history }, m)

theorem echoAddress_eq (e : Echo) (r : Registers) : echoAddress e r = .ok (e.address r) := by
  have hlt := (r.get Register.esa).toNat_lt
  rw [echoAddress, natural_ok (by omega), ok_bind, ofNat_mul_256]
  rfl

theorem echoLength_eq (r : Registers) : echoLength r = .ok r.echoLength := by
  unfold echoLength Registers.echoLength
  split
  · rfl
  · exact natural_ok (by omega)

theorem echoLength_le (r : Registers) : r.echoLength ≤ 30720 := by
  unfold Registers.echoLength
  split <;> omega

/-- The delay line holds 16-bit samples, of which the lowest bit is dropped. -/
theorem readFrame_eq (m : Memory) (address : UInt16) : readFrame m address = .ok (Echo.readFrame m address) ∧
    (Echo.readFrame m address).Both fun x => -16384 ≤ x ∧ x ≤ 16383 := by
  have hleft := signed16_mem (m.readWord address)
  have hright := signed16_mem (m.readWord (address + 2))
  rw [readFrame, ramWord_eq, ok_bind, ramWord_eq]
  refine ⟨rfl, ?_, ?_⟩
  · change -16384 ≤ signed16 _ / 2 ∧ signed16 _ / 2 ≤ 16383
    omega
  · change -16384 ≤ signed16 _ / 2 ∧ signed16 _ / 2 ≤ 16383
    omega

theorem writeFrame_eq (m : Memory) (address : UInt16) (frame : Frame) :
    writeFrame m address frame = .ok (Echo.writeFrame m address frame) := by
  rw [writeFrame, setRamWord_eq, ok_bind, setRamWord_eq]
  rfl

/-- Each tap adds at most one 16-bit number to the sum of the filter. -/
theorem accumulate_eq (r : Registers) {h : Ring 8} (hh : h.Mem (-16384) 16383) (tap : Fin 8) (total : Int)
    (ht : -(32768 * (tap : Int)) ≤ total ∧ total ≤ 32768 * (tap : Int)) :
    accumulate r h total tap = .ok (total + h.get tap * r.coefficient tap / 64) ∧
      -(32768 * ((tap + 1 : Nat) : Int)) ≤ total + h.get tap * r.coefficient tap / 64 ∧
      total + h.get tap * r.coefficient tap / 64 ≤ 32768 * ((tap + 1 : Nat) : Int) := by
  have hsample := hh.get tap
  have hcoefficient := r.isVolume_coefficient tap
  unfold IsVolume at hcoefficient
  have hproduct : -(16384 * 128) ≤ h.get tap * r.coefficient tap ∧ h.get tap * r.coefficient tap ≤ 16384 * 128 :=
    mul_mem (by omega) (by omega)
  rw [accumulate, ringGet_eq h (by decide) (by omega), ok_bind, i32_ok (by omega), ok_bind, i32_ok (by omega)]
  exact ⟨rfl, by omega, by omega⟩

theorem filter_eq (r : Registers) (h : Ring 8) (hh : h.Mem (-16384) 16383) :
    filter r h = .ok (Echo.filter r h) ∧ Fits16 (Echo.filter r h) := by
  have hsum := foldlM_ok (P := fun i (total : Int) => -(32768 * (i : Int)) ≤ total ∧ total ≤ 32768 * (i : Int))
    (accumulate_eq r hh) (a := 0) (by decide)
  rw [filter, hsum.1]
  exact ⟨rfl, clamp16_mem _⟩

theorem recirculate_eq {feedback : Int} (hf : IsVolume feedback) (input filtered : Int) (hi : Fits16 input)
    (hx : Fits16 filtered) :
    recirculate feedback input filtered = .ok (Echo.recirculate feedback input filtered) ∧
      Fits16 (Echo.recirculate feedback input filtered) := by
  obtain ⟨hscale, hscaled⟩ := scale_eq filtered feedback hx hf
  obtain ⟨hadd, hsum⟩ := add_eq input _ hi.isScaled hscaled
  rw [recirculate, hscale, ok_bind, hadd]
  exact ⟨rfl, fits16_evenBelow hsum⟩

theorem writeBack_eq (r : Registers) (m : Memory) (address : UInt16) {input filtered : Frame}
    (hi : input.Both Fits16) (hf : filtered.Both Fits16) :
    writeBack r m address input filtered = .ok (if r.echoReadOnly then m
      else Echo.writeFrame m address (input.zipWith (Echo.recirculate r.feedback) filtered)) := by
  unfold writeBack
  split
  · rfl
  · rw [(zip_ok (recirculate_eq r.isVolume_feedback) hi hf).1, ok_bind, writeFrame_eq]

/-- The echo unit never stops the engine. -/
theorem processEcho_eq {e : Echo} (h : e.InRange) (r : Registers) (m : Memory) {input : Frame}
    (hi : input.Both Fits16) :
    processEcho e r m input = .ok (e.process r m input) ∧ (e.process r m input).2.1.InRange ∧
      (e.process r m input).1.Both Fits16 := by
  have hoffset := h.offset
  have hlength := echoLength_le r
  obtain ⟨hread, hframe⟩ := readFrame_eq m (e.address r)
  obtain ⟨hpush, hhistory⟩ := zip_ok (fun (ring : Ring 8) x hr hx =>
    ⟨ringPush_eq ring (by decide) x, Ring.Mem.push hr hx⟩) h.history hframe
  obtain ⟨hfilter, hfiltered⟩ := each_ok (filter_eq r) hhistory
  rw [processEcho, echoAddress_eq, ok_bind, hread, ok_bind, hpush, ok_bind, hfilter, ok_bind,
    writeBack_eq r m _ hi hfiltered, ok_bind, natural_ok (by omega), ok_bind, echoLength_eq]
  refine ⟨rfl, ⟨?_, hhistory⟩, hfiltered⟩
  change Echo.nextOffset e.offset r.echoLength < 30720
  unfold Echo.nextOffset
  split <;> omega

/-! ## Ticks -/

/-- What a tick does to the voices before it runs them, which looks at a bit for each. -/
def prepareVoices (voices : Vector Voice 8) (r : Registers) : Checked (Vector Voice 8) := do
  checkAll 8 fun i => discard (places 8 i)
  return Dsp.prepareVoices voices r

/-- Adds the last output to the sums, unless the mask leaves the voice out of the mix. -/
def mix (mask : UInt8) (x : Dsp.Mix) (index : Fin 8) : Checked Dsp.Mix := do
  let _ ← places 8 index
  if bit mask index then return x
  else do
    let amplified ← zip scale (.both x.previous) (x.registers.volume index)
    let main ← zip add x.main amplified
    let wet ← if bit (x.registers.get Register.eon) index then zip add x.wet amplified else pure x.wet
    return { x with main, wet }

/-- Runs one voice and mixes it. -/
def runVoice (m : Memory) (noise : Int) (mask : UInt8) (x : Dsp.Mix) (index : Fin 8) : Checked Dsp.Mix := do
  let (voice, status) ← tickVoice (x.voices.get index) index x.registers m noise x.previous
  mix mask (x.put index voice status) index

/-- Produces one frame. -/
def tick (d : Dsp) (r : Registers) (m : Memory) (mask : UInt8) : Checked (Frame × Dsp × Registers × Memory) := do
  let voices ← prepareVoices d.voices r
  let r := Dsp.prepareRegisters r
  let noise ← tickNoise d.noise ((r.get Register.flg).toNat % 32)
  let x ← Fin.foldlM 8 (runVoice m noise.sample mask) { voices, registers := r }
  let r := x.registers
  let (filtered, echo, m) ← processEcho d.echo r m x.wet
  let lastFrame ← finish r x.main filtered
  return (lastFrame, { voices := x.voices, noise, echo, lastFrame }, r, m)

/-- Whether all voices are in their ranges, and the last output and both sums are 16-bit numbers. -/
structure MixInRange (x : Dsp.Mix) : Prop where
  voices : ∀ (i : Nat) (h : i < 8), x.voices[i].InRange
  previous : Fits16 x.previous
  main : x.main.Both Fits16
  wet : x.wet.Both Fits16

theorem MixInRange.put {x : Dsp.Mix} (h : MixInRange x) (index : Fin 8) {voice : Voice} (hv : voice.InRange)
    {status : Voice.Status} (ho : Fits16 status.output) : MixInRange (x.put index voice status) where
  voices i hi := by
    rw [Dsp.Mix.put, Dsp.Pass.put, Vector.getElem_set]
    split
    · exact hv
    · exact h.voices i hi
  previous := ho
  main := h.main
  wet := h.wet

theorem inRange_prepareVoices {voices : Vector Voice 8} (h : ∀ (i : Nat) (hi : i < 8), voices[i].InRange)
    (r : Registers) (i : Nat) (hi : i < 8) : (Dsp.prepareVoices voices r)[i].InRange := by
  have hreset : (if r.softReset then voices.map Voice.reset else voices)[i].InRange := by
    split
    · rw [Vector.getElem_map]
      exact (h i hi).reset
    · exact h i hi
  unfold Dsp.prepareVoices
  rw [Vector.getElem_mapFinIdx]
  split
  · exact hreset.keyOn
  · exact hreset

theorem prepareVoices_eq (voices : Vector Voice 8) (r : Registers) :
    prepareVoices voices r = .ok (Dsp.prepareVoices voices r) := by
  have hbits : checkAll 8 (fun i => discard (places 8 i)) = .ok () := by
    refine checkAll_ok fun i => ?_
    rw [places_ok i.isLt]
    rfl
  rw [prepareVoices, hbits]
  rfl

theorem mix_eq (mask : UInt8) {x : Dsp.Mix} (h : MixInRange x) (index : Fin 8) :
    mix mask x index = .ok (x.add mask index) ∧ MixInRange (x.add mask index) := by
  unfold mix Dsp.Mix.add
  rw [places_ok index.isLt, ok_bind]
  split
  next => exact ⟨rfl, h⟩
  next =>
    obtain ⟨hscale, hscaled⟩ := zip_ok scale_eq (Stereo.both_both h.previous) (x.registers.isVolume_volume index)
    obtain ⟨hmain, hmainFits⟩ := zip_ok add_eq (h.main.imp fun _ => Fits16.isScaled) hscaled
    obtain ⟨hwet, hwetFits⟩ := zip_ok add_eq (h.wet.imp fun _ => Fits16.isScaled) hscaled
    rw [hscale, ok_bind, hmain, ok_bind]
    split
    next =>
      rw [hwet]
      exact ⟨rfl, h.voices, h.previous, hmainFits, hwetFits⟩
    next => exact ⟨rfl, h.voices, h.previous, hmainFits, h.wet⟩

theorem runVoice_eq (m : Memory) {noise : Int} (hn : Fits16 noise) (mask : UInt8) (index : Fin 8) (x : Dsp.Mix)
    (h : MixInRange x) :
    runVoice m noise mask x index = .ok (x.run m noise mask index) ∧ MixInRange (x.run m noise mask index) := by
  obtain ⟨htick, hvoice, houtput⟩ := tickVoice_eq (h.voices index index.isLt) index x.registers m hn h.previous
  change tickVoice (x.voices.get index) _ _ _ _ _ = _ at htick
  rw [runVoice, htick]
  exact mix_eq mask (h.put index hvoice houtput) index

/-- The loop of a tick never stops the engine. -/
theorem mixVoices_ok {voices : Vector Voice 8} (h : ∀ (i : Nat) (hi : i < 8), voices[i].InRange) (r : Registers)
    (m : Memory) {noise : Int} (hn : Fits16 noise) (mask : UInt8) :
    Fin.foldlM 8 (runVoice m noise mask) { voices, registers := r } = .ok (Dsp.mixVoices voices r m noise mask) ∧
      MixInRange (Dsp.mixVoices voices r m noise mask) := by
  have hstart : MixInRange { voices, registers := r } :=
    ⟨h, fits16_zero, Stereo.both_both fits16_zero, Stereo.both_both fits16_zero⟩
  exact foldlM_ok (P := fun _ x => MixInRange x) (runVoice_eq m hn mask) hstart

theorem noise_eq {d : Dsp} (h : d.InRange) (r : Registers) :
    tickNoise d.noise ((r.get Register.flg).toNat % 32) = .ok (d.noise.tick r.noiseAmount) ∧
      Rate.InRange (d.noise.tick r.noiseAmount).counter := by
  have hamount : Rate.amount ((r.get Register.flg).toNat % 32) = r.noiseAmount := by
    simp only [Rate.amount, Registers.noiseAmount, Nat.mod_mod]
  have hnoise := tickNoise_eq h.noise (Nat.mod_lt (r.get Register.flg).toNat (by decide : 0 < 32))
  rwa [hamount] at hnoise

/-- A tick never stops the engine. -/
theorem tick_eq {d : Dsp} (h : d.InRange) (r : Registers) (m : Memory) (mask : UInt8) :
    tick d r m mask = .ok (d.tick r m mask) ∧ (d.tick r m mask).2.1.InRange := by
  have hvoices := inRange_prepareVoices h.voices r
  obtain ⟨hnoise, hcounter⟩ := noise_eq h (Dsp.prepareRegisters r)
  rw [tick, prepareVoices_eq, ok_bind, Dsp.tick_eq_mixVoices]
  dsimp only
  rw [hnoise, ok_bind]
  generalize d.noise.tick (Dsp.prepareRegisters r).noiseAmount = noise at hcounter ⊢
  have hsample : Fits16 noise.sample := signed16_mem _
  obtain ⟨hloop, hrange⟩ := mixVoices_ok hvoices (Dsp.prepareRegisters r) m hsample mask
  rw [hloop, ok_bind]
  generalize Dsp.mixVoices _ _ m noise.sample mask = x at hrange ⊢
  obtain ⟨hecho, hechoRange, hfiltered⟩ := processEcho_eq h.echo x.registers m hrange.wet
  rw [hecho, ok_bind, finish_eq _ hrange.main hfiltered]
  exact ⟨rfl, hrange.voices, hcounter, hechoRange⟩

end Checked

end SnesSound
