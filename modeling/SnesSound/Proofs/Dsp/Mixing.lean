import SnesSound.Proofs.Dsp.Pass

/-!
# Mixing the voices while they run

A tick need not wait with the mix until all voices have run. It can take each output right after the voice has run, at
the volume and with the echo bit that the registers hold then, and keep nothing but the two sums and, for the pitch of
the next voice, the last output. What other voices show after that changes neither a volume nor an echo bit, nor does it
take back an output, so the sums are the same.

Main statement: a tick is what comes of the loop that runs and mixes the voices one after the other
(`tick_eq_mixVoices`), since that loop ends with the voices and registers of a pass and with the sums of its outputs
(`mixVoices_eq`).
-/

namespace SnesSound

/-- Two loops keep up a relation if each of their rounds does; `R i` holds before round `i`. -/
theorem foldl_rel {α β : Type} {n : Nat} {f : α → Fin n → α} {g : β → Fin n → β} {R : Nat → α → β → Prop}
    (h : ∀ (i : Fin n) (a : α) (b : β), R i a b → R (i + 1) (f a i) (g b i)) {a : α} {b : β} (h0 : R 0 a b) :
    R n (Fin.foldl n f a) (Fin.foldl n g b) := by
  induction n generalizing R a b with
  | zero => rwa [Fin.foldl_zero, Fin.foldl_zero]
  | succ n ih =>
    rw [Fin.foldl_succ, Fin.foldl_succ]
    exact ih (R := fun i => R (i + 1)) (fun i a b hab => h i.succ a b hab) (h 0 a b h0)

namespace Dsp

/-! ## The loop -/

/-- The voices and registers while a tick runs and mixes the voices one after the other, the last output, and the two
sums so far. -/
structure Mix where
  voices : Vector Voice 8
  registers : Registers
  previous : Int := 0
  main : Stereo Int := .both 0
  wet : Stereo Int := .both 0

/-- Takes in a voice that has run, as a pass does, but keeps its output only until the next one. -/
def Mix.put (x : Mix) (index : Fin 8) (voice : Voice) (status : Voice.Status) : Mix :=
  let p := ({ voices := x.voices, registers := x.registers } : Pass).put index voice status
  { x with voices := p.voices, registers := p.registers, previous := status.output }

/-- Adds the last output, at the volume of its voice, unless the voice is left out of the mix. -/
def Mix.add (mask : UInt8) (x : Mix) (index : Fin 8) : Mix :=
  if bit mask index then x
  else
    let amplified := scale (.both x.previous) (x.registers.volume index)
    { x with
      main := Dsp.add x.main amplified
      wet := if bit (x.registers.get Register.eon) index then Dsp.add x.wet amplified else x.wet }

/-- Runs one voice and mixes it. -/
def Mix.run (m : Memory) (noise : Int) (mask : UInt8) (x : Mix) (index : Fin 8) : Mix :=
  let (voice, status) := (x.voices.get index).tick index x.registers m noise x.previous
  (x.put index voice status).add mask index

/-- Runs and mixes all voices. -/
def mixVoices (voices : Vector Voice 8) (r : Registers) (m : Memory) (noise : Int) (mask : UInt8) : Mix :=
  Fin.foldl 8 (Mix.run m noise mask) { voices, registers := r }

/-! ## Sums over some of the voices -/

/-- Whether a voice is mixed for the echo unit. -/
def isWet (mask : UInt8) (r : Registers) (index : Fin 8) : Bool := !bit mask index && bit (r.get Register.eon) index

/-- Sums the outputs of those voices of a list that `included` selects. -/
def Pass.sumOf (p : Pass) (included : Fin 8 → Bool) (voices : List (Fin 8)) : Stereo Int :=
  voices.foldl
    (fun total i =>
      if included i then add total (scale (.both (p.outputs.get i)) (p.registers.volume i)) else total) (.both 0)

section Sums

variable {index : Fin 8} (p : Pass) (included : Fin 8 → Bool) {voices : List (Fin 8)} (voice : Voice)
  (status : Voice.Status)

theorem Pass.sumOf_finRange : p.sumOf included (List.finRange 8) = sum p.registers p.outputs included :=
  (Fin.foldl_eq_finRange_foldl ..).symm

theorem Pass.sumOf_concat : p.sumOf included (voices ++ [index]) =
    if included index then
      add (p.sumOf included voices) (scale (.both (p.outputs.get index)) (p.registers.volume index))
    else p.sumOf included voices := by
  rw [sumOf, List.foldl_append]
  rfl

theorem isWet_showStatus (mask : UInt8) (r : Registers) : isWet mask (showStatus r index status) = isWet mask r := by
  unfold isWet
  rw [get_showStatus_of_kept (by decide)]

theorem volume_showStatus (r : Registers) (other : Fin 8) :
    (showStatus r index status).volume other = r.volume other := by
  unfold Registers.volume Registers.ofVoice
  rw [get_showStatus_of_kept (Register.kept_ofVoice other (by decide)),
    get_showStatus_of_kept (Register.kept_ofVoice other (by decide))]

/-- A voice that runs does not change the sum of others. -/
theorem Pass.sumOf_put (h : index ∉ voices) :
    (p.put index voice status).sumOf included voices = p.sumOf included voices := by
  refine List.foldl_rel (r := Eq) rfl ?_
  rintro i hi total _ rfl
  have hne : index ≠ i := fun he => h (he ▸ hi)
  rw [p.get_outputs_put, if_neg hne]
  exact congrArg (fun volume => if included i then add total (scale _ volume) else total) (volume_showStatus status ..)

end Sums

/-! ## Round by round -/

/-- Whether the loop that mixes the voices is where a pass is, and some of the voices of the pass are mixed. -/
structure Mix.Follows (mask : UInt8) (mixed : List (Fin 8)) (x : Mix) (p : Pass) : Prop where
  voices : x.voices = p.voices
  registers : x.registers = p.registers
  main : x.main = p.sumOf (fun i => !bit mask i) mixed
  wet : x.wet = p.sumOf (isWet mask p.registers) mixed

section Rounds

variable {mask : UInt8} {mixed : List (Fin 8)} {x : Mix} {p : Pass} {index : Fin 8}

/-- A voice that runs is not among those that are mixed. -/
theorem Mix.Follows.put (h : Follows mask mixed x p) (hnew : index ∉ mixed) (voice : Voice) (status : Voice.Status) :
    Follows mask mixed (x.put index voice status) (p.put index voice status) where
  voices := congrArg (·.set index voice index.isLt) h.voices
  registers := congrArg (showStatus · index status) h.registers
  main := h.main.trans (p.sumOf_put _ voice status hnew).symm
  wet := by
    have hwet : isWet mask (p.put index voice status).registers = isWet mask p.registers := isWet_showStatus ..
    rw [hwet, p.sumOf_put _ voice status hnew]
    exact h.wet

/-- The last output belongs to the voice that has just run. -/
theorem Mix.Follows.add (h : Follows mask mixed x p) (hlast : x.previous = p.outputs.get index) :
    Follows mask (mixed ++ [index]) (x.add mask index) p := by
  obtain ⟨voices, registers, previous, main, wet⟩ := x
  obtain ⟨rfl, rfl, rfl, rfl⟩ := h
  obtain rfl : previous = p.outputs.get index := hlast
  unfold Mix.add
  cases hbit : bit mask index <;>
    exact ⟨rfl, rfl, by rw [Pass.sumOf_concat, hbit]; rfl, by rw [Pass.sumOf_concat, isWet, hbit]; rfl⟩

theorem Mix.Follows.run (h : Follows mask mixed x p) (hnew : index ∉ mixed) (hprevious : x.previous = p.previous index)
    (m : Memory) (noise : Int) :
    Follows mask (mixed ++ [index]) (x.run m noise mask index) (p.run m noise index) ∧
      (x.run m noise mask index).previous = (p.run m noise index).outputs.get index := by
  have hput (voice : Voice) (status : Voice.Status) :
      (x.put index voice status).previous = (p.put index voice status).outputs.get index := by
    rw [p.get_outputs_put, if_pos rfl]
    rfl
  have hadd (y : Mix) : (y.add mask index).previous = y.previous := by
    unfold Mix.add
    split <;> rfl
  unfold Mix.run
  rw [h.voices, h.registers, hprevious]
  exact ⟨(h.put hnew _ _).add (hput _ _), (hadd _).trans (hput _ _)⟩

end Rounds

/-! ## The whole loop -/

/-- Whether the loop that mixes the voices and a pass have both come to voice `k`. -/
structure Mix.Before (mask : UInt8) (k : Nat) (x : Mix) (p : Pass) : Prop where
  follows : Follows mask ((List.finRange 8).take k) x p
  previous : ∀ index : Fin 8, index.val = k → x.previous = p.previous index

theorem take_finRange_succ (index : Fin 8) :
    (List.finRange 8).take (index + 1) = (List.finRange 8).take index ++ [index] := by
  rw [List.take_succ_eq_append_getElem (by simp), List.getElem_finRange]
  rfl

theorem not_mem_take_finRange (index : Fin 8) : index ∉ (List.finRange 8).take index := by
  revert index
  decide

/-- A voice is modulated by the one before. -/
theorem Pass.previous_of_succ (p : Pass) {index next : Fin 8} (h : next.val = index + 1) :
    p.previous next = p.outputs.get index := by
  obtain ⟨index, hlt⟩ := index
  obtain ⟨next, hnext⟩ := next
  obtain rfl : next = index + 1 := h
  exact dif_pos (Nat.succ_pos index)

theorem Mix.Before.run {mask : UInt8} {x : Mix} {p : Pass} (index : Fin 8) (h : Before mask index x p) (m : Memory)
    (noise : Int) : Before mask (index + 1) (x.run m noise mask index) (p.run m noise index) := by
  obtain ⟨hfollows, hlast⟩ := h.follows.run (not_mem_take_finRange index) (h.previous index rfl) m noise
  rw [← take_finRange_succ] at hfollows
  exact ⟨hfollows, fun next hnext => hlast.trans (Pass.previous_of_succ _ hnext).symm⟩

theorem Mix.before_zero (mask : UInt8) (voices : Vector Voice 8) (r : Registers) :
    Before mask 0 { voices, registers := r } { voices, registers := r } where
  follows := ⟨rfl, rfl, rfl, rfl⟩
  previous index hindex := by
    obtain rfl : index = 0 := Fin.ext hindex
    rfl

/-- Mixing the voices while they run gives the same sums as mixing their outputs once all of them have run. -/
theorem mixVoices_eq (voices : Vector Voice 8) (r : Registers) (m : Memory) (noise : Int) (mask : UInt8) :
    let x := mixVoices voices r m noise mask
    let p := runVoices voices r m noise
    x.voices = p.voices ∧ x.registers = p.registers ∧
      x.main = sum p.registers p.outputs (fun i => !bit mask i) ∧
      x.wet = sum p.registers p.outputs fun i => !bit mask i && bit (p.registers.get Register.eon) i := by
  have hloop : Mix.Before mask 8 (mixVoices voices r m noise mask) (runVoices voices r m noise) :=
    foldl_rel (fun index _ _ h => h.run index m noise) (Mix.before_zero mask voices r)
  obtain ⟨hvoices, hregisters, hmain, hwet⟩ := hloop.follows
  have hall : (List.finRange 8).take 8 = List.finRange 8 := List.take_of_length_le (by simp)
  rw [hall, Pass.sumOf_finRange] at hmain hwet
  exact ⟨hvoices, hregisters, hmain, hwet⟩

/-- **A tick may mix the voices while they run.** -/
theorem tick_eq_mixVoices (d : Dsp) (r : Registers) (m : Memory) (mask : UInt8) :
    d.tick r m mask =
      let noise := d.noise.tick (prepareRegisters r).noiseAmount
      let x := mixVoices (prepareVoices d.voices r) (prepareRegisters r) m noise.sample mask
      let (filtered, echo, m) := d.echo.process x.registers m x.wet
      let lastFrame := finish x.registers x.main filtered
      (lastFrame, { voices := x.voices, noise, echo, lastFrame }, x.registers, m) := by
  obtain ⟨hvoices, hregisters, hmain, hwet⟩ := mixVoices_eq (prepareVoices d.voices r) (prepareRegisters r) m
    (d.noise.tick (prepareRegisters r).noiseAmount).sample mask
  dsimp only
  rw [hvoices, hregisters, hmain, hwet]
  rfl

end Dsp

end SnesSound
