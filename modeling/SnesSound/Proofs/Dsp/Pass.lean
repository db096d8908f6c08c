import SnesSound.Proofs.Dsp.Tick

/-!
# What a tick does to a single voice

A tick runs the voices one after the other and shows the state of each in the registers of its row. A voice sees the
registers that other voices leave, but none of those that they change is of interest to it, and nobody comes back to it
in the same tick. So for each voice by itself, a tick of the sound unit is a tick of the voice, with the registers as
the tick has found them and the output that the voice before has in the end.

Main statement: what is left of a voice after a tick, what it puts out and what it shows come from one tick of the voice
(`voice_pass`).
-/

namespace SnesSound

namespace Register

/-- Every voice has registers of its own. -/
theorem ofVoice_inj {voice other : Fin 8} {column column' : Fin 16} :
    ofVoice voice column = ofVoice other column' ↔ voice = other ∧ column = column' := by
  constructor
  · intro he
    have hval : 16 * voice.val + column.val = 16 * other.val + column'.val := congrArg Fin.val he
    exact ⟨Fin.ext (by omega), Fin.ext (by omega)⟩
  · rintro ⟨rfl, rfl⟩
    rfl

theorem endx_ne_ofVoice (voice : Fin 8) {column : Fin 16} (h : column = 8 ∨ column = 9) :
    endx ≠ ofVoice voice column := (ofVoice_ne_of_column (by decide) (by decide) voice h).symm

end Register

namespace Dsp

/-! ## Before the voices run -/

theorem get_prepareVoices (voices : Vector Voice 8) (r : Registers) (index : Fin 8) :
    (prepareVoices voices r).get index =
      let v := if r.softReset then (voices.get index).reset else voices.get index
      if bit (starting r) index then v.keyOn else v := by
  rw [prepareVoices, get_eq_getElem, get_eq_getElem, Fin.getElem_fin, Vector.getElem_mapFinIdx]
  cases r.softReset <;> simp

/-- A voice is keyed on if its KON bit is set and its KOFF bit is clear. -/
theorem bit_starting (r : Registers) (index : Fin 8) : bit (starting r) index =
    (bit (r.get Register.kon) index && !bit (r.get Register.koff) index) := by
  rw [starting, bit_and, bit_not]

/-- KON bits that are set clear the ENDX bits of their voices. -/
theorem bit_endx_prepareRegisters (r : Registers) (index : Fin 8) :
    bit ((prepareRegisters r).get Register.endx) index =
      (bit (r.get Register.endx) index && !bit (r.get Register.kon) index) := by
  rw [prepareRegisters, Registers.get_store_of_ne _ _ (by decide), Registers.get_store_self, bit_and, bit_not]

/-! ## While they run -/

/-- Whether two stages of a pass agree about a voice. -/
structure Pass.Agree (index : Fin 8) (p q : Pass) : Prop where
  voice : p.voices.get index = q.voices.get index
  output : p.outputs.get index = q.outputs.get index
  envx : p.registers.ofVoice index 8 = q.registers.ofVoice index 8
  outx : p.registers.ofVoice index 9 = q.registers.ofVoice index 9
  endx : bit (p.registers.get Register.endx) index = bit (q.registers.get Register.endx) index

variable {index other : Fin 8}

/-- A voice shows its state in its own row. -/
theorem ofVoice_showStatus (r : Registers) (index : Fin 8) (status : Voice.Status) :
    (showStatus r index status).ofVoice index 8 = status.envx ∧
      (showStatus r index status).ofVoice index 9 = status.outx := by
  have hshow : (r.showVoice index status.envx status.outx).ofVoice index 8 = status.envx ∧
      (r.showVoice index status.envx status.outx).ofVoice index 9 = status.outx := by
    refine ⟨?_, Registers.get_store_self ..⟩
    have hne : Register.ofVoice index 9 ≠ Register.ofVoice index 8 := fun he =>
      absurd (Register.ofVoice_inj.mp he).2 (by decide)
    rw [Registers.ofVoice, Registers.showVoice, Registers.get_store_of_ne _ _ hne]
    exact Registers.get_store_self ..
  unfold showStatus
  dsimp only
  split
  · rw [Registers.ofVoice, Registers.ofVoice, Registers.get_store_of_ne _ _ (Register.endx_ne_ofVoice index (.inl rfl)),
      Registers.get_store_of_ne _ _ (Register.endx_ne_ofVoice index (.inr rfl))]
    exact hshow
  · exact hshow

/-- A voice shows nothing in the rows of others. -/
theorem ofVoice_showStatus_of_ne (h : other ≠ index) (r : Registers) (status : Voice.Status) {column : Fin 16}
    (hc : column = 8 ∨ column = 9) : (showStatus r other status).ofVoice index column = r.ofVoice index column :=
  get_showStatus_of_ne (fun _ he => h (Register.ofVoice_inj.mp he).1) (Register.endx_ne_ofVoice index hc) r status

/-- A voice that passes the end of its sample sets its own bit of ENDX. -/
theorem bit_endx_showStatus (r : Registers) (other : Fin 8) (status : Voice.Status) (index : Fin 8) :
    bit ((showStatus r other status).get Register.endx) index =
      (bit (r.get Register.endx) index || (status.ended && decide (other = index))) := by
  have hshow : (r.showVoice other status.envx status.outx).get Register.endx = r.get Register.endx := by
    rw [Registers.showVoice, Registers.get_store_of_ne _ _ (Register.endx_ne_ofVoice other (.inr rfl)).symm,
      Registers.get_store_of_ne _ _ (Register.endx_ne_ofVoice other (.inl rfl)).symm]
  unfold showStatus
  dsimp only
  split
  next he => rw [Registers.get_store_self, hshow, withBit, if_pos rfl, bit_or, bit_bitMask, he, Bool.true_and]
  next he => rw [hshow, eq_false_of_ne_true he, Bool.false_and, Bool.or_false]

section Run

variable (m : Memory) (noise : Int) (p : Pass)

/-- Running a voice changes nothing about the others. -/
theorem Pass.agree_run_of_ne (h : other ≠ index) : Agree index (p.run m noise other) p where
  voice := (p.get_voices_put ..).trans (if_neg h)
  output := (p.get_outputs_put ..).trans (if_neg h)
  envx := ofVoice_showStatus_of_ne h _ _ (.inl rfl)
  outx := ofVoice_showStatus_of_ne h _ _ (.inr rfl)
  endx := (bit_endx_showStatus ..).trans (by rw [decide_eq_false h, Bool.and_false, Bool.or_false])

/-- Nor does running several others. -/
theorem Pass.agree_foldl_run {others : List (Fin 8)} (h : index ∉ others) :
    Agree index (others.foldl (Pass.run m noise) p) p := by
  refine List.foldlRecOn (motive := fun q : Pass => Agree index q p) _ _ ⟨rfl, rfl, rfl, rfl, rfl⟩ ?_
  intro q hq other hother
  have hne : other ≠ index := fun he => h (he ▸ hother)
  have hrun := q.agree_run_of_ne m noise hne
  exact ⟨hrun.voice.trans hq.voice, hrun.output.trans hq.output, hrun.envx.trans hq.envx, hrun.outx.trans hq.outx,
    hrun.endx.trans hq.endx⟩

/-- Running voices keeps the registers that the sound unit does not change itself. -/
theorem Pass.get_foldl_run_of_kept {a : Fin 128} (ha : Register.Kept a) (others : List (Fin 8)) :
    (others.foldl (Pass.run m noise) p).registers.get a = p.registers.get a :=
  List.foldlRecOn (motive := fun q : Pass => q.registers.get a = p.registers.get a) _ _ rfl
    fun q hq other _ => (get_showStatus_of_kept ha q.registers other _).trans hq

theorem Pass.previous_zero (p : Pass) : p.previous 0 = 0 := rfl

theorem Pass.previous_succ (p : Pass) (k : Fin 7) : p.previous k.succ = p.outputs.get k.castSucc :=
  dif_pos (Nat.succ_pos k.val)

/-- The voice before has run when a voice runs, and does not run again. -/
theorem Pass.previous_foldl_run {others : List (Fin 8)} (h : ∀ other ∈ others, index ≤ other) :
    (others.foldl (Pass.run m noise) p).previous index = p.previous index := by
  unfold previous
  split
  next hpos =>
    have hnot : (⟨index.val - 1, by omega⟩ : Fin 8) ∉ others := fun hmem => by
      have hle : index.val ≤ index.val - 1 := h _ hmem
      omega
    exact (p.agree_foldl_run m noise hnot).output
  next => rfl

end Run

/-! ## Voices by themselves -/

section Voice

variable (d : Dsp) (r : Registers) (m : Memory) (index : Fin 8)

/-- What a tick of the sound unit makes of a voice by itself. -/
def voiceTick : Voice × Voice.Status :=
  ((prepareVoices d.voices r).get index).tick index r m (d.noise.tick r.noiseAmount).sample
    ((d.pass r m).previous index)

/-- Whether a stage of a pass has what a tick has made of a voice, `endx` being its bit of ENDX before. -/
structure Pass.Shows (p : Pass) (index : Fin 8) (result : Voice × Voice.Status) (endx : Bool) : Prop where
  voice : p.voices.get index = result.1
  output : p.outputs.get index = result.2.output
  envx : p.registers.ofVoice index 8 = result.2.envx
  outx : p.registers.ofVoice index 9 = result.2.outx
  endx : bit (p.registers.get Register.endx) index = (endx || result.2.ended)

theorem Pass.shows_run (noise : Int) (p : Pass) : (p.run m noise index).Shows index
    ((p.voices.get index).tick index p.registers m noise (p.previous index))
    (bit (p.registers.get Register.endx) index) where
  voice := (p.get_voices_put ..).trans (if_pos rfl)
  output := (p.get_outputs_put ..).trans (if_pos rfl)
  envx := (ofVoice_showStatus ..).1
  outx := (ofVoice_showStatus ..).2
  endx := by
    have hshow := bit_endx_showStatus p.registers index
      ((p.voices.get index).tick index p.registers m noise (p.previous index)).2 index
    rwa [decide_eq_true rfl, Bool.and_true] at hshow

theorem Pass.Shows.of_agree {p q : Pass} {result : Voice × Voice.Status} {endx : Bool} (h : q.Shows index result endx)
    (hagree : Agree index p q) : p.Shows index result endx :=
  ⟨hagree.voice.trans h.voice, hagree.output.trans h.output, hagree.envx.trans h.envx, hagree.outx.trans h.outx,
    hagree.endx.trans h.endx⟩

/-- Keying on uses up the bits of KON that it has seen. -/
theorem get_kon_pass : (d.pass r m).registers.get Register.kon = r.get Register.kon &&& ~~~starting r := by
  have hshow (r' : Registers) (index : Fin 8) (status : Voice.Status) :
      (showStatus r' index status).get Register.kon = r'.get Register.kon :=
    get_showStatus_of_ne (Register.ofVoice_ne_of_column (by decide) (by decide) index) (by decide) r' status
  exact runVoices_induction (P := fun r' => r'.get Register.kon = r.get Register.kon &&& ~~~starting r)
    (Registers.get_store_self ..) (fun r' index status h => (hshow r' index status).trans h) _ m _

/-- For each voice by itself, a tick of the sound unit is a tick of the voice. -/
theorem voice_pass : (d.pass r m).Shows index (d.voiceTick r m index)
    (bit (r.get Register.endx) index && !bit (r.get Register.kon) index) := by
  obtain ⟨before, after, hsplit⟩ := List.append_of_mem (List.mem_finRange index)
  have hsorted : (before ++ index :: after).Pairwise (· < ·) := hsplit ▸ List.pairwise_lt_finRange 8
  rw [List.pairwise_append, List.pairwise_cons] at hsorted
  obtain ⟨-, ⟨hafter, -⟩, hbefore⟩ := hsorted
  have hnotBefore : index ∉ before := fun hmem => Fin.lt_irrefl _ (hbefore _ hmem _ List.mem_cons_self)
  have hnotAfter : index ∉ after := fun hmem => Fin.lt_irrefl _ (hafter _ hmem)
  have hnotLess : ∀ other ∈ index :: after, index ≤ other := by
    intro other hmem
    rcases List.mem_cons.mp hmem with rfl | hmem
    · exact Fin.le_refl _
    · exact Fin.le_of_lt (hafter _ hmem)
  have hnoise : d.noise.tick (prepareRegisters r).noiseAmount = d.noise.tick r.noiseAmount := by
    rw [Registers.noiseAmount, Registers.noiseAmount, get_prepareRegisters_of_kept (by decide)]
  rw [voiceTick, ← hnoise, pass, runVoices, Fin.foldl_eq_finRange_foldl, hsplit, List.foldl_append]
  generalize (d.noise.tick (prepareRegisters r).noiseAmount).sample = noise
  have hstart := Pass.agree_foldl_run m noise { voices := prepareVoices d.voices r, registers := prepareRegisters r }
    hnotBefore
  have hkept {a : Fin 128} (ha : Register.Kept a) := (Pass.get_foldl_run_of_kept m noise
    { voices := prepareVoices d.voices r, registers := prepareRegisters r } ha before).trans
      (get_prepareRegisters_of_kept ha r)
  generalize before.foldl (Pass.run m noise) _ = p at hstart hkept
  have hlast := Pass.agree_foldl_run m noise (p.run m noise index) hnotAfter
  have hsame : Registers.SameFor index p.registers r := .of_kept fun _ => hkept
  rw [List.foldl_cons, ← hstart.voice, ← hsame.tick, ← bit_endx_prepareRegisters, ← hstart.endx]
  have hprevious := Pass.previous_foldl_run m noise p hnotLess
  rw [List.foldl_cons] at hprevious
  rw [hprevious]
  exact (p.shows_run m index noise).of_agree index hlast

end Voice

end Dsp

end SnesSound
