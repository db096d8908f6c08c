import SnesSound.Proofs.Dsp.Delay

/-!
# What a tick changes

Of the registers, a tick shows the state of the voices in columns 8 and 9 of their rows and in ENDX, and uses up bits of
KON. A voice reads none of these, but only what it is asked for in its row, its bits of KOFF, PMON and NON, and DIR. In
RAM a tick changes nothing but the current frame of the echo unit's delay line, and not even that while the line is
read-only.

Main statements: a tick keeps every other register (`get_tick_of_kept`) and the rest of RAM
(`get_memory_tick_of_not_within`, `memory_tick_of_readOnly`), and stays in the delay line (`inLine_tick`); a tick of a
voice is the same where the registers that it reads are (`Registers.SameFor.tick`), and without pitch modulation
whatever the voice before puts out (`Voice.tick_of_unmodulated`).
-/

namespace SnesSound

/-! ## Registers -/

namespace Register

/-- Whether a register is never changed by the sound unit itself. -/
def Kept (a : Fin 128) : Prop := a ≠ kon ∧ a ≠ endx ∧ a.val % 16 ≠ 8 ∧ a.val % 16 ≠ 9

instance (a : Fin 128) : Decidable (Kept a) := inferInstanceAs (Decidable (_ ∧ _))

/-- Nothing but the state of voices is shown in columns 8 and 9. -/
theorem ofVoice_ne_of_column {a : Fin 128} (h8 : a.val % 16 ≠ 8) (h9 : a.val % 16 ≠ 9) (voice : Fin 8)
    {column : Fin 16} (hc : column = 8 ∨ column = 9) : ofVoice voice column ≠ a := by
  rintro rfl
  rcases hc with rfl | rfl
  · exact h8 (Nat.mul_add_mod ..)
  · exact h9 (Nat.mul_add_mod ..)

theorem Kept.ne_ofVoice {a : Fin 128} (h : Kept a) (voice : Fin 8) {column : Fin 16} (hc : column = 8 ∨ column = 9) :
    ofVoice voice column ≠ a := ofVoice_ne_of_column h.2.2.1 h.2.2.2 voice hc

/-- What a voice is asked for is kept. -/
theorem kept_ofVoice (voice : Fin 8) {column : Fin 16} (h : column.val < 8) : Kept (ofVoice voice column) := by
  have hval : (ofVoice voice column).val = 16 * voice.val + column.val := rfl
  have hkon : kon.val = 76 := rfl
  have hendx : endx.val = 124 := rfl
  refine ⟨fun he => ?_, fun he => ?_, by omega, by omega⟩
  · have := congrArg Fin.val he
    omega
  · have := congrArg Fin.val he
    omega

end Register

/-! ## What a voice reads -/

/-- Whether two register files are the same where a voice reads them: in its own row from the pitch to the gain, in its
own bits of the registers that have one for each voice, and in the page of the sample directory. -/
structure Registers.SameFor (index : Fin 8) (r r' : Registers) : Prop where
  own : ∀ column : Fin 16, 2 ≤ column.val → column.val < 8 → r.ofVoice index column = r'.ofVoice index column
  koff : bit (r.get Register.koff) index = bit (r'.get Register.koff) index
  pmon : bit (r.get Register.pmon) index = bit (r'.get Register.pmon) index
  non : bit (r.get Register.non) index = bit (r'.get Register.non) index
  dir : r.get Register.dir = r'.get Register.dir

namespace Registers.SameFor

variable {index : Fin 8} {r r' : Registers}

theorem of_kept (h : ∀ a, Register.Kept a → r.get a = r'.get a) : SameFor index r r' where
  own _ _ hc := h _ (Register.kept_ofVoice index hc)
  koff := congrArg (bit · index) (h _ (by decide))
  pmon := congrArg (bit · index) (h _ (by decide))
  non := congrArg (bit · index) (h _ (by decide))
  dir := h _ (by decide)

variable (h : SameFor index r r')

include h

theorem directoryEntry : r.directoryEntry index = r'.directoryEntry index := by
  rw [Registers.directoryEntry, Registers.directoryEntry, directory, directory, h.dir, h.own 4 (by decide) (by decide)]

theorem pitch (previous : Int) : Voice.pitch r index previous = Voice.pitch r' index previous := by
  have hpitch : r.pitch index = r'.pitch index := by
    rw [Registers.pitch, Registers.pitch, h.own 2 (by decide) (by decide), h.own 3 (by decide) (by decide)]
  rw [Voice.pitch, Voice.pitch, h.pmon, hpitch]

theorem play (v : Voice) (m : Memory) (noise pitch : Int) :
    v.play index r m noise pitch = v.play index r' m noise pitch := by
  rw [Voice.play, Voice.play, h.directoryEntry, h.non]

/-- A tick of the voice is the same. -/
theorem tick (v : Voice) (m : Memory) (noise previous : Int) :
    v.tick index r m noise previous = v.tick index r' m noise previous := by
  have hadsr1 : r.adsr1 index = r'.adsr1 index := h.own 5 (by decide) (by decide)
  have hadsr2 : r.adsr2 index = r'.adsr2 index := h.own 6 (by decide) (by decide)
  have hgain : r.gain index = r'.gain index := h.own 7 (by decide) (by decide)
  unfold Voice.tick
  simp only [h.directoryEntry, h.koff, h.pitch, h.play, hadsr1, hadsr2, hgain]

end Registers.SameFor

/-- Without pitch modulation a voice does not hear the one before. -/
theorem Voice.tick_of_unmodulated {index : Fin 8} {r : Registers} (h : bit (r.get Register.pmon) index = false)
    (v : Voice) (m : Memory) (noise previous previous' : Int) :
    v.tick index r m noise previous = v.tick index r m noise previous' := by
  have hpitch : pitch r index previous = pitch r index previous' := by simp [pitch, h]
  rw [tick, tick, hpitch]

namespace Dsp

/-- Running the voices keeps what holds of the registers and is kept by showing the state of a voice. -/
theorem runVoices_induction {P : Registers → Prop} {r : Registers} (h0 : P r)
    (hshow : ∀ r index status, P r → P (showStatus r index status)) (voices : Vector Voice 8) (m : Memory)
    (noise : Int) : P (runVoices voices r m noise).registers := by
  rw [runVoices, Fin.foldl_eq_finRange_foldl]
  exact List.foldlRecOn (motive := fun p : Pass => P p.registers) _ _ h0
    fun p hp index _ => hshow p.registers index _ hp

theorem Pass.get_voices_put (p : Pass) (index i : Fin 8) (voice : Voice) (status : Voice.Status) :
    (p.put index voice status).voices.get i = if index = i then voice else p.voices.get i := by
  rw [put, get_eq_getElem, get_eq_getElem, Fin.getElem_fin, Fin.getElem_fin, Vector.getElem_set]
  simp only [Fin.ext_iff]

theorem Pass.get_outputs_put (p : Pass) (index i : Fin 8) (voice : Voice) (status : Voice.Status) :
    (p.put index voice status).outputs.get i = if index = i then status.output else p.outputs.get i := by
  rw [put, get_eq_getElem, get_eq_getElem, Fin.getElem_fin, Fin.getElem_fin, Vector.getElem_set]
  simp only [Fin.ext_iff]

variable {a : Fin 128}

theorem get_prepareRegisters_of_kept (h : Register.Kept a) (r : Registers) : (prepareRegisters r).get a = r.get a := by
  rw [prepareRegisters, Registers.get_store_of_ne _ _ h.1.symm, Registers.get_store_of_ne _ _ h.2.1.symm]

/-- A voice shows its state in two registers of its row and in ENDX. -/
theorem get_showStatus_of_ne {index : Fin 8}
    (hrow : ∀ {column : Fin 16}, column = 8 ∨ column = 9 → Register.ofVoice index column ≠ a)
    (hend : Register.endx ≠ a) (r : Registers) (status : Voice.Status) :
    (showStatus r index status).get a = r.get a := by
  have hshow : (r.showVoice index status.envx status.outx).get a = r.get a := by
    rw [Registers.showVoice, Registers.get_store_of_ne _ _ (hrow (.inr rfl)),
      Registers.get_store_of_ne _ _ (hrow (.inl rfl))]
  unfold showStatus
  dsimp only
  split
  · rw [Registers.get_store_of_ne _ _ hend, hshow]
  · exact hshow

theorem get_showStatus_of_kept (h : Register.Kept a) (r : Registers) (index : Fin 8) (status : Voice.Status) :
    (showStatus r index status).get a = r.get a := get_showStatus_of_ne (h.ne_ofVoice index) h.2.1.symm r status

variable (d : Dsp) (r : Registers) (m : Memory) (mask : UInt8)

/-- The voices and registers of a tick after all voices have run. -/
def pass : Pass :=
  runVoices (prepareVoices d.voices r) (prepareRegisters r) m (d.noise.tick (prepareRegisters r).noiseAmount).sample

theorem registers_tick : (d.tick r m mask).2.2.1 = (d.pass r m).registers := rfl

theorem voices_tick : (d.tick r m mask).2.1.voices = (d.pass r m).voices := rfl

theorem noise_tick : (d.tick r m mask).2.1.noise = d.noise.tick (prepareRegisters r).noiseAmount := rfl

theorem lastFrame_tick : (d.tick r m mask).2.1.lastFrame = (d.tick r m mask).1 := rfl

/-- A tick keeps every register that the sound unit does not change itself. -/
theorem get_tick_of_kept (h : Register.Kept a) : (d.tick r m mask).2.2.1.get a = r.get a :=
  runVoices_induction (P := fun r' => r'.get a = r.get a) (get_prepareRegisters_of_kept h r)
    (fun r' index status h' => (get_showStatus_of_kept h r' index status).trans h') _ m _

/-! ## The echo unit -/

/-- What a tick brings to the echo unit. -/
def turn : Echo.Turn where
  registers := (d.pass r m).registers
  input :=
    let p := d.pass r m
    sum p.registers p.outputs fun i => !bit mask i && bit (p.registers.get Register.eon) i

/-- In a tick the echo unit does what it does with the voices of the tick. -/
theorem echo_memory_tick :
    ((d.tick r m mask).2.1.echo, (d.tick r m mask).2.2.2) = Echo.turn (d.echo, m) (d.turn r m mask) := rfl

theorem echo_tick : (d.tick r m mask).2.1.echo =
    { offset := Echo.nextOffset d.echo.offset (d.pass r m).registers.echoLength
      history := d.echo.history.zipWith Ring.push (Echo.readFrame m (d.echo.address (d.pass r m).registers)) } := rfl

theorem registers_turn : (d.turn r m mask).registers = (d.tick r m mask).2.2.1 := rfl

theorem echoReadOnly_tick : (d.tick r m mask).2.2.1.echoReadOnly = r.echoReadOnly := by
  rw [Registers.echoReadOnly, Registers.echoReadOnly, get_tick_of_kept _ _ _ _ (by decide)]

theorem address_tick : d.echo.address (d.tick r m mask).2.2.1 = d.echo.address r := by
  rw [Echo.address, Echo.address, Registers.echoStart, Registers.echoStart, get_tick_of_kept _ _ _ _ (by decide)]

theorem keeps_turn : (d.turn r m mask).Keeps r where
  esa := get_tick_of_kept d r m mask (by decide)
  edl := get_tick_of_kept d r m mask (by decide)
  outside w hw := absurd hw List.not_mem_nil

variable {r}

/-- A tick goes on to another frame of the delay line. -/
theorem inLine_tick {d : Dsp} (h : d.echo.InLine r) :
    (d.tick r m mask).2.1.echo.InLine (d.tick r m mask).2.2.1 := by
  have hkeeps := keeps_turn d r m mask
  have hnext := Echo.InLine.turn (s := (d.echo, m)) h hkeeps
  exact ⟨hnext.dvd, Nat.lt_of_lt_of_eq hnext.lt hkeeps.echoLength_eq.symm⟩

/-- A tick keeps RAM while the delay line is read-only. -/
theorem memory_tick_of_readOnly (h : r.echoReadOnly = true) : (d.tick r m mask).2.2.2 = m :=
  Echo.memory_turn_of_readOnly (s := (d.echo, m)) (t := d.turn r m mask) ((echoReadOnly_tick d r m mask).trans h)

variable {m}

/-- A tick keeps RAM outside of the current frame of the delay line. -/
theorem get_memory_tick_of_not_within {a : UInt16} (h : ¬Within (d.echo.address r) 4 a) :
    (d.tick r m mask).2.2.2.get a = m.get a := by
  refine Echo.get_turn_of_not_within (s := (d.echo, m)) (t := d.turn r m mask) fun hw => h ?_
  rwa [registers_turn, address_tick] at hw

/-- A tick keeps RAM outside of the delay line. -/
theorem get_memory_tick_of_not_within_line {d : Dsp} (h : d.echo.InLine r) {a : UInt16}
    (ha : ¬Within r.echoStart r.echoLength a) : (d.tick r m mask).2.2.2.get a = m.get a :=
  get_memory_tick_of_not_within d mask fun hw => ha (h.within_line hw)

end Dsp

end SnesSound
