import SnesSound.Proofs.Checked.Dsp
import SnesSound.Proofs.Dsp.Pass
import SnesSound.Proofs.Dsp.Retrigger
import SnesSound.Proofs.Dsp.SoundUnit

/-!
# What a tick shows of the voices

A tick mixes what the voices put out, hands it on to the pitch of the next voice, and shows level and output of every
voice in the registers of its row. There are several ways through a tick of a voice: it may not play, its release may
come to an end, its sample may end, or it goes on. On all of them what is shown is the state of this tick, and a voice
that does not play in the end shows nothing. But it keeps the output of the last tick in which it made a sound, although
it puts out zero, unless its sample has just ended.

Main statements: registers, mix and modulation agree with the voices after a tick (`showsVoices`). That a silent voice
may keep an output is seen in a state that a program gets to by writing to a few registers (`output_left_over`).
-/

namespace SnesSound

namespace Voice

/-! ## Decoding -/

/-- What decoding leaves of a voice besides its place in the sample: it stops the voice if the sample ends, and that is
all. -/
structure Decodes (v w : Voice) (ended : Bool) : Prop where
  keyOnDelay : w.keyOnDelay = v.keyOnDelay
  output : w.output = v.output
  goesOn : w.playing = v.playing ∧ w.envelope = v.envelope ∨
    w.playing = false ∧ w.envelope.level = 0 ∧ ended = true

theorem decodes_silence (n : Nat) (v : Voice) : Decodes v (silence n v) false := by
  induction n generalizing v with
  | zero => exact ⟨rfl, rfl, .inl ⟨rfl, rfl⟩⟩
  | succ n ih =>
    have hrest := ih { v with ring := v.ring.push 0, position := v.position - unit }
    exact ⟨hrest.keyOnDelay, hrest.output, hrest.goesOn⟩

theorem decodes_decodeMany (m : Memory) (entry : UInt16) (n : Nat) (v : Voice) (ended : Bool) :
    Decodes v (decodeMany m entry n v ended).1 (decodeMany m entry n v ended).2 := by
  induction n generalizing v ended with
  | zero => exact ⟨rfl, rfl, .inl ⟨rfl, rfl⟩⟩
  | succ n ih =>
    unfold decodeMany
    split
    · split
      · have hrest := ih ((v.jump (m.readWord (entry + 2))).decodeOne m) true
        exact ⟨hrest.keyOnDelay, hrest.output, hrest.goesOn⟩
      · have hrest := decodes_silence (n + 1) v.stop
        rcases hrest.goesOn with ⟨hplaying, henvelope⟩ | ⟨-, -, hended⟩
        · exact ⟨hrest.keyOnDelay, hrest.output, .inr ⟨hplaying, congrArg Envelope.level henvelope, rfl⟩⟩
        · cases hended
    · have hrest := ih (v.decodeOne m) ended
      exact ⟨hrest.keyOnDelay, hrest.output, hrest.goesOn⟩

/-! ## Ticks -/

/-- What a voice gives to the mix and to the next voice: its output if it plays, and nothing otherwise. -/
def heard (v : Voice) : Int := if v.playing then v.output else 0

/-- Whether a status is that of the voice `w`, as a tick has left it of the voice `v`. -/
structure Shown (v w : Voice) (s : Status) : Prop where
  output : s.output = w.heard
  envx : s.envx = w.envelope.envx
  outx : s.outx = UInt8.ofInt (w.heard / 256)
  level : w.playing = false → w.envelope.level = 0
  /-- The end of a sample is heard as silence; otherwise a voice that does not play keeps its output. -/
  rest : w.playing = false → w.output = if s.ended then 0 else v.output

/-- A voice that makes no sound. -/
theorem shown_stop {v w : Voice} (h : w.output = v.output) : Shown v w.stop {} :=
  ⟨rfl, rfl, rfl, fun _ => rfl, fun _ => h⟩

/-- A voice without a level puts out zero. -/
theorem amplify_of_level {v : Voice} (h : v.envelope.level = 0) (sample : Int) : v.amplify sample = 0 := by
  rw [amplify, h, Int.mul_zero]
  rfl

/-- A voice that makes a sound. -/
theorem shown_play {v : Voice} (h : v.playing = true) (index : Fin 8) (r : Registers) (m : Memory)
    (noise pitch : Int) : Shown v (v.play index r m noise pitch).1 (v.play index r m noise pitch).2 := by
  have hdecodes := decodes_decodeMany m (r.directoryEntry index) v.due v false
  unfold play decode
  generalize decodeMany m (r.directoryEntry index) v.due v false = result at hdecodes
  obtain ⟨w, ended⟩ := result
  dsimp only at hdecodes ⊢
  rcases hdecodes.goesOn with ⟨hplaying, -⟩ | ⟨hplaying, hlevel, hended⟩
  · have hw : w.playing = true := hplaying.trans h
    exact {
      output := (if_pos hw).symm
      envx := rfl
      outx := by rw [heard, if_pos hw]
      level := fun he => Bool.noConfusion (hw.symm.trans he)
      rest := fun he => Bool.noConfusion (hw.symm.trans he) }
  · have hw : ¬w.playing = true := ne_true_of_eq_false hplaying
    have hzero := amplify_of_level hlevel
    exact {
      output := (hzero _).trans (if_neg hw).symm
      envx := rfl
      outx := by rw [heard, if_neg hw, hzero]
      level := fun _ => hlevel
      rest := fun _ => (hzero _).trans (if_pos hended).symm }

/-- On every way through a tick, the status is that of the voice. -/
theorem shown_tick (v : Voice) (index : Fin 8) (r : Registers) (m : Memory) (noise previous : Int) :
    Shown v (v.tick index r m noise previous).1 (v.tick index r m noise previous).2 := by
  have hcount : (v.countDown m (r.directoryEntry index)).output = v.output := by
    unfold countDown
    split <;> rfl
  have hsound {w : Voice} (hw : w.output = v.output) (pitch : Int) :
      Shown v (w.sound index r m noise pitch).1 (w.sound index r m noise pitch).2 := by
    unfold sound
    split
    next hplaying =>
      split
      next envelope _ =>
        have hplay := shown_play (v := { w with envelope }) hplaying index r m noise pitch
        exact { hplay with rest := fun he => (hplay.rest he).trans (by rw [← hw]) }
      next envelope _ => exact shown_stop hw
    next => exact shown_stop hw
  rw [tick_eq_sound]
  split
  · refine hsound ?_ _
    unfold keyOff
    split <;> exact hcount
  · exact hsound hcount _

end Voice

namespace SoundUnit

variable {u : SoundUnit}

/-! ## Registers, mix and modulation -/

/-- The state of a sound unit that a program can get to is within its bounds. -/
theorem Reachable.inRange (h : u.Reachable) : u.dsp.InRange := by
  induction h with
  | new => exact Dsp.inRange_default
  | tick mask _ ih => exact (Checked.tick_eq ih _ _ mask).2
  | write _ _ _ ih => exact ih
  | memory _ _ ih => exact ih

theorem Reachable.level_mem (h : u.Reachable) (index : Fin 8) :
    0 ≤ (u.dsp.voices.get index).envelope.level ∧ (u.dsp.voices.get index).envelope.level ≤ 0x7FF :=
  (h.inRange.voices index.val index.isLt).envelope.level

/-- What is heard of the voices. -/
def heard (u : SoundUnit) : Vector Int 8 := u.dsp.voices.map Voice.heard

/-- What a tick under a mask shows and passes on of its voices. -/
structure ShowsVoices (u : SoundUnit) (mask : UInt8) : Prop where
  /-- The frame is mixed from what is heard of the voices, and so is what goes through the echo unit. -/
  mixed :
    let after := (u.tick mask).2
    (u.tick mask).1 = Dsp.finish after.registers (Dsp.sum after.registers after.heard fun i => !bit mask i)
      (u.dsp.echo.process after.registers u.memory
        (Dsp.sum after.registers after.heard fun i => !bit mask i && bit (after.registers.get Register.eon) i)).1
  /-- What is heard of a voice modulates the next one. -/
  modulated (index : Fin 8) : (u.tick mask).2.dsp.voices.get index =
    (((Dsp.prepareVoices u.dsp.voices u.registers).get index).tick index u.registers u.memory
      (u.dsp.noise.tick u.registers.noiseAmount).sample
      (if 0 < index.val then (u.tick mask).2.heard[index.val - 1]?.getD 0 else 0)).1
  /-- ENVX is the level without its lowest four bits. -/
  envx (index : Fin 8) : (((u.tick mask).2.registers.ofVoice index 8).toNat : Int) =
    ((u.tick mask).2.dsp.voices.get index).envelope.level / 16
  /-- OUTX is the high byte of what is heard. -/
  outx (index : Fin 8) : (((u.tick mask).2.registers.ofVoice index 9).toNat : Int) =
    ((u.tick mask).2.dsp.voices.get index).heard / 256 % 256
  /-- A voice that does not play shows nothing, but it keeps its output unless the end of its sample was passed. -/
  silent (index : Fin 8) (h : ((u.tick mask).2.dsp.voices.get index).playing = false) :
    (u.tick mask).2.registers.ofVoice index 8 = 0 ∧ (u.tick mask).2.registers.ofVoice index 9 = 0 ∧
      ((u.tick mask).2.dsp.voices.get index).output =
        if (u.dsp.voiceTick u.registers u.memory index).2.ended then 0 else (u.dsp.voices.get index).output

section Shown

variable (u : SoundUnit) (mask : UInt8) (index : Fin 8)

/-- What a tick makes of a voice is shown. -/
theorem shown_voiceTick : Voice.Shown (u.dsp.voices.get index) ((u.tick mask).2.dsp.voices.get index)
    (u.dsp.voiceTick u.registers u.memory index).2 := by
  have hvoice : (u.tick mask).2.dsp.voices.get index = (u.dsp.voiceTick u.registers u.memory index).1 :=
    (Dsp.voice_pass u.dsp u.registers u.memory index).voice
  have hkept : ((Dsp.prepareVoices u.dsp.voices u.registers).get index).output = (u.dsp.voices.get index).output := by
    rw [Dsp.get_prepareVoices]
    dsimp only
    split <;> split <;> rfl
  have hshown := Voice.shown_tick ((Dsp.prepareVoices u.dsp.voices u.registers).get index) index u.registers u.memory
    (u.dsp.noise.tick u.registers.noiseAmount).sample ((u.dsp.pass u.registers u.memory).previous index)
  rw [hvoice]
  exact { hshown with rest := fun hplaying => hkept ▸ hshown.rest hplaying }

/-- The voices have put out what is heard of them. -/
theorem outputs_pass : (u.dsp.pass u.registers u.memory).outputs = (u.tick mask).2.heard := by
  apply Vector.ext
  intro i hi
  rw [heard, Vector.getElem_map]
  exact (Dsp.voice_pass u.dsp u.registers u.memory ⟨i, hi⟩).output.trans (u.shown_voiceTick mask ⟨i, hi⟩).output

/-- What is heard of a voice is what the next one met. -/
theorem previous_pass : (u.dsp.pass u.registers u.memory).previous index =
    if 0 < index.val then (u.tick mask).2.heard[index.val - 1]?.getD 0 else 0 := by
  rw [Dsp.Pass.previous, u.outputs_pass mask]
  split
  next => rw [getElem?_pos (u.tick mask).2.heard (index.val - 1) (by omega), Option.getD_some]
  next => rfl

theorem envx_tick : (u.tick mask).2.registers.ofVoice index 8 =
    ((u.tick mask).2.dsp.voices.get index).envelope.envx :=
  (Dsp.voice_pass u.dsp u.registers u.memory index).envx.trans (u.shown_voiceTick mask index).envx

theorem outx_tick : (u.tick mask).2.registers.ofVoice index 9 =
    UInt8.ofInt (((u.tick mask).2.dsp.voices.get index).heard / 256) :=
  (Dsp.voice_pass u.dsp u.registers u.memory index).outx.trans (u.shown_voiceTick mask index).outx

end Shown

/-- A tick leaves registers, mix and modulation that agree with its voices. -/
theorem showsVoices (u : SoundUnit) (mask : UInt8) (h : u.Reachable) : u.ShowsVoices mask where
  mixed := by
    have hmixed : (u.tick mask).1 = Dsp.finish (u.tick mask).2.registers
        (Dsp.sum (u.tick mask).2.registers (u.dsp.pass u.registers u.memory).outputs fun i => !bit mask i)
        (u.dsp.echo.process (u.tick mask).2.registers u.memory
          (Dsp.sum (u.tick mask).2.registers (u.dsp.pass u.registers u.memory).outputs
            fun i => !bit mask i && bit ((u.tick mask).2.registers.get Register.eon) i)).1 := rfl
    rwa [u.outputs_pass mask] at hmixed
  modulated index := by
    have hvoice : (u.tick mask).2.dsp.voices.get index = (u.dsp.voiceTick u.registers u.memory index).1 :=
      (Dsp.voice_pass u.dsp u.registers u.memory index).voice
    rwa [Dsp.voiceTick, u.previous_pass mask index] at hvoice
  envx index := by
    have hlevel := (h.tick mask).level_mem index
    rw [envx_tick, Envelope.envx, toNat_ofInt]
    generalize ((u.tick mask).2.dsp.voices.get index).envelope.level = level at hlevel
    omega
  outx index := by
    rw [outx_tick, toNat_ofInt]
  silent index hplaying := by
    have hshown := u.shown_voiceTick mask index
    refine ⟨?_, ?_, hshown.rest hplaying⟩
    · rw [envx_tick, Envelope.envx, hshown.level hplaying]
      rfl
    · rw [outx_tick, Voice.heard, if_neg (ne_true_of_eq_false hplaying)]
      rfl

/-- A new sound unit in which voice 0 is keyed on, with noise in place of its sample and a fixed level. -/
def noisy : SoundUnit := (((⟨{}, .zero, .zero⟩ : SoundUnit).write 0x07 0x7F).write 0x3D 0x01).write 0x4C 0x01

theorem reachable_noisy : noisy.Reachable :=
  (((Reachable.new .zero .zero).write 0x07 0x7F).write 0x3D 0x01).write 0x4C 0x01

/-- In the tick that starts the noise, it is heard and shown. -/
theorem showsVoices_noisy :
    let u := noisy.after (List.replicate 7 0)
    u.Reachable ∧ u.ShowsVoices 0 ∧ ((u.tick 0).2.dsp.voices.get 0).heard = -32512 := by
  intro u
  have hreachable : u.Reachable := reachable_noisy.after _
  exact ⟨hreachable, showsVoices u 0 hreachable, by decide +kernel⟩

/-- When a soft reset has silenced the noise, the voice still has its output. -/
theorem output_left_over :
    let u := (noisy.after (List.replicate 8 0)).write 0x6C 0x80
    u.Reachable ∧ ((u.tick 0).2.dsp.voices.get 0).playing = false ∧
      ((u.tick 0).2.dsp.voices.get 0).output ≠ 0 := by
  intro u
  exact ⟨(reachable_noisy.after _).write 0x6C 0x80, by decide +kernel⟩

end SoundUnit

end SnesSound
