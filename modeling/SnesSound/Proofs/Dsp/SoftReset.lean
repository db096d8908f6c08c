import SnesSound.Proofs.Dsp.Pass
import SnesSound.Proofs.Dsp.RegisterFile
import SnesSound.Proofs.Dsp.Retrigger
import SnesSound.Proofs.Dsp.SoundUnit

/-!
# Soft resets

While the soft reset bit is set, every tick begins by releasing all voices and silencing their envelopes, and a released
voice without a level comes to its end in the same tick. But the reset leaves announced notes alone, and a note whose
time has come in that tick starts behind the reset, with a new envelope, unless it is announced again or keyed off.

Main statement: after a tick with a soft reset, the voices that have started a note play, and all others are silent
(`softReset_voices`). That notes may start in spite of it is seen in a state that a program gets to by writing to two
registers (`softReset_starts_note`).
-/

namespace SnesSound

namespace Voice

/-! ## Voices that have been reset -/

/-- Whether a voice is released and has no level. -/
structure Muffled (v : Voice) : Prop where
  phase : v.envelope.phase = .release
  level : v.envelope.level = 0

theorem muffled_reset (v : Voice) : v.reset.Muffled := ⟨rfl, rfl⟩

/-- A released voice without a level comes to its end. -/
theorem Muffled.sound {v : Voice} (h : v.Muffled) (index : Fin 8) (r : Registers) (m : Memory) (noise pitch : Int) :
    (v.sound index r m noise pitch).1.playing = false ∧ (v.sound index r m noise pitch).2 = {} := by
  have hstep : v.envelope.step (r.adsr1 index) (r.adsr2 index) (r.gain index) =
      ({ v.envelope with level := 0 }, .finished) := by
    rw [Envelope.step, if_pos h.phase, h.level, if_pos (by decide)]
  unfold Voice.sound
  rw [hstep]
  split
  · exact ⟨rfl, rfl⟩
  · exact ⟨rfl, rfl⟩

theorem Muffled.keyOff {v : Voice} (h : v.Muffled) : v.keyOff.Muffled := by
  unfold Voice.keyOff
  split
  · exact ⟨rfl, h.level⟩
  · exact h

/-- A voice that has been reset is silent after a tick in which it starts no note. -/
theorem Muffled.tick {v : Voice} (h : v.Muffled) {index : Fin 8} {r : Registers}
    (hdue : v.keyOnDelay = 1 → bit (r.get Register.koff) index = true) (m : Memory) (noise previous : Int) :
    (v.tick index r m noise previous).1.playing = false ∧ (v.tick index r m noise previous).2 = {} := by
  by_cases h1 : v.keyOnDelay = 1
  · obtain ⟨u, hu, htick⟩ := v.tick_commence_of_koff index ⟨r, m, noise, previous⟩
      (m.readWord (r.directoryEntry index)) (hdue h1)
    rw [tick_of_due h1]
    change (under index _ ⟨r, m, noise, previous⟩).1.playing = false ∧ (under index _ ⟨r, m, noise, previous⟩).2 = {}
    rw [htick]
    exact ⟨hu.playing, rfl⟩
  · have hcount : (v.countDown m (r.directoryEntry index)).Muffled := by
      unfold countDown
      split
      · exact h
      next hdelay => exact absurd hdelay h1
      · exact ⟨h.phase, h.level⟩
    rw [tick_eq_sound]
    split
    · exact hcount.keyOff.sound index r m noise _
    · exact hcount.sound index r m noise _

/-- A note whose time has come starts and plays, whatever has become of the voice before. -/
theorem playing_tick_of_due {v : Voice} (h : v.keyOnDelay = 1) {index : Fin 8} {r : Registers}
    (hoff : bit (r.get Register.koff) index = false) (m : Memory) (noise previous : Int) :
    (v.tick index r m noise previous).1.playing = true := by
  have htick := v.tick_commence index ⟨r, m, noise, previous⟩ (m.readWord (r.directoryEntry index)) hoff
  rw [tick_of_due h]
  change (under index _ ⟨r, m, noise, previous⟩).1.playing = true
  rw [htick]
  -- None of the first four samples of a note comes from behind the end of a block.
  rfl

/-- A note that is announced comes nearer. -/
theorem tick_of_pending {v : Voice} {n : Nat} (hp : v.playing = false) (hd : v.keyOnDelay = n + 2) (index : Fin 8)
    (r : Registers) (m : Memory) (noise previous : Int) :
    (v.tick index r m noise previous).1.playing = false ∧ (v.tick index r m noise previous).1.keyOnDelay = n + 1 := by
  have hcount : v.countDown m (r.directoryEntry index) = { v with keyOnDelay := n + 1 } := by rw [countDown, hd]
  have hoff : ({ v with keyOnDelay := n + 1 } : Voice).keyOff = { v with keyOnDelay := n + 1 } := by
    rw [keyOff, if_neg (by simp [hp])]
  rw [tick_eq_sound, hcount, hoff, ite_self, sound, if_neg (by simp [hp])]
  exact ⟨rfl, rfl⟩

end Voice

namespace SoundUnit

variable {u : SoundUnit} {index : Fin 8} {n : Nat}

/-! ## Soft resets -/

/-- Whether a note of a voice starts in the next tick: its time has come, and it is neither announced again nor keyed
off. -/
def Due (u : SoundUnit) (index : Fin 8) : Prop :=
  (u.dsp.voices.get index).keyOnDelay = 1 ∧ bit (u.registers.get Register.kon) index = false ∧
    bit (u.registers.get Register.koff) index = false

/-- A note that is due starts, soft reset or not. -/
theorem Due.playing (h : u.Due index) (mask : UInt8) : ((u.tick mask).2.dsp.voices.get index).playing = true := by
  obtain ⟨hdelay, hkon, hkoff⟩ := h
  have hprepared : ((Dsp.prepareVoices u.dsp.voices u.registers).get index).keyOnDelay = 1 := by
    rw [Dsp.get_prepareVoices, Dsp.bit_starting, hkon]
    cases u.registers.softReset
    · exact hdelay
    · exact hdelay
  change ((u.dsp.pass u.registers u.memory).voices.get index).playing = true
  rw [(Dsp.voice_pass u.dsp u.registers u.memory index).voice]
  exact Voice.playing_tick_of_due hprepared hkoff u.memory _ _

/-- A soft reset silences every voice that does not start a note. -/
theorem silent_of_not_due (hreset : u.registers.softReset = true) (h : ¬u.Due index) (mask : UInt8) :
    ((u.tick mask).2.dsp.voices.get index).playing = false ∧
      (u.dsp.pass u.registers u.memory).outputs.get index = 0 ∧
      (u.tick mask).2.registers.ofVoice index 8 = 0 ∧ (u.tick mask).2.registers.ofVoice index 9 = 0 := by
  have hshows := Dsp.voice_pass u.dsp u.registers u.memory index
  have hmuffled : ((Dsp.prepareVoices u.dsp.voices u.registers).get index).Muffled := by
    rw [Dsp.get_prepareVoices, if_pos hreset]
    split
    · exact ⟨rfl, rfl⟩
    · exact Voice.muffled_reset _
  have hdue : ((Dsp.prepareVoices u.dsp.voices u.registers).get index).keyOnDelay = 1 →
      bit (u.registers.get Register.koff) index = true := by
    intro hdelay
    rw [Dsp.get_prepareVoices, if_pos hreset, Dsp.bit_starting] at hdelay
    by_contra hoff
    have hoff' : bit (u.registers.get Register.koff) index = false := Bool.not_eq_true _ ▸ hoff
    cases hkon : bit (u.registers.get Register.kon) index with
    | false =>
      rw [hkon] at hdelay
      exact h ⟨hdelay, hkon, hoff'⟩
    | true =>
      rw [hkon, hoff'] at hdelay
      exact absurd (show Voice.startDelay = 1 from hdelay) (by decide)
  obtain ⟨hplaying, hstatus⟩ : (u.dsp.voiceTick u.registers u.memory index).1.playing = false ∧
      (u.dsp.voiceTick u.registers u.memory index).2 = {} := hmuffled.tick hdue u.memory _ _
  exact ⟨(congrArg Voice.playing hshows.voice).trans hplaying,
    hshows.output.trans (congrArg Voice.Status.output hstatus),
    hshows.envx.trans (congrArg Voice.Status.envx hstatus), hshows.outx.trans (congrArg Voice.Status.outx hstatus)⟩

/-- In a tick with a soft reset, of every voice: it plays afterwards if and only if a note of it was due. Every other
voice puts out nothing in this tick, and its registers show neither level nor output. -/
theorem softReset_voices (u : SoundUnit) (mask : UInt8) (h : u.registers.softReset = true) (index : Fin 8) :
    let after := (u.tick mask).2
    ((after.dsp.voices.get index).playing = true ↔ u.Due index) ∧
      (¬u.Due index → (u.dsp.pass u.registers u.memory).outputs.get index = 0 ∧
        after.registers.ofVoice index 8 = 0 ∧ after.registers.ofVoice index 9 = 0) := by
  intro after
  refine ⟨⟨fun hplaying => ?_, fun hdue => hdue.playing mask⟩, fun hdue => (silent_of_not_due h hdue mask).2⟩
  by_contra hdue
  exact Bool.noConfusion ((silent_of_not_due h hdue mask).1.symm.trans hplaying)

/-- A playing voice is silenced if it awaits no note. -/
theorem softReset_voices_playing :
    let u : SoundUnit :=
      { dsp := { voices := Vector.replicate 8 { playing := true, envelope := { level := 0x7FF } } }
        registers := Registers.zero.store Register.flg 0x80
        memory := .zero }
    u.registers.softReset = true ∧ ((u.tick 0).2.dsp.voices.get 5).playing ≠ true := by
  intro u
  have hreset : u.registers.softReset = true := by decide
  exact ⟨hreset, fun hplaying => absurd ((softReset_voices u 0 hreset 5).1.mp hplaying).1 (by decide)⟩

/-! ## Notes that are announced -/

/-- Whether a voice that does not play awaits a note in `n` ticks that is not announced again. -/
structure Awaits (u : SoundUnit) (index : Fin 8) (n : Nat) : Prop where
  playing : (u.dsp.voices.get index).playing = false
  keyOnDelay : (u.dsp.voices.get index).keyOnDelay = n
  kon : bit (u.registers.get Register.kon) index = false

/-- What a tick makes of a note that is still to come when the tick has seen the key registers. -/
theorem awaits_tick (hp : (u.dsp.voices.get index).playing = false)
    (hd : ((Dsp.prepareVoices u.dsp.voices u.registers).get index).keyOnDelay = n + 2)
    (hk : (bit (u.registers.get Register.kon) index && bit (u.registers.get Register.koff) index) = false)
    (mask : UInt8) : (u.tick mask).2.Awaits index (n + 1) := by
  have hvoice : (u.tick mask).2.dsp.voices.get index = _ := (Dsp.voice_pass u.dsp u.registers u.memory index).voice
  have hprepared : ((Dsp.prepareVoices u.dsp.voices u.registers).get index).playing = false := by
    rw [Dsp.get_prepareVoices]
    dsimp only
    split <;> split <;> exact hp
  obtain ⟨hplaying, hdelay⟩ := Voice.tick_of_pending hprepared hd index u.registers u.memory
    (u.dsp.noise.tick u.registers.noiseAmount).sample ((u.dsp.pass u.registers u.memory).previous index)
  refine ⟨(congrArg Voice.playing hvoice).trans hplaying, (congrArg Voice.keyOnDelay hvoice).trans hdelay, ?_⟩
  have hkon : (u.tick mask).2.registers.get Register.kon = _ := Dsp.get_kon_pass u.dsp u.registers u.memory
  rw [hkon, bit_and, bit_not, Dsp.bit_starting, ← hk]
  cases bit (u.registers.get Register.kon) index <;> simp

/-- The first tick that sees the key-on of a silent voice leaves seven to go. -/
theorem awaits_seven (hp : (u.dsp.voices.get index).playing = false)
    (h : bit (u.registers.get Register.kon) index = true) (h' : bit (u.registers.get Register.koff) index = false)
    (mask : UInt8) : (u.tick mask).2.Awaits index 7 := by
  refine awaits_tick hp (n := 6) ?_ (by rw [h', Bool.and_false]) mask
  rw [Dsp.get_prepareVoices, Dsp.bit_starting, h, h']
  rfl

/-- Every tick brings a note nearer. -/
theorem Awaits.tick (h : u.Awaits index (n + 2)) (mask : UInt8) : (u.tick mask).2.Awaits index (n + 1) := by
  refine awaits_tick h.playing ?_ (by rw [h.kon, Bool.false_and]) mask
  rw [Dsp.get_prepareVoices, Dsp.bit_starting, h.kon]
  cases u.registers.softReset
  · exact h.keyOnDelay
  · exact h.keyOnDelay

/-- So do ticks one after the other. -/
theorem Awaits.after {masks : List UInt8} (h : u.Awaits index (n + 1 + masks.length)) :
    (u.after masks).Awaits index (n + 1) := by
  induction masks generalizing u with
  | nil => exact h
  | cons mask masks ih =>
    have hlength : n + 1 + (mask :: masks).length = n + masks.length + 2 := by
      rw [List.length_cons]
      omega
    rw [hlength] at h
    have hfirst := h.tick mask
    rw [Nat.add_right_comm] at hfirst
    rw [after_cons]
    exact ih hfirst

/-- Ticks keep every register that the sound unit does not change itself. -/
theorem get_after_of_kept {a : Fin 128} (ha : Register.Kept a) (u : SoundUnit) (masks : List UInt8) :
    (u.after masks).registers.get a = u.registers.get a := by
  induction masks generalizing u with
  | nil => rfl
  | cons mask masks ih =>
    rw [after_cons, ih]
    exact Dsp.get_tick_of_kept _ _ _ mask ha

/-- Writing to one register does not change another. -/
theorem get_write_of_ne {address value : UInt8} {a : Fin 128} (h : address.toNat ≠ a.val) (u : SoundUnit) :
    (u.write address value).registers.get a = u.registers.get a := by
  have hwrite := Registers.get_write u.registers (address, value) a
  rwa [Registers.stored, if_neg h] at hwrite

/-- A write to FLG changes it to the value that is written. -/
theorem get_flg_write (u : SoundUnit) (value : UInt8) : (u.write 0x6C value).registers.get Register.flg = value :=
  Registers.get_write u.registers (0x6C, value) Register.flg

/-- A write to another register than KON does not change what a voice awaits. -/
theorem Awaits.write (h : u.Awaits index n) {address : UInt8} (ha : address.toNat ≠ Register.kon.val) (value : UInt8) :
    (u.write address value).Awaits index n where
  playing := h.playing
  keyOnDelay := h.keyOnDelay
  kon := by
    rw [get_write_of_ne ha]
    exact h.kon

/-- A note that is awaited in the next tick is due unless it is keyed off. -/
theorem Awaits.due (h : u.Awaits index 1) (hoff : bit (u.registers.get Register.koff) index = false) :
    u.Due index := ⟨h.keyOnDelay, h.kon, hoff⟩

/-- A new sound unit in which voice 0 is keyed on. -/
def keyedOn : SoundUnit := (⟨{}, .zero, .zero⟩ : SoundUnit).write 0x4C 0x01

/-- Although the soft reset bit has been set seven ticks after its key-on, the voice plays after the next tick. -/
theorem softReset_starts_note :
    let u := (keyedOn.after (List.replicate 7 0)).write 0x6C 0x80
    u.Reachable ∧ u.registers.softReset = true ∧ ((u.tick 0).2.dsp.voices.get 0).playing = true := by
  intro u
  have hannounced : (keyedOn.tick 0).2.Awaits 0 (0 + 1 + (List.replicate 6 (0 : UInt8)).length) :=
    awaits_seven (by decide) (by decide) (by decide) 0
  have hpending : (keyedOn.after (List.replicate 7 0)).Awaits 0 1 := by
    rw [List.replicate_succ, after_cons]
    exact hannounced.after
  have hkoff : keyedOn.registers.get Register.koff = 0 := by decide
  have hreset : u.registers.get Register.flg = 0x80 := get_flg_write _ 0x80
  have hoff : bit (u.registers.get Register.koff) 0 = false := by
    rw [get_write_of_ne (by decide), get_after_of_kept (by decide), hkoff]
    decide
  have hkeyedOn : keyedOn.Reachable := (Reachable.new .zero .zero).write 0x4C 0x01
  refine ⟨(hkeyedOn.after _).write 0x6C 0x80, ?_, ((hpending.write (by decide) 0x80).due hoff).playing 0⟩
  rw [Registers.softReset, hreset]
  decide

end SoundUnit

end SnesSound
