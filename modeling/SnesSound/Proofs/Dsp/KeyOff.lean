import SnesSound.Proofs.Dsp.KeyOn

/-!
# How notes end

A tick that finds a voice playing with its KOFF bit set releases it. From then on the level falls by 8 in every tick,
until nothing is left or the sample ends, and whatever a program writes in the meantime, no tick takes the release back.
A note that was announced while the voice was playing is forgotten; one that starts in the very tick that releases it is
over in the same tick.

Main statement: a note that is keyed off is over after as many ticks as its level gives (`keyOff_ends_note`).
-/

namespace SnesSound

namespace Voice

/-! ## Released voices -/

/-- Whether a tick that has seen the key registers finds a voice, as long as it plays, released from a given level, or
silenced. -/
structure Released (v : Voice) (left : Int) : Prop where
  keyOnDelay : v.keyOnDelay = 0
  phase (h : v.playing = true) : v.envelope.phase = .release
  level (h : v.playing = true) : v.envelope.level = left ∨ v.envelope.level = 0

/-- Whether a voice, as long as it plays, is released and has a given level left. -/
structure Fading (v : Voice) (left : Int) : Prop where
  keyOnDelay : v.keyOnDelay = 0
  phase (h : v.playing = true) : v.envelope.phase = .release
  level (h : v.playing = true) : v.envelope.level = left
  pos (h : v.playing = true) : 0 < left

variable {v : Voice} {level : Int}

section Tick

variable (index : Fin 8) (r : Registers) (m : Memory) (noise : Int)

/-- A voice that makes a sound and does not stop keeps its envelope. -/
theorem envelope_play {pitch : Int} (h : (v.play index r m noise pitch).1.playing = true) :
    (v.play index r m noise pitch).1.envelope = v.envelope := by
  have hdecodes := decodes_decodeMany m (r.directoryEntry index) v.due v false
  rcases hdecodes.goesOn with ⟨-, henvelope⟩ | ⟨hstopped, -, -⟩
  · exact henvelope
  · exact absurd h (ne_true_of_eq_false hstopped)

theorem Released.sound (h : v.Released level) (pitch : Int) :
    (v.sound index r m noise pitch).1.Fading (level - 8) := by
  have hdelay : (v.sound index r m noise pitch).1.keyOnDelay = 0 :=
    (v.keyOnDelay_sound index r m noise pitch).trans h.keyOnDelay
  -- Only a voice that goes on playing has anything left to show.
  suffices hrest : (v.sound index r m noise pitch).1.playing = true →
      (v.sound index r m noise pitch).1.envelope.phase = .release ∧
        (v.sound index r m noise pitch).1.envelope.level = level - 8 ∧ 0 < level - 8 from
    ⟨hdelay, fun hp => (hrest hp).1, fun hp => (hrest hp).2.1, fun hp => (hrest hp).2.2⟩
  unfold Voice.sound
  by_cases hplaying : v.playing = true
  · have hphase := h.phase hplaying
    have hlevel := h.level hplaying
    rw [if_pos hplaying, Envelope.step, if_pos hphase]
    by_cases hle : v.envelope.level ≤ 8
    · rw [if_pos hle]
      intro hstopped
      cases hstopped
    · rw [if_neg hle]
      intro hp
      rw [envelope_play index r m noise hp]
      exact ⟨hphase, by dsimp only; omega, by omega⟩
  · rw [if_neg hplaying]
    intro hstopped
    cases hstopped

/-- Keying off a voice that plays. -/
theorem released_keyOff (hp : v.playing = true) (hlevel : v.envelope.level = level ∨ v.envelope.level = 0) :
    v.keyOff.Released level := by
  rw [Voice.keyOff, if_pos hp]
  exact ⟨rfl, fun _ => rfl, fun _ => hlevel⟩

theorem Released.keyOff (h : v.Released level) : v.keyOff.Released level := by
  by_cases hp : v.playing = true
  · exact released_keyOff hp (h.level hp)
  · rwa [Voice.keyOff, if_neg hp]

/-- A voice that is released goes on fading. -/
theorem Released.tick (h : v.Released level) (previous : Int) :
    (v.tick index r m noise previous).1.Fading (level - 8) := by
  have hcount : v.countDown m (r.directoryEntry index) = v := by
    unfold countDown
    rw [h.keyOnDelay]
  rw [tick_eq_sound, hcount]
  split
  · exact h.keyOff.sound index r m noise _
  · exact h.sound index r m noise _

/-- A tick releases a voice that plays, or that starts a note in this tick. -/
theorem fading_tick_of_koff (hoff : bit (r.get Register.koff) index = true)
    (hp : v.playing = true ∨ v.keyOnDelay = 1)
    (hlevel : v.keyOnDelay ≠ 1 → v.envelope.level = level ∨ v.envelope.level = 0) (previous : Int) :
    (v.tick index r m noise previous).1.Fading (level - 8) := by
  rw [tick_eq_sound, if_pos hoff]
  refine Released.sound index r m noise ?_ _
  by_cases hdue : v.keyOnDelay = 1
  · rw [countDown_of_one m hdue]
    exact released_keyOff rfl (.inr rfl)
  · rw [countDown_of_ne_one m hdue]
    exact released_keyOff (hp.resolve_right hdue) (hlevel hdue)

end Tick

/-- A soft reset silences a voice that fades, and does nothing else to it. -/
theorem Fading.reset (h : v.Fading level) : v.reset.Released level := ⟨h.keyOnDelay, fun _ => rfl, fun _ => .inr rfl⟩

theorem Fading.released (h : v.Fading level) : v.Released level := ⟨h.keyOnDelay, h.phase, fun hp => .inl (h.level hp)⟩

end Voice

namespace SoundUnit

variable {u : SoundUnit} {index : Fin 8} {level : Int}

/-! ## Ticks -/

/-- Whether the next tick finds a voice playing, if only since this tick, and keys it off. -/
def Releases (u : SoundUnit) (index : Fin 8) : Prop :=
  ((u.dsp.voices.get index).playing = true ∨ u.Starts index) ∧ bit (u.registers.get Register.koff) index = true

instance : Decidable (u.Releases index) := inferInstanceAs (Decidable (_ ∧ _))

/-- A tick that announces no note only resets a voice before it runs it. -/
theorem get_prepareVoices_of_not_consumes (h : ¬u.Consumes index) :
    (Dsp.prepareVoices u.dsp.voices u.registers).get index =
      if u.registers.softReset then (u.dsp.voices.get index).reset else u.dsp.voices.get index := by
  rw [Dsp.get_prepareVoices]
  exact if_neg (mt (u.bit_starting_iff index).mp h)

/-- A tick that announces no note goes on with a voice that fades. -/
theorem fading_tick (h : (u.dsp.voices.get index).Fading level) (hno : ¬u.Consumes index) (mask : UInt8) :
    ((u.tick mask).2.dsp.voices.get index).Fading (level - 8) := by
  rw [voice_tick, get_prepareVoices_of_not_consumes hno]
  split
  · exact h.reset.tick index _ _ _ _
  · exact h.released.tick index _ _ _ _

/-- The first tick of a release. -/
theorem fading_tick_of_releases (h : u.Releases index)
    (hlevel : ¬u.Starts index → (u.dsp.voices.get index).envelope.level = level) (mask : UInt8) :
    ((u.tick mask).2.dsp.voices.get index).Fading (level - 8) := by
  obtain ⟨hfound, hoff⟩ := h
  have hno : ¬u.Consumes index := fun hc => Bool.noConfusion (hc.2.symm.trans hoff)
  rw [voice_tick]
  refine Voice.fading_tick_of_koff index _ _ _ hoff ?_ (fun hdue => ?_) _
  · rwa [playing_prepareVoices]
  · rw [get_prepareVoices_of_not_consumes hno]
    split
    · exact .inr rfl
    · exact .inl (hlevel hdue)

/-! ## Runs -/

section Run

variable (turns : Nat → Turn) (t : Nat)

/-- A voice after tick `t` of a run. -/
def voiceAfter (u : SoundUnit) (index : Fin 8) : Voice :=
  ((u.found turns t).tick (turns t).mask).2.dsp.voices.get index

theorem voice_found_succ : (u.found turns (t + 1)).dsp.voices.get index = u.voiceAfter turns t index := rfl

variable {turns t}

/-- A voice that a run releases in its first tick fades until it is keyed on again. -/
theorem fading_voiceAfter (h : (u.found turns 0).Releases index)
    (hlevel : ¬(u.found turns 0).Starts index → (u.dsp.voices.get index).envelope.level = level)
    (hno : ∀ i, 1 ≤ i → i ≤ t → ¬(u.found turns i).Consumes index) :
    (u.voiceAfter turns t index).Fading (level - 8 * (t + 1)) := by
  induction t with
  | zero => exact fading_tick_of_releases h hlevel _
  | succ t ih =>
    have hbefore := ih fun i h1 h2 => hno i h1 (Nat.le_succ_of_le h2)
    rw [← voice_found_succ] at hbefore
    have hnext := fading_tick hbefore (hno (t + 1) (Nat.succ_pos t) (Nat.le_refl _)) (turns (t + 1)).mask
    rwa [show level - 8 * (t + 1) - 8 = level - 8 * ((t + 1 : Nat) + 1) by omega] at hnext

end Run

/-- How key-off ends a note. A program gets to a sound unit, writes to registers and changes RAM, and the next tick
finds a voice playing with its KOFF bit set, or starts a note of it in spite of that. This is the first of several
ticks, and whatever the program writes in between, none of the later ones announces another note of the voice. As long
as the voice still plays, its level has fallen by 8 in every tick; after as many ticks as its level has eighths, rounded
up, it does not play any more, which is after 256 ticks at the latest; and a note that was announced before does not
start later, or is over in the tick that starts it. -/
theorem keyOff_ends_note (u : SoundUnit) (hu : u.Reachable) (index : Fin 8) (turns : Nat → Turn)
    (h : (u.found turns 0).Releases index) (t : Nat)
    (hno : ∀ i, 1 ≤ i → i ≤ t → ¬(u.found turns i).Consumes index) :
    let level := (u.dsp.voices.get index).envelope.level
    let voice := u.voiceAfter turns t index
    (voice.playing = true → voice.envelope.phase = .release ∧ voice.envelope.level = level - 8 * (t + 1)) ∧
      (max 1 ((level + 7) / 8) ≤ t + 1 → voice.playing = false) ∧ max 1 ((level + 7) / 8) ≤ 256 ∧
      ¬(u.found turns (t + 1)).Starts index ∧ ((u.found turns 0).Starts index → voice.playing = false) := by
  intro level voice
  have hfading : voice.Fading (level - 8 * (t + 1)) := fading_voiceAfter h (fun _ => rfl) hno
  have hrange : 0 ≤ level ∧ level ≤ 0x7FF := hu.level_mem index
  refine ⟨fun hp => ⟨hfading.phase hp, hfading.level hp⟩, fun hle => ?_, by omega, ?_, fun hstarts => ?_⟩
  · by_contra hp
    have hpos := hfading.pos (by simpa using hp)
    omega
  · rw [starts_iff]
    rintro ⟨-, hdelay⟩
    rw [delay, voice_found_succ, hfading.keyOnDelay] at hdelay
    cases hdelay
  · have hsilent : voice.Fading (0 - 8 * (t + 1)) := fading_voiceAfter h (fun hnot => absurd hstarts hnot) hno
    by_contra hp
    have hpos := hsilent.pos (by simpa using hp)
    omega

/-- The noise of `noisy` at the lowest gain. -/
def faint : SoundUnit := (noisy.write 0x07 0x01).after (List.replicate 8 0)

theorem reachable_faint : faint.Reachable := (reachable_noisy.write 0x07 0x01).after _

/-- Its level is 16, so two ticks end it, although KOFF is cleared and the gain raised between them. -/
theorem keyOff_ends_note_faint :
    let turns : Nat → Turn := fun t => ⟨if t = 0 then [(0x5C, 0x01)] else [(0x5C, 0x00), (0x07, 0x7F)], id, 0⟩
    faint.Reachable ∧ (faint.found turns 0).Releases 0 ∧ (faint.voiceAfter turns 0 0).playing = true ∧
      (faint.voiceAfter turns 1 0).playing = false := by
  intro turns
  obtain ⟨hreleases, hlevel, hconsumes, hplaying⟩ : (faint.found turns 0).Releases 0 ∧
      (faint.dsp.voices.get 0).envelope.level = 16 ∧ ¬(faint.found turns 1).Consumes 0 ∧
      (faint.voiceAfter turns 0 0).playing = true := by decide +kernel
  have hno (i : Nat) (h1 : 1 ≤ i) (h2 : i ≤ 1) : ¬(faint.found turns i).Consumes 0 := by
    obtain rfl : i = 1 := by omega
    exact hconsumes
  have hends := (keyOff_ends_note faint reachable_faint 0 turns hreleases 1 hno).2.1
  rw [hlevel] at hends
  exact ⟨reachable_faint, hreleases, hplaying, hends (by decide)⟩

end SoundUnit

end SnesSound
