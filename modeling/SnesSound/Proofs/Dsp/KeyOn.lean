import SnesSound.Proofs.Dsp.RegisterFile
import SnesSound.Proofs.Dsp.Status

/-!
# When notes start

A tick that finds the KON bit of a voice set and its KOFF bit clear announces a note and uses up the bit. From then on
the voice counts down, in that tick already, and starts the note seven ticks later, unless it is announced again or a
tick finds the voice playing with its KOFF bit set. Between ticks a program may write to any registers and change RAM
in any way.

Main statements: the count of a voice tells how long ago its last note was announced (`delay_eq_iff`), so that notes
start seven ticks after they were announced and at no other time (`keyOn_timing`).
-/

namespace SnesSound

namespace Voice

/-! ## Counting down -/

/-- The voice with another count. -/
def withDelay (v : Voice) (n : Nat) : Voice := { v with keyOnDelay := n }

theorem silence_withDelay (k n : Nat) (v : Voice) : silence n (v.withDelay k) = (silence n v).withDelay k := by
  induction n generalizing v with
  | zero => rfl
  | succ n ih => exact ih { v with ring := v.ring.push 0, position := v.position - unit }

/-- The count has no part in what is decoded. -/
theorem decodeMany_withDelay (m : Memory) (entry : UInt16) (k n : Nat) (v : Voice) (ended : Bool) :
    decodeMany m entry n (v.withDelay k) ended =
      ((decodeMany m entry n v ended).1.withDelay k, (decodeMany m entry n v ended).2) := by
  induction n generalizing v ended with
  | zero => rfl
  | succ n ih =>
    rw [decodeMany, decodeMany]
    change (if v.cursor.atEnd then if v.cursor.header.loops then _ else _ else _) = _
    split
    · split
      · exact ih ((v.jump (m.readWord (entry + 2))).decodeOne m) true
      · rw [← silence_withDelay]
        rfl
    · exact ih (v.decodeOne m) ended

/-- Nor has it in the rest of a tick that has seen the key registers. -/
theorem sound_withDelay (v : Voice) (k : Nat) (index : Fin 8) (r : Registers) (m : Memory) (noise pitch : Int) :
    (v.withDelay k).sound index r m noise pitch =
      ((v.sound index r m noise pitch).1.withDelay k, (v.sound index r m noise pitch).2) := by
  have hplay (v : Voice) : (v.withDelay k).play index r m noise pitch =
      ((v.play index r m noise pitch).1.withDelay k, (v.play index r m noise pitch).2) := by
    have hdecode : (v.withDelay k).decode m (r.directoryEntry index) =
        ((v.decode m (r.directoryEntry index)).1.withDelay k, (v.decode m (r.directoryEntry index)).2) :=
      decodeMany_withDelay ..
    rw [play, hdecode]
    rfl
  unfold sound
  by_cases hp : v.playing = true
  · rw [if_pos hp, if_pos (show (v.withDelay k).playing = true from hp),
      show (v.withDelay k).envelope = v.envelope from rfl]
    rcases v.envelope.step (r.adsr1 index) (r.adsr2 index) (r.gain index) with ⟨envelope, outcome⟩
    cases outcome with
    | continues => exact hplay { v with envelope }
    | finished => rfl
  · rw [if_neg hp, if_neg (show ¬(v.withDelay k).playing = true from hp)]
    rfl

section Tick

variable (v : Voice) (index : Fin 8) (r : Registers) (m : Memory) (noise previous : Int)

theorem keyOnDelay_sound (pitch : Int) : (v.sound index r m noise pitch).1.keyOnDelay = v.keyOnDelay :=
  congrArg (fun p : Voice × Status => p.1.keyOnDelay) (v.sound_withDelay v.keyOnDelay index r m noise pitch)

variable {v}

/-- Counting down without coming to the end. -/
theorem countDown_of_ne_one (h : v.keyOnDelay ≠ 1) (entry : UInt16) :
    v.countDown m entry = v.withDelay (v.keyOnDelay - 1) := by
  unfold countDown
  split
  next h0 =>
    obtain ⟨playing, keyOnDelay, cursor, ring, position, envelope, output⟩ := v
    obtain rfl : keyOnDelay = 0 := h0
    rfl
  next h1 => exact absurd h1 h
  next n h2 => rw [h2, withDelay, Nat.add_sub_cancel (n + 1) 1]

theorem countDown_of_one (h : v.keyOnDelay = 1) (entry : UInt16) :
    v.countDown m entry = v.commence (m.readWord entry) := by
  rw [countDown, h]
  rfl

theorem keyOff_withDelay (v : Voice) (n : Nat) :
    (v.withDelay n).keyOff = (v.withDelay 0).keyOff.withDelay (if v.playing then 0 else n) := by
  unfold keyOff
  cases hp : v.playing <;> simp [withDelay, hp]

/-- A tick takes one from the count, and forgets it if it finds the voice playing and keys it off. -/
theorem keyOnDelay_tick (v : Voice) : (v.tick index r m noise previous).1.keyOnDelay =
    if v.playing = true ∧ bit (r.get Register.koff) index = true then 0 else v.keyOnDelay - 1 := by
  rw [tick_eq_sound, keyOnDelay_sound]
  by_cases hd : v.keyOnDelay = 1
  · rw [countDown_of_one m hd, hd, ite_self]
    split <;> rfl
  · rw [countDown_of_ne_one m hd]
    cases bit (r.get Register.koff) index with
    | false => simp [withDelay]
    | true =>
      rw [if_pos rfl, keyOff_withDelay]
      simp [withDelay]

/-- A note that is still to come has no part in a tick. -/
theorem tick_of_ne_one (h : v.keyOnDelay ≠ 1) : ∃ n, (v.tick index r m noise previous).1 =
    ((v.withDelay 0).tick index r m noise previous).1.withDelay n := by
  rw [tick_eq_sound, tick_eq_sound, countDown_of_ne_one m h]
  change ∃ n, _ = ((if bit (r.get Register.koff) index then (v.withDelay 0).keyOff else v.withDelay 0).sound
    index r m noise (pitch r index previous)).1.withDelay n
  split
  · exact ⟨_, by rw [keyOff_withDelay, sound_withDelay]⟩
  · have hsound := (v.withDelay 0).sound_withDelay (v.keyOnDelay - 1) index r m noise (pitch r index previous)
    exact ⟨v.keyOnDelay - 1, congrArg Prod.fst hsound⟩

end Tick

/-- Whether a voice is at the very beginning of a note with the sample at an address. -/
structure AtStart (v : Voice) (address : UInt16) : Prop where
  playing : v.playing = true
  keyOnDelay : v.keyOnDelay = 0
  cursor : v.cursor = { address }
  position : v.position = 3 * unit
  /-- In the attack phase, without a level yet. -/
  envelope : v.envelope = .keyOn

theorem atStart_commence (v : Voice) (address : UInt16) : (v.commence address).AtStart address :=
  ⟨rfl, rfl, rfl, rfl, rfl⟩

end Voice

namespace SoundUnit

variable (u : SoundUnit) (mask : UInt8) (index : Fin 8)

/-! ## What a tick finds -/

/-- Whether the next tick announces a note of a voice. -/
def Consumes : Prop :=
  bit (u.registers.get Register.kon) index = true ∧ bit (u.registers.get Register.koff) index = false

/-- Whether the next tick finds a voice playing and keys it off. -/
def Cancels : Prop :=
  (u.dsp.voices.get index).playing = true ∧ bit (u.registers.get Register.koff) index = true

/-- Whether a note of a voice starts in the next tick: the count is at its last step when the tick has seen KON. -/
def Starts : Prop := ((Dsp.prepareVoices u.dsp.voices u.registers).get index).keyOnDelay = 1

instance : Decidable (u.Consumes index) := inferInstanceAs (Decidable (_ ∧ _))

instance : Decidable (u.Cancels index) := inferInstanceAs (Decidable (_ ∧ _))

instance : Decidable (u.Starts index) := inferInstanceAs (Decidable (_ = _))

/-- Ticks until a note of a voice starts that was announced; 0 if there is none. -/
def delay : Nat := (u.dsp.voices.get index).keyOnDelay

/-- What a voice meets in the next tick. -/
def surroundings : Surroundings where
  registers := u.registers
  memory := u.memory
  noise := (u.dsp.noise.tick u.registers.noiseAmount).sample
  previous := (u.dsp.pass u.registers u.memory).previous index

theorem voice_tick : (u.tick mask).2.dsp.voices.get index =
    (((Dsp.prepareVoices u.dsp.voices u.registers).get index).under index (u.surroundings index)).1 :=
  (Dsp.voice_pass u.dsp u.registers u.memory index).voice

theorem bit_starting_iff : bit (Dsp.starting u.registers) index = true ↔ u.Consumes index := by
  rw [Dsp.bit_starting, Bool.and_eq_true, Bool.not_eq_true', Consumes]

theorem keyOnDelay_prepareVoices : ((Dsp.prepareVoices u.dsp.voices u.registers).get index).keyOnDelay =
    if u.Consumes index then Voice.startDelay else u.delay index := by
  rw [Dsp.get_prepareVoices]
  by_cases hc : u.Consumes index
  · rw [if_pos hc, if_pos ((u.bit_starting_iff index).mpr hc)]
    rfl
  · rw [if_neg hc, if_neg (mt (u.bit_starting_iff index).mp hc)]
    cases u.registers.softReset <;> rfl

theorem playing_prepareVoices : ((Dsp.prepareVoices u.dsp.voices u.registers).get index).playing =
    (u.dsp.voices.get index).playing := by
  rw [Dsp.get_prepareVoices]
  dsimp only
  split <;> split <;> rfl

theorem starts_iff : u.Starts index ↔ ¬u.Consumes index ∧ u.delay index = 1 := by
  rw [Starts, keyOnDelay_prepareVoices]
  split
  next hc => simp [hc, Voice.startDelay]
  next hc => simp [hc]

/-! ## What a tick does -/

/-- A tick that announces a note leaves seven to go, one that keys off leaves no note, any other brings it nearer. -/
theorem delay_tick : (u.tick mask).2.delay index =
    if u.Consumes index then 7 else if u.Cancels index then 0 else u.delay index - 1 := by
  rw [delay, voice_tick, Voice.under, Voice.keyOnDelay_tick, playing_prepareVoices, keyOnDelay_prepareVoices]
  change (if u.Cancels index then _ else _) = _
  by_cases hc : u.Consumes index
  · have hx : ¬u.Cancels index := fun hx => Bool.noConfusion (hc.2.symm.trans hx.2)
    rw [if_neg hx, if_pos hc, if_pos hc]
    rfl
  · rw [if_neg hc, if_neg hc]

/-- What a tick does with the key registers, and with a voice whose note starts or is still to come. -/
structure HeedsKeys : Prop where
  /-- A note starts at the address that the sample directory holds now, in the attack phase of a new envelope. -/
  starts (h : u.Starts index) : ∃ v : Voice,
    v.AtStart (u.memory.readWord (UInt16.ofNat
      (256 * (u.registers.get Register.dir).toNat + 4 * (u.registers.ofVoice index 4).toNat))) ∧
    (u.tick mask).2.dsp.voices.get index = (v.under index (u.surroundings index)).1
  /-- Otherwise the voice goes on as if no note were to come. -/
  goesOn (h : ¬u.Starts index) : ∃ n, (u.tick mask).2.dsp.voices.get index =
    ((((Dsp.prepareVoices u.dsp.voices u.registers).get index).withDelay 0).under index
      (u.surroundings index)).1.withDelay n
  /-- Announcing a note uses up the KON bit of its voice, and all other KON bits stay. -/
  kon (i : Fin 8) : bit ((u.tick mask).2.registers.get Register.kon) i =
    (bit (u.registers.get Register.kon) i && !decide (u.Consumes i))
  /-- A KON bit clears the ENDX bit of its voice, which is set only if the voice passes the end of its sample. -/
  endx (i : Fin 8) : bit ((u.tick mask).2.registers.get Register.endx) i =
    (bit (u.registers.get Register.endx) i && !bit (u.registers.get Register.kon) i ||
      (u.dsp.voiceTick u.registers u.memory i).2.ended)

theorem directoryEntry_eq (r : Registers) : r.directoryEntry index =
    UInt16.ofNat (256 * (r.get Register.dir).toNat + 4 * (r.ofVoice index 4).toNat) := by
  apply UInt16.toNat_inj.mp
  rw [Registers.directoryEntry, Registers.directory, UInt16.toNat_add, UInt16.toNat_mul, toNat_word,
    UInt8.toNat_toUInt16, UInt16.toNat_ofNat']
  simp

theorem heedsKeys : u.HeedsKeys mask index where
  starts h := by
    refine ⟨_, Voice.atStart_commence ((Dsp.prepareVoices u.dsp.voices u.registers).get index) _, ?_⟩
    rw [voice_tick, ← directoryEntry_eq]
    exact congrArg Prod.fst (Voice.tick_of_due h index u.registers u.memory _ _)
  goesOn h := by
    rw [voice_tick]
    exact Voice.tick_of_ne_one index u.registers u.memory _ _ h
  kon i := by
    have hkon : (u.tick mask).2.registers.get Register.kon = _ := Dsp.get_kon_pass u.dsp u.registers u.memory
    have hconsumes : decide (u.Consumes i) =
        (bit (u.registers.get Register.kon) i && !bit (u.registers.get Register.koff) i) := by
      rw [Bool.eq_iff_iff, decide_eq_true_iff, Consumes, Bool.and_eq_true, Bool.not_eq_true']
    rw [hkon, bit_and, bit_not, Dsp.bit_starting, hconsumes]
  endx i := (Dsp.voice_pass u.dsp u.registers u.memory i).endx

/-! ## Runs -/

/-- What happens before a tick, and the mask of the tick. -/
structure Turn where
  /-- Addresses and values of the writes to registers. -/
  writes : List (UInt8 × UInt8)
  /-- What becomes of RAM. -/
  change : Memory → Memory
  mask : UInt8

/-- What a program does before a tick. -/
def before (t : Turn) : SoundUnit :=
  { u with registers := u.registers.writeAll t.writes, memory := t.change u.memory }

/-- The sound unit as a tick of a run finds it. -/
def found (u : SoundUnit) (turns : Nat → Turn) : Nat → SoundUnit
  | 0 => u.before (turns 0)
  | t + 1 => ((u.found turns t).tick (turns t).mask).2.before (turns (t + 1))

/-- Whether a note that tick `s` has announced is still to come when tick `t` begins, since no tick in between has
announced another one or forgotten it. -/
def Pending (turns : Nat → Turn) (s t : Nat) : Prop :=
  s < t ∧ (u.found turns s).Consumes index ∧
    ∀ i, s < i → i < t → ¬(u.found turns i).Consumes index ∧ ¬(u.found turns i).Cancels index

section Run

variable {u index} (turns : Nat → Turn)

theorem delay_found_zero : (u.found turns 0).delay index = (u.dsp.voices.get index).keyOnDelay := rfl

theorem delay_found_succ (t : Nat) : (u.found turns (t + 1)).delay index =
    if (u.found turns t).Consumes index then 7
    else if (u.found turns t).Cancels index then 0
    else (u.found turns t).delay index - 1 := delay_tick ..

theorem pending_succ_of_consumes {t : Nat} (h : (u.found turns t).Consumes index) (s : Nat) :
    u.Pending index turns s (t + 1) ↔ s = t := by
  constructor
  · rintro ⟨hlt, -, hno⟩
    by_contra hne
    exact (hno t (by omega) (Nat.lt_succ_self t)).1 h
  · rintro rfl
    exact ⟨Nat.lt_succ_self s, h, fun i h1 h2 => absurd h1 (by omega)⟩

theorem pending_succ {t : Nat} (h : ¬(u.found turns t).Consumes index) (s : Nat) :
    u.Pending index turns s (t + 1) ↔ u.Pending index turns s t ∧ ¬(u.found turns t).Cancels index := by
  constructor
  · rintro ⟨hlt, hs, hno⟩
    have hne : s ≠ t := fun he => h (he ▸ hs)
    exact ⟨⟨by omega, hs, fun i h1 h2 => hno i h1 (Nat.lt_succ_of_lt h2)⟩, (hno t (by omega) (Nat.lt_succ_self t)).2⟩
  · rintro ⟨⟨hlt, hs, hno⟩, hx⟩
    refine ⟨Nat.lt_succ_of_lt hlt, hs, fun i h1 h2 => ?_⟩
    rcases Nat.lt_or_eq_of_le (Nat.le_of_lt_succ h2) with hlt | rfl
    · exact hno i h1 hlt
    · exact ⟨h, hx⟩

variable (h : (u.dsp.voices.get index).keyOnDelay = 0)

include h

/-- No note is further away than seven ticks. -/
theorem delay_found_le (t : Nat) : (u.found turns t).delay index ≤ 7 := by
  induction t with
  | zero =>
    rw [delay_found_zero, h]
    exact Nat.zero_le 7
  | succ t ih =>
    rw [delay_found_succ]
    split
    · exact Nat.le_refl 7
    · split
      · exact Nat.zero_le 7
      · omega

/-- The count tells how many ticks ago the note was announced that is still to come. -/
theorem delay_eq_iff {j : Nat} (hj : j < 7) (t : Nat) :
    (u.found turns t).delay index = 7 - j ↔ ∃ s, s + j + 1 = t ∧ u.Pending index turns s t := by
  induction t generalizing j with
  | zero =>
    rw [delay_found_zero, h]
    constructor
    · intro he
      omega
    · rintro ⟨s, hs, -⟩
      omega
  | succ t ih =>
    rw [delay_found_succ]
    by_cases hc : (u.found turns t).Consumes index
    · simp only [if_pos hc, pending_succ_of_consumes turns hc]
      constructor
      · intro he
        exact ⟨t, by omega, rfl⟩
      · rintro ⟨s, hs, rfl⟩
        omega
    · simp only [if_neg hc, pending_succ turns hc]
      by_cases hx : (u.found turns t).Cancels index
      · simp only [hx, if_true, not_true_eq_false, and_false, exists_false, iff_false]
        omega
      · simp only [hx, if_false, not_false_eq_true, and_true]
        cases j with
        | zero =>
          have hle := delay_found_le turns h t
          constructor
          · intro he
            omega
          · rintro ⟨s, hs, hlt, -⟩
            omega
        | succ j =>
          have hone : (u.found turns t).delay index - 1 = 7 - (j + 1) ↔ (u.found turns t).delay index = 7 - j := by
            omega
          have hold (s : Nat) : s + (j + 1) + 1 = t + 1 ↔ s + j + 1 = t := by omega
          simp only [hone, hold, ih (Nat.lt_of_succ_lt hj)]

end Run

/-- When notes start. A voice awaits no note; then programs write to registers and change RAM, and ticks follow each
other. A note of the voice starts in tick `t` if and only if the tick seven before announced it, no tick since then and
up to this one has announced another one, and none in between has found the voice playing and keyed it off. A tick that
starts a note does so at the address in the sample directory, with a new envelope in the attack phase, and any other
tick goes on with the voice as it is. Announcing a note uses up the KON bit and no other one, and every KON bit that is
set clears the ENDX bit of its voice. -/
theorem keyOn_timing (u : SoundUnit) (index : Fin 8) (h : (u.dsp.voices.get index).keyOnDelay = 0)
    (turns : Nat → Turn) (t : Nat) :
    ((u.found turns t).Starts index ↔ ∃ s, s + 7 = t ∧ (u.found turns s).Consumes index ∧
      (∀ i, s < i → i ≤ t → ¬(u.found turns i).Consumes index) ∧
      ∀ i, s < i → i < t → ¬(u.found turns i).Cancels index) ∧
    (u.found turns t).HeedsKeys (turns t).mask index := by
  refine ⟨?_, heedsKeys ..⟩
  rw [starts_iff, show 1 = 7 - 6 from rfl, delay_eq_iff turns h (by decide)]
  constructor
  · rintro ⟨hc, s, hs, -, hsc, hno⟩
    refine ⟨s, hs, hsc, fun i h1 h2 => ?_, fun i h1 h2 => (hno i h1 h2).2⟩
    rcases Nat.lt_or_eq_of_le h2 with hlt | rfl
    · exact (hno i h1 hlt).1
    · exact hc
  · rintro ⟨s, hs, hsc, hconsumes, hcancels⟩
    exact ⟨hconsumes t (by omega) (Nat.le_refl t), s, hs, by omega, hsc,
      fun i h1 h2 => ⟨hconsumes i h1 (Nat.le_of_lt h2), hcancels i h1 h2⟩⟩

/-- A note of voice 5 that starts in tick 7 has been announced by tick 0. -/
theorem keyOn_timing_seventh :
    let u : SoundUnit := ⟨{}, .zero, .zero⟩
    let turns : Nat → Turn := fun t => ⟨if t = 0 then [(0x4C, 0x20)] else [], id, 0⟩
    (u.dsp.voices.get 5).keyOnDelay = 0 ∧ (u.found turns 7).Starts 5 ∧ (u.found turns 0).Consumes 5 := by
  intro u turns
  have hnone : (u.dsp.voices.get 5).keyOnDelay = 0 := rfl
  have hstarts : (u.found turns 7).Starts 5 := by decide +kernel
  obtain ⟨s, hs, hconsumes, -⟩ := (keyOn_timing u 5 hnone turns 7).1.mp hstarts
  obtain rfl : s = 0 := by omega
  exact ⟨hnone, hstarts, hconsumes⟩

end SoundUnit

end SnesSound
