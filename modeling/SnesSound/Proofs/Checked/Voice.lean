import SnesSound.Proofs.Checked.Envelope
import SnesSound.Proofs.Checked.Sample
import SnesSound.Proofs.Dsp.Resample

/-!
# Checked voices

A voice between two ticks has an envelope in its range, 16-bit samples in its ring and a position that is at most one
sample behind and eight samples ahead of what is decoded (`Voice.InRange`). Its pitch may be modulated by the output of
the voice before, which is a 16-bit number, so that it can neither become negative nor grow beyond what the position
has room for.

Main statement: a tick of a voice never stops the engine, keeps the voice in its range and puts out a 16-bit number
(`tickVoice_eq`).
-/

namespace SnesSound

/-- Whether a number fits into 16 bits. -/
def Fits16 (x : Int) : Prop := -32768 ≤ x ∧ x ≤ 32767

instance (x : Int) : Decidable (Fits16 x) := inferInstanceAs (Decidable (_ ∧ _))

/-- Whether a voice is in a state that it can get to between two ticks. -/
structure Voice.InRange (v : Voice) : Prop where
  envelope : v.envelope.InRange
  ring : v.ring.Mem (-32768) 32767
  position : -4096 ≤ v.position ∧ v.position ≤ 32767

theorem fits16_zero : Fits16 0 := by decide

theorem fits16_evenBelow {x : Int} (h : Fits16 x) : Fits16 (evenBelow x) := by
  obtain ⟨hlow, hhigh⟩ := h
  unfold Fits16 evenBelow
  omega

theorem Gauss.fits16_interpolate (position : Fin 256) (s0 s1 s2 s3 : Int) :
    Fits16 (interpolate position s0 s1 s2 s3) :=
  fits16_evenBelow (clamp16_mem _)

namespace Voice

variable {v : Voice}

theorem inRange_default : ({} : Voice).InRange where
  envelope := ⟨⟨Int.le_refl _, Envelope.maxLevel_nonneg⟩, by decide, Int.le_refl _⟩
  ring := Ring.mem_zeros (by decide)
  position := by decide

theorem InRange.stop (h : v.InRange) : v.stop.InRange where
  envelope := ⟨⟨Int.le_refl _, Envelope.maxLevel_nonneg⟩, h.envelope.counter⟩
  ring := h.ring
  position := h.position

theorem InRange.reset (h : v.InRange) : v.reset.InRange where
  envelope := ⟨⟨Int.le_refl _, Envelope.maxLevel_nonneg⟩, h.envelope.counter⟩
  ring := h.ring
  position := h.position

theorem InRange.keyOn (h : v.InRange) : v.keyOn.InRange := ⟨h.envelope, h.ring, h.position⟩

theorem InRange.keyOff (h : v.InRange) : v.keyOff.InRange := by
  unfold Voice.keyOff
  split
  · exact ⟨⟨h.envelope.level, h.envelope.counter⟩, h.ring, h.position⟩
  · exact h

theorem InRange.start (h : v.InRange) (address : UInt16) : (v.start address).InRange where
  envelope := inRange_default.envelope
  ring := h.ring.rewind
  position := ⟨(by decide : -4096 ≤ 3 * unit), (by decide : 3 * unit ≤ 32767)⟩

theorem InRange.jump (h : v.InRange) (address : UInt16) : (v.jump address).InRange := ⟨h.envelope, h.ring, h.position⟩

end Voice

namespace Checked

variable {v : Voice}

/-! ## Notes -/

/-- Address of a voice's entry in the sample directory. -/
def directoryEntry (r : Registers) (voice : Fin 8) : Checked UInt16 := do
  let directory ← natural 16 ((r.get Register.dir).toNat * 256)
  let offset ← natural 16 ((r.ofVoice voice 4).toNat * 4)
  return UInt16.ofNat directory + UInt16.ofNat offset

/-- Counts down to an announced note and starts it when its time has come. -/
def countDown (v : Voice) (m : Memory) (entry : UInt16) : Checked Voice :=
  if v.keyOnDelay = 0 then return v
  else do
    let keyOnDelay ← subtract v.keyOnDelay 1
    if keyOnDelay = 0 then do
      let address ← ramWord m entry
      return { v with keyOnDelay }.start address
    else return { v with keyOnDelay }

/-- A page number times 256 is the address of the page. -/
theorem ofNat_mul_256 (page : UInt8) : UInt16.ofNat (page.toNat * 256) = word 0 page := by
  have hlt := page.toNat_lt
  apply UInt16.toNat_inj.mp
  rw [toNat_word, UInt16.toNat_ofNat', Nat.mod_eq_of_lt (by omega)]
  change page.toNat * 256 = 0 + 256 * page.toNat
  omega

theorem directoryEntry_eq (r : Registers) (voice : Fin 8) : directoryEntry r voice = .ok (r.directoryEntry voice) := by
  have hdirectory := (r.get Register.dir).toNat_lt
  have hnumber := (r.ofVoice voice 4).toNat_lt
  have hoffset : UInt16.ofNat ((r.ofVoice voice 4).toNat * 4) = 4 * (r.ofVoice voice 4).toUInt16 := by
    apply UInt16.toNat_inj.mp
    simp [UInt16.toNat_mul, Nat.mul_comm]
  rw [directoryEntry, natural_ok (by omega), ok_bind, natural_ok (by omega), ok_bind, ofNat_mul_256, hoffset]
  rfl

theorem countDown_eq (h : v.InRange) (m : Memory) (entry : UInt16) :
    countDown v m entry = .ok (v.countDown m entry) ∧ (v.countDown m entry).InRange := by
  unfold countDown
  rcases hd : v.keyOnDelay with _ | _ | n
  · simp only [Voice.countDown, hd]
    exact ⟨rfl, h⟩
  · simp only [Voice.countDown, hd, ramWord_eq, ok_bind]
    have h0 : ({ v with keyOnDelay := 0 } : Voice).InRange := ⟨h.envelope, h.ring, h.position⟩
    exact ⟨rfl, h0.start _⟩
  · simp only [Voice.countDown, hd]
    exact ⟨rfl, h.envelope, h.ring, h.position⟩

/-! ## Decoding -/

/-- Opens the next block if the open one is used up. -/
def openBlock (c : Brr.Cursor) (m : Memory) : Checked Brr.Cursor :=
  if c.bytesLeft = 0 then do
    let header ← ramByte m c.address
    return { c with header := .ofByte header, address := c.address + 1, bytesLeft := 8 }
  else return c

/-- Moves behind the next difference of the open block. -/
def advanceCursor (c : Brr.Cursor) : Checked Brr.Cursor :=
  if c.highDone then do
    let bytesLeft ← subtract c.bytesLeft 1
    return { c with address := c.address + 1, bytesLeft, highDone := false }
  else return { c with highDone := true }

/-- Decodes the next sample. -/
def decodeOne (v : Voice) (m : Memory) : Checked Voice := do
  let c ← openBlock v.cursor m
  let byte ← ramByte m c.address
  let cursor ← advanceCursor c
  let old ← ringGet v.ring 3
  let older ← ringGet v.ring 2
  let sample ← decodeSample (Brr.nibble byte !c.highDone) c.header old older
  let ring ← ringPush v.ring sample
  let position ← i32 (v.position - Voice.unit)
  return { v with cursor, ring, position }

/-- Puts `n` zero samples in place of decoded ones. -/
def silence : Nat → Voice → Checked Voice
  | 0, v => return v
  | n + 1, v => do
    let ring ← ringPush v.ring 0
    let position ← i32 (v.position - Voice.unit)
    silence n { v with ring, position }

/-- Decodes `n` samples; `ended` tells whether the end of the sample was passed before. -/
def decodeMany (m : Memory) (entry : UInt16) : Nat → Voice → Bool → Checked (Voice × Bool)
  | 0, v, ended => return (v, ended)
  | n + 1, v, ended =>
    if v.cursor.atEnd then
      if v.cursor.header.loops then do
        let loop ← ramWord m (entry + 2)
        let v ← decodeOne (v.jump loop) m
        decodeMany m entry n v true
      else do
        let v ← silence (n + 1) v.stop
        return (v, true)
    else do
      let v ← decodeOne v m
      decodeMany m entry n v ended

/-- Bytes are counted down only in a block that is open. -/
theorem advanceCursor_openBlock_eq (c : Brr.Cursor) (m : Memory) :
    advanceCursor (c.openBlock m) = .ok (c.openBlock m).advance := by
  have hpos : 1 ≤ (c.openBlock m).bytesLeft := by
    unfold Brr.Cursor.openBlock
    split
    · exact (by decide : 1 ≤ 8)
    next h => exact Nat.pos_of_ne_zero h
  unfold advanceCursor Brr.Cursor.advance
  split
  · rw [subtract_ok hpos]
    rfl
  · rfl

theorem openBlock_eq (c : Brr.Cursor) (m : Memory) : openBlock c m = .ok (c.openBlock m) := by
  unfold openBlock Brr.Cursor.openBlock
  split
  · rw [ramByte_eq]
    rfl
  · rfl

theorem decodeOne_eq (h : v.InRange) (hp : 0 ≤ v.position) (m : Memory) :
    decodeOne v m = .ok (v.decodeOne m) ∧ (v.decodeOne m).InRange := by
  have hposition := h.position
  have hnibble := nibble_mem (m.get (v.cursor.openBlock m).address) !(v.cursor.openBlock m).highDone
  have hunit : Voice.unit = 4096 := rfl
  rw [decodeOne, openBlock_eq, ok_bind, ramByte_eq, ok_bind, advanceCursor_openBlock_eq, ok_bind,
    ringGet_eq _ (by decide) (by decide), ok_bind, ringGet_eq _ (by decide) (by decide), ok_bind,
    decodeSample_eq hnibble _ (h.ring.get 3) (h.ring.get 2), ok_bind, ringPush_eq _ (by decide), ok_bind,
    i32_ok (by omega)]
  refine ⟨rfl, h.envelope, h.ring.push (Brr.decode_mem _ _ _ _), ?_⟩
  change -4096 ≤ v.position - 4096 ∧ v.position - 4096 ≤ 32767
  omega

theorem silence_eq (h : v.InRange) {n : Nat} (hn : 4096 * (n : Int) ≤ v.position + 4096) :
    silence n v = .ok (v.silence n) ∧ (v.silence n).InRange := by
  induction n generalizing v with
  | zero => exact ⟨rfl, h⟩
  | succ n ih =>
    have hposition := h.position
    have hunit : Voice.unit = 4096 := rfl
    have hnext : ({ v with ring := v.ring.push 0, position := v.position - Voice.unit } : Voice).InRange :=
      ⟨h.envelope, h.ring.push (by decide), by simp only; omega⟩
    rw [silence, ringPush_eq _ (by decide), ok_bind, i32_ok (by omega), ok_bind]
    exact ih hnext (by simp only; omega)

theorem decodeMany_eq (h : v.InRange) (m : Memory) (entry : UInt16) {n : Nat}
    (hn : 4096 * (n : Int) ≤ v.position + 4096) (ended : Bool) :
    decodeMany m entry n v ended = .ok (Voice.decodeMany m entry n v ended) ∧
      (Voice.decodeMany m entry n v ended).1.InRange := by
  induction n generalizing v ended with
  | zero => exact ⟨rfl, h⟩
  | succ n ih =>
    have hp : 0 ≤ v.position := by omega
    unfold decodeMany Voice.decodeMany
    split
    · split
      · obtain ⟨hone, hrange⟩ := decodeOne_eq (h.jump (m.readWord (entry + 2))) hp m
        rw [ramWord_eq, ok_bind, hone, ok_bind]
        exact ih hrange (by change _ ≤ v.position - 4096 + 4096; omega) true
      · obtain ⟨hsilence, hrange⟩ := silence_eq h.stop hn
        rw [hsilence]
        exact ⟨rfl, hrange⟩
    · obtain ⟨hone, hrange⟩ := decodeOne_eq h hp m
      rw [hone, ok_bind]
      exact ih hrange (by change _ ≤ v.position - 4096 + 4096; omega) ended

/-- Decodes what is due. -/
def decodeDue (v : Voice) (m : Memory) (entry : UInt16) : Checked (Voice × Bool) := decodeMany m entry v.due v false

theorem position_decode_neg (h : v.InRange) (m : Memory) (entry : UInt16) : (v.decode m entry).1.position < 0 := by
  have hposition := h.position
  rw [Voice.decode, Voice.position_decodeMany]
  unfold Voice.due Voice.unit
  omega

theorem decodeDue_eq (h : v.InRange) (m : Memory) (entry : UInt16) :
    decodeDue v m entry = .ok (v.decode m entry) ∧ (v.decode m entry).1.InRange := by
  have hposition := h.position
  exact decodeMany_eq h m entry (by unfold Voice.due Voice.unit; omega) false

/-! ## Output -/

/-- The pitch at which a voice plays. -/
def pitch (r : Registers) (index : Fin 8) (previous : Int) : Checked Int :=
  if 0 < index.val && bit (r.get Register.pmon) index then do
    let factor ← i32 (previous + 32768)
    let product ← i32 (r.pitch index * factor)
    return product / 32768
  else return r.pitch index

/-- Scales a sample by the level of the envelope. -/
def amplify (v : Voice) (sample : Int) : Checked Int := do
  let product ← i32 (sample * v.envelope.level)
  return evenBelow (product / 2048)

/-- The sample of a voice before its envelope. -/
def source (v : Voice) (noisy : Bool) (noise : Int) : Checked Int :=
  if noisy then return noise else interpolate v.fraction v.ring

/-- One output sample of a sounding voice. -/
def play (v : Voice) (index : Fin 8) (r : Registers) (m : Memory) (noise pitch : Int) :
    Checked (Voice × Voice.Status) := do
  let entry ← directoryEntry r index
  let (v, ended) ← decodeDue v m entry
  let sample ← source v (bit (r.get Register.non) index) noise
  let position ← i32 (v.position + pitch)
  let output ← amplify v sample
  let status := { output, envx := v.envelope.envx, outx := UInt8.ofInt (output / 256), ended }
  return ({ v with position, output }, status)

/-- One output sample of a voice. -/
def tickVoice (v : Voice) (index : Fin 8) (r : Registers) (m : Memory) (noise previous : Int) :
    Checked (Voice × Voice.Status) := do
  let index' ← places 8 index
  let entry ← directoryEntry r index
  let v ← countDown v m entry
  let v := if bit (r.get Register.koff) index' then v.keyOff else v
  if v.playing then do
    let (envelope, outcome) ← stepEnvelope v.envelope (r.adsr1 index) (r.adsr2 index) (r.gain index)
    match outcome with
    | .continues => do
      let pitch ← pitch r index previous
      play { v with envelope } index r m noise pitch
    | .finished => return ({ v with envelope }.stop, {})
  else return (v.stop, {})

theorem pitch_eq (r : Registers) (index : Fin 8) {previous : Int} (h : Fits16 previous) :
    pitch r index previous = .ok (Voice.pitch r index previous) ∧
      0 ≤ Voice.pitch r index previous ∧ Voice.pitch r index previous ≤ 32767 := by
  have hnonneg := Voice.pitch_nonneg r index h.1
  have hlow := (r.ofVoice index 2).toNat_lt
  have hpitch : r.pitch index ≤ 16383 := by
    unfold Registers.pitch
    omega
  have hprevious := h
  unfold Fits16 at hprevious
  unfold pitch Voice.pitch at *
  split
  next hmod =>
    have hproduct : -(16383 * 65535) ≤ r.pitch index * (previous + 32768) ∧
        r.pitch index * (previous + 32768) ≤ 16383 * 65535 := mul_mem (by omega) (by omega)
    rw [if_pos hmod] at hnonneg
    rw [i32_ok (by omega), ok_bind, i32_ok (by omega)]
    exact ⟨rfl, hnonneg, by omega⟩
  next hmod => exact ⟨rfl, by omega, by omega⟩

theorem amplify_eq (h : v.InRange) {sample : Int} (hs : Fits16 sample) :
    amplify v sample = .ok (v.amplify sample) ∧ Fits16 (v.amplify sample) := by
  have hlevel : 0 ≤ v.envelope.level ∧ v.envelope.level ≤ 2047 := h.envelope.level
  unfold Fits16 at hs
  have hproduct : -(32768 * 2047) ≤ sample * v.envelope.level ∧ sample * v.envelope.level ≤ 32768 * 2047 :=
    mul_mem (by omega) (by omega)
  rw [amplify, i32_ok (by omega)]
  exact ⟨rfl, fits16_evenBelow ⟨by omega, by omega⟩⟩

theorem source_eq (h : v.InRange) (noisy : Bool) {noise : Int} (hn : Fits16 noise) :
    source v noisy noise = .ok (if noisy then noise else v.interpolate) ∧
      Fits16 (if noisy then noise else v.interpolate) := by
  cases noisy with
  | true => exact ⟨rfl, hn⟩
  | false => exact ⟨interpolate_eq h.ring v.fraction, Gauss.fits16_interpolate _ _ _ _ _⟩

theorem play_eq (h : v.InRange) (index : Fin 8) (r : Registers) (m : Memory) {noise pitch : Int} (hn : Fits16 noise)
    (hp : 0 ≤ pitch ∧ pitch ≤ 32767) :
    play v index r m noise pitch = .ok (v.play index r m noise pitch) ∧
      (v.play index r m noise pitch).1.InRange ∧ Fits16 (v.play index r m noise pitch).2.output := by
  obtain ⟨hdecode, hrange⟩ := decodeDue_eq h m (r.directoryEntry index)
  have hneg := position_decode_neg h m (r.directoryEntry index)
  rw [play, directoryEntry_eq, ok_bind, hdecode, ok_bind]
  unfold Voice.play
  generalize v.decode m (r.directoryEntry index) = decoded at hrange hneg ⊢
  obtain ⟨u, ended⟩ := decoded
  have hposition : -4096 ≤ u.position ∧ u.position ≤ 32767 := hrange.position
  obtain ⟨hsource, hfits⟩ := source_eq hrange (bit (r.get Register.non) index) hn
  obtain ⟨hamplify, houtput⟩ := amplify_eq hrange hfits
  dsimp only at hneg hsource hamplify ⊢
  rw [hsource, ok_bind, i32_ok (by omega), ok_bind, hamplify, ok_bind]
  exact ⟨rfl, ⟨hrange.envelope, hrange.ring, by simp only; omega⟩, houtput⟩

/-- A tick of a voice never stops the engine. -/
theorem tickVoice_eq (h : v.InRange) (index : Fin 8) (r : Registers) (m : Memory) {noise previous : Int}
    (hn : Fits16 noise) (hp : Fits16 previous) :
    tickVoice v index r m noise previous = .ok (v.tick index r m noise previous) ∧
      (v.tick index r m noise previous).1.InRange ∧ Fits16 (v.tick index r m noise previous).2.output := by
  obtain ⟨hcount, hrange⟩ := countDown_eq h m (r.directoryEntry index)
  rw [tickVoice, places_ok index.isLt, ok_bind, directoryEntry_eq, ok_bind, hcount, ok_bind, Voice.tick]
  have hoff : (if bit (r.get Register.koff) index then (v.countDown m (r.directoryEntry index)).keyOff
      else v.countDown m (r.directoryEntry index)).InRange := by
    split
    · exact hrange.keyOff
    · exact hrange
  dsimp only
  generalize (if bit (r.get Register.koff) index then (v.countDown m (r.directoryEntry index)).keyOff
      else v.countDown m (r.directoryEntry index)) = u at hoff ⊢
  split
  · obtain ⟨hstep, henvelope⟩ := stepEnvelope_eq hoff.envelope (r.adsr1 index) (r.adsr2 index) (r.gain index)
    obtain ⟨hpitch, hpitchRange⟩ := pitch_eq r index hp
    rw [hstep, ok_bind]
    generalize u.envelope.step (r.adsr1 index) (r.adsr2 index) (r.gain index) = next at henvelope ⊢
    obtain ⟨envelope, outcome⟩ := next
    have hu : ({ u with envelope } : Voice).InRange := ⟨henvelope, hoff.ring, hoff.position⟩
    cases outcome with
    | continues =>
      dsimp only
      rw [hpitch, ok_bind]
      exact play_eq hu index r m hn hpitchRange
    | finished => exact ⟨rfl, hu.stop, fits16_zero⟩
  · exact ⟨rfl, hoff.stop, fits16_zero⟩

end Checked

end SnesSound
