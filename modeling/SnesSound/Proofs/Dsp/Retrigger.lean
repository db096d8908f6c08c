import Mathlib.Data.List.Forall2
import SnesSound.Proofs.Dsp.Resample
import SnesSound.Proofs.Dsp.Silent

/-!
# What a note takes over from the one before

A new note goes back to the front of its ring and leaves the samples there, so its first block may be predicted from
what the voice has played before. Two voices that start the same note are compared tick by tick. They never differ in
anything but samples (`Alike`): it is decided by registers, memory and positions alone what is decoded and when, how the
envelope goes and when the note ends. The first tick replaces all four samples in the ring, and the third sample of a
note depends on its first two and nothing before; so if these two are the same, the first tick leaves the same voice.

Main statement: two notes are the same, tick by tick, if and only if their first two samples are (`notes_eq_iff`).
-/

namespace SnesSound

open Brr

/-- What a tick of a voice depends on besides the voice. -/
structure Surroundings where
  registers : Registers
  memory : Memory
  noise : Int
  /-- Output of the voice before. -/
  previous : Int

namespace Stream

variable (S : Stream) (old older : Int)

/-- The blocks of a stream do not depend on the samples before it. -/
theorem block_with (j : Nat) : ({ S with old, older } : Stream).block j = S.block j := by
  induction j with
  | zero => rfl
  | succ j ih =>
    rw [block, block, ih]
    rfl

theorem sample_add_two (n : Nat) : S.sample (n + 2) =
    match S.block ((n + 2) / 16) with
    | some a => decode (S.difference a ((n + 2) % 16)) (S.header a) (S.sample (n + 1)) (S.sample n)
    | none => 0 := rfl

variable {S old older}

/-- From the third sample on, a stream does not depend on the samples before it. -/
theorem sample_with (h0 : ({ S with old, older } : Stream).sample 0 = S.sample 0)
    (h1 : ({ S with old, older } : Stream).sample 1 = S.sample 1) (n : Nat) :
    ({ S with old, older } : Stream).sample n = S.sample n := by
  induction n using Nat.strongRecOn with
  | ind n ih =>
    match n with
    | 0 => exact h0
    | 1 => exact h1
    | n + 2 =>
      rw [sample_add_two, sample_add_two, block_with, ih (n + 1) (by omega), ih n (by omega)]
      rfl

end Stream

/-- Four samples fill a ring from its front on. -/
theorem Ring.foldl_push_four {r : Ring 4} (h : r.next = 0) (a b c d : Int) :
    [a, b, c, d].foldl push r = ⟨#v[a, b, c, d], 0⟩ := by
  obtain ⟨cells, next⟩ := r
  obtain rfl : next = 0 := h
  have hcells : (((cells.set 0 a).set 1 b).set 2 c).set 3 d = #v[a, b, c, d] := by
    apply Vector.ext
    intro i hi
    obtain rfl | rfl | rfl | rfl : i = 0 ∨ i = 1 ∨ i = 2 ∨ i = 3 := by omega
    all_goals simp
  rw [← hcells]
  simp only [List.foldl_cons, List.foldl_nil, push, place, Ring.mk.injEq]
  exact ⟨rfl, rfl⟩

namespace Voice

/-! ## What voices have in common -/

/-- A tick of a voice that has seen the key registers. -/
def sound (v : Voice) (index : Fin 8) (r : Registers) (m : Memory) (noise pitch : Int) : Voice × Status :=
  if v.playing then
    match v.envelope.step (r.adsr1 index) (r.adsr2 index) (r.gain index) with
    | (envelope, .continues) => { v with envelope }.play index r m noise pitch
    | (envelope, .finished) => ({ v with envelope }.stop, {})
  else (v.stop, {})

/-- A tick first sees the key registers, then the voice sounds. -/
theorem tick_eq_sound (v : Voice) (index : Fin 8) (r : Registers) (m : Memory) (noise previous : Int) :
    v.tick index r m noise previous =
      (if bit (r.get Register.koff) index then (v.countDown m (r.directoryEntry index)).keyOff
        else v.countDown m (r.directoryEntry index)).sound index r m noise (pitch r index previous) := rfl

/-- Whether two voices differ in nothing but the samples in their rings and their last outputs. -/
structure Alike (v w : Voice) : Prop where
  playing : v.playing = w.playing
  keyOnDelay : v.keyOnDelay = w.keyOnDelay
  cursor : v.cursor = w.cursor
  next : v.ring.next = w.ring.next
  position : v.position = w.position
  envelope : v.envelope = w.envelope

/-- Whether two status values differ in nothing but the output. -/
structure Status.Alike (s t : Status) : Prop where
  envx : s.envx = t.envx
  ended : s.ended = t.ended

/-- The place of the next sample does not depend on the samples. -/
theorem next_push_congr {n : Nat} {r q : Ring n} (h : r.next = q.next) (x y : Int) :
    (r.push x).next = (q.push y).next := by
  change (⟨(r.next.val + 1) % n, _⟩ : Fin n) = ⟨(q.next.val + 1) % n, _⟩
  rw [h]

namespace Alike

variable {v w : Voice} (h : Alike v w)

include h

theorem countDown (m : Memory) (entry : UInt16) : Alike (v.countDown m entry) (w.countDown m entry) := by
  have hdelay := h.keyOnDelay
  unfold Voice.countDown
  rw [← hdelay]
  split
  · exact h
  · exact ⟨rfl, rfl, rfl, rfl, rfl, rfl⟩
  · exact ⟨h.playing, rfl, h.cursor, h.next, h.position, h.envelope⟩

theorem keyOff : Alike v.keyOff w.keyOff := by
  unfold Voice.keyOff
  by_cases hp : v.playing = true
  · rw [if_pos hp, if_pos (h.playing ▸ hp)]
    exact ⟨h.playing, rfl, h.cursor, h.next, h.position, congrArg Envelope.release h.envelope⟩
  · rw [if_neg hp, if_neg (h.playing ▸ hp)]
    exact h

theorem stop : Alike v.stop w.stop :=
  ⟨rfl, h.keyOnDelay, h.cursor, h.next, h.position, congrArg (fun e : Envelope => { e with level := 0 }) h.envelope⟩

theorem jump (address : UInt16) : Alike (v.jump address) (w.jump address) :=
  ⟨h.playing, h.keyOnDelay, congrArg (fun c : Cursor => { c with address }) h.cursor, h.next, h.position, h.envelope⟩

theorem decodeOne (m : Memory) : Alike (v.decodeOne m) (w.decodeOne m) :=
  ⟨h.playing, h.keyOnDelay, congrArg (fun c => (c.openBlock m).advance) h.cursor, next_push_congr h.next _ _,
    congrArg (· - unit) h.position, h.envelope⟩

theorem silence (n : Nat) : Alike (Voice.silence n v) (Voice.silence n w) := by
  induction n generalizing v w with
  | zero => exact h
  | succ n ih =>
    exact ih ⟨h.playing, h.keyOnDelay, h.cursor, next_push_congr h.next _ _, congrArg (· - unit) h.position, h.envelope⟩

theorem decodeMany (m : Memory) (entry : UInt16) (n : Nat) (ended : Bool) :
    Alike (Voice.decodeMany m entry n v ended).1 (Voice.decodeMany m entry n w ended).1 ∧
      (Voice.decodeMany m entry n v ended).2 = (Voice.decodeMany m entry n w ended).2 := by
  induction n generalizing v w ended with
  | zero => exact ⟨h, rfl⟩
  | succ n ih =>
    have hcursor := h.cursor
    unfold Voice.decodeMany
    rw [← hcursor]
    split
    · split
      · exact ih ((h.jump _).decodeOne m) true
      · exact ⟨h.stop.silence (n + 1), rfl⟩
    · exact ih (h.decodeOne m) ended

theorem play (index : Fin 8) (r : Registers) (m : Memory) (noise pitch : Int) :
    Alike (v.play index r m noise pitch).1 (w.play index r m noise pitch).1 ∧
      (v.play index r m noise pitch).2.Alike (w.play index r m noise pitch).2 := by
  have hdue : v.due = w.due := by rw [due, due, h.position]
  obtain ⟨hvoice, hended⟩ := h.decodeMany m (r.directoryEntry index) v.due false
  unfold Voice.play decode
  rw [← hdue]
  exact ⟨⟨hvoice.playing, hvoice.keyOnDelay, hvoice.cursor, hvoice.next, congrArg (· + pitch) hvoice.position,
    hvoice.envelope⟩, congrArg Envelope.envx hvoice.envelope, hended⟩

/-- The second half of a tick, when the key registers have been seen. -/
theorem sound (index : Fin 8) (r : Registers) (m : Memory) (noise pitch : Int) :
    Alike (v.sound index r m noise pitch).1 (w.sound index r m noise pitch).1 ∧
      (v.sound index r m noise pitch).2.Alike (w.sound index r m noise pitch).2 := by
  have hstep (envelope : Envelope) : Alike { v with envelope } { w with envelope } :=
    ⟨h.playing, h.keyOnDelay, h.cursor, h.next, h.position, rfl⟩
  unfold Voice.sound
  by_cases hp : v.playing = true
  · rw [if_pos hp, if_pos (h.playing ▸ hp), ← h.envelope]
    split
    · exact (hstep _).play index r m noise pitch
    · exact ⟨(hstep _).stop, rfl, rfl⟩
  · rw [if_neg hp, if_neg (h.playing ▸ hp)]
    exact ⟨h.stop, rfl, rfl⟩

/-- A tick sees nothing of the samples but what it puts out. -/
theorem tick (index : Fin 8) (r : Registers) (m : Memory) (noise previous : Int) :
    Alike (v.tick index r m noise previous).1 (w.tick index r m noise previous).1 ∧
      (v.tick index r m noise previous).2.Alike (w.tick index r m noise previous).2 := by
  have hcount := h.countDown m (r.directoryEntry index)
  rw [tick_eq_sound, tick_eq_sound]
  split
  · exact hcount.keyOff.sound index r m noise _
  · exact hcount.sound index r m noise _

/-- The same samples make the same voice, but for the last output. -/
theorem eq_of_ring (hring : v.ring = w.ring) : v = { w with output := v.output } := by
  obtain ⟨playing, keyOnDelay, cursor, ring, position, envelope, output⟩ := v
  obtain ⟨rfl, rfl, rfl, -, rfl, rfl⟩ := h
  obtain rfl : ring = w.ring := hring
  rfl

/-- Voices that decode the same samples put out the same. -/
theorem play_eq {index : Fin 8} {r : Registers} {m : Memory}
    (hring : (v.decode m (r.directoryEntry index)).1.ring = (w.decode m (r.directoryEntry index)).1.ring)
    (noise pitch : Int) : v.play index r m noise pitch = w.play index r m noise pitch := by
  have hdue : v.due = w.due := by rw [due, due, h.position]
  obtain ⟨hvoice, hended⟩ := h.decodeMany m (r.directoryEntry index) v.due false
  unfold Voice.play decode
  rw [decode, decode, ← hdue] at hring
  rw [← hdue]
  generalize Voice.decodeMany m (r.directoryEntry index) v.due v false = p at hvoice hended hring ⊢
  generalize Voice.decodeMany m (r.directoryEntry index) v.due w false = q at hvoice hended hring ⊢
  obtain ⟨p, ended⟩ := p
  obtain ⟨q, ended'⟩ := q
  obtain rfl : ended = ended' := hended
  have heq : p = { q with output := p.output } := eq_of_ring hvoice hring
  rw [heq]
  rfl

end Alike

/-! ## Ticks one after the other -/

/-- One tick in its surroundings. -/
def under (index : Fin 8) (v : Voice) (x : Surroundings) : Voice × Status :=
  v.tick index x.registers x.memory x.noise x.previous

/-- What ticks one after the other leave of a voice and make it show. -/
def trace (index : Fin 8) : Voice → List Surroundings → List (Voice × Status)
  | _, [] => []
  | v, x :: xs => v.under index x :: trace index (v.under index x).1 xs

theorem Alike.trace {v w : Voice} (h : Alike v w) (index : Fin 8) (xs : List Surroundings) :
    List.Forall₂ (fun a b => Alike a.1 b.1 ∧ a.2.Alike b.2) (trace index v xs) (trace index w xs) := by
  induction xs generalizing v w with
  | nil => exact .nil
  | cons x xs ih =>
    have hfirst := h.tick index x.registers x.memory x.noise x.previous
    exact .cons hfirst (ih hfirst.1)

/-- A silent voice shows nothing, whatever is around it. -/
theorem Silent.trace {v : Voice} (h : v.Silent) (index : Fin 8) (xs : List Surroundings) :
    (Voice.trace index v xs).map Prod.snd = List.replicate xs.length {} := by
  induction xs generalizing v with
  | nil => rfl
  | cons x xs ih =>
    have hfirst : v.under index x = (v.stop, {}) := h.tick index x.registers x.memory x.noise x.previous
    have hrest : v.stop.Silent := ⟨rfl, h.keyOnDelay⟩
    rw [Voice.trace, hfirst, List.map_cons]
    exact congrArg (_ :: ·) (ih hrest)

theorem ring_play (v : Voice) (index : Fin 8) (r : Registers) (m : Memory) (noise pitch : Int) :
    (v.play index r m noise pitch).1.ring = (v.decode m (r.directoryEntry index)).1.ring := rfl

/-! ## Notes -/

/-- Starts a note whose time has come. -/
def commence (v : Voice) (address : UInt16) : Voice := { v with keyOnDelay := 0 }.start address

/-- A tick starts a note that is due, at the address that the sample directory holds. -/
theorem tick_of_due {v : Voice} (h : v.keyOnDelay = 1) (index : Fin 8) (r : Registers) (m : Memory)
    (noise previous : Int) : v.tick index r m noise previous =
      (v.commence (m.readWord (r.directoryEntry index))).tick index r m noise previous := by
  have hstart : v.countDown m (r.directoryEntry index) = v.commence (m.readWord (r.directoryEntry index)) := by
    rw [countDown, h]
    rfl
  unfold tick
  rw [hstart]
  rfl

/-- The voice with another envelope. -/
def withEnvelope (v : Voice) (envelope : Envelope) : Voice := { v with envelope }

theorem alike_commence (u w : Voice) (address : UInt16) : Alike (u.commence address) (w.commence address) :=
  ⟨rfl, rfl, rfl, rfl, rfl, rfl⟩

/-- The first two samples of a note, which are predicted from what the ring holds when the note starts. -/
def leads (v : Voice) (m : Memory) (address : UInt16) : Int × Int :=
  let header := Header.ofByte (m.get address)
  let byte := m.get (address + 1)
  let first := Brr.decode (Brr.nibble byte true) header (v.ring.cells.get 3) (v.ring.cells.get 2)
  (first, Brr.decode (Brr.nibble byte false) header first (v.ring.cells.get 3))

/-- The sample of a note as a stream. -/
def stream (v : Voice) (m : Memory) (address loop : UInt16) : Stream :=
  ⟨m, address, loop, v.ring.cells.get 3, v.ring.cells.get 2⟩

section Notes

variable (v : Voice) (index : Fin 8) (x : Surroundings) (address : UInt16)

theorem leads_eq_sample (m : Memory) (loop : UInt16) :
    v.leads m address = ((v.stream m address loop).sample 0, (v.stream m address loop).sample 1) := by
  have hbyte : address + 1 + UInt16.ofNat 0 = address + 1 := UInt16.add_zero _
  have hfirst : (v.stream m address loop).sample 0 =
      Brr.decode (Brr.nibble (m.get (address + 1)) true) (.ofByte (m.get address)) (v.ring.cells.get 3)
        (v.ring.cells.get 2) := by
    rw [← hbyte]
    exact Stream.sample_eq_decode (j := 0) (i := 0) rfl (by decide)
  have hsecond : (v.stream m address loop).sample 1 =
      Brr.decode (Brr.nibble (m.get (address + 1)) false) (.ofByte (m.get address)) ((v.stream m address loop).sample 0)
        (v.ring.cells.get 3) := by
    rw [← hbyte]
    exact Stream.sample_eq_decode (j := 0) (i := 1) rfl (by decide)
  rw [hsecond, hfirst]
  rfl

/-- Notes with the same first two samples have the same samples. -/
theorem sample_stream_congr {v w : Voice} {address : UInt16} {m : Memory} (h : v.leads m address = w.leads m address)
    (loop : UInt16) (n : Nat) : (v.stream m address loop).sample n = (w.stream m address loop).sample n := by
  rw [leads_eq_sample v address m loop, leads_eq_sample w address m loop, Prod.mk.injEq] at h
  exact Stream.sample_with (S := w.stream m address loop) h.1 h.2 n

/-- A note that is keyed off in its first tick is over before it has begun. -/
theorem tick_commence_of_koff (hoff : bit (x.registers.get Register.koff) index = true) :
    ∃ u : Voice, u.Silent ∧ (v.commence address).under index x = (u, {}) := by
  refine ⟨((v.commence address).withEnvelope { Envelope.keyOn.release with level := 0 }).stop, ⟨rfl, rfl⟩, ?_⟩
  simp only [under, tick, countDown, commence, start, hoff, if_true, keyOff]
  rfl

/-- Otherwise the first tick of a note is a step of its envelope and one of its sample. -/
theorem tick_commence (hoff : bit (x.registers.get Register.koff) index = false) :
    (v.commence address).under index x =
      ((v.commence address).withEnvelope (Envelope.keyOn.advance (.ofRegisters (x.registers.adsr1 index)
        (x.registers.adsr2 index) (x.registers.gain index)))).play index x.registers x.memory x.noise
          (pitch x.registers index x.previous) := by
  simp only [under, tick, countDown, commence, start, hoff, Bool.false_eq_true, if_false, if_true]
  rfl

/-- The first tick of a note replaces all samples in the ring. -/
theorem ring_decode_commence (envelope : Envelope) (m : Memory) (entry : UInt16) :
    let S := v.stream m address (m.readWord (entry + 2))
    (((v.commence address).withEnvelope envelope).decode m entry).1.ring =
      ⟨#v[S.sample 0, S.sample 1, S.sample 2, S.sample 3], 0⟩ := by
  intro S
  have hdecoded : ((v.commence address).withEnvelope envelope).Decoded S 0 := ⟨.start, rfl, rfl⟩
  have hsamples : decoded m entry 4 ((v.commence address).withEnvelope envelope) = (List.range' 0 4).map S.sample :=
    hdecoded.decoded_eq rfl 4
  have hring := ring_decodeMany m entry 4 ((v.commence address).withEnvelope envelope) false
  rw [hsamples] at hring
  exact hring.trans (Ring.foldl_push_four rfl ..)

variable {v index x address}

/-- The first tick of two notes is the same if and only if their first two samples are. -/
theorem under_commence_eq_iff {w : Voice} (hoff : bit (x.registers.get Register.koff) index = false) :
    (v.commence address).under index x = (w.commence address).under index x ↔
      v.leads x.memory address = w.leads x.memory address := by
  have hring (v : Voice) (envelope : Envelope) :=
    ring_decode_commence v address envelope x.memory (x.registers.directoryEntry index)
  rw [tick_commence _ _ _ _ hoff, tick_commence _ _ _ _ hoff]
  generalize Envelope.keyOn.advance _ = envelope
  constructor
  · intro heq
    have hrings := congrArg (fun p : Voice × Status => p.1.ring) heq
    simp only [ring_play, hring, Ring.mk.injEq, and_true] at hrings
    rw [leads_eq_sample, leads_eq_sample]
    exact Prod.ext (congrArg (·[0]) hrings) (congrArg (·[1]) hrings)
  · intro heq
    have hsample := sample_stream_congr heq (x.memory.readWord (x.registers.directoryEntry index + 2))
    have halike : Alike ((v.commence address).withEnvelope envelope) ((w.commence address).withEnvelope envelope) :=
      ⟨rfl, rfl, rfl, rfl, rfl, rfl⟩
    refine halike.play_eq ?_ x.noise _
    rw [hring, hring]
    exact congrArg (Ring.mk · 0) (by rw [hsample 0, hsample 1, hsample 2, hsample 3])

end Notes

/-- A block without prediction starts a note with the same two samples whatever the ring holds, and so does any block if
the last two samples in the ring are the same. -/
theorem leads_congr {v w : Voice} {m : Memory} {address : UInt16}
    (h : (Header.ofByte (m.get address)).filter = .none ∨
      v.ring.cells.get 2 = w.ring.cells.get 2 ∧ v.ring.cells.get 3 = w.ring.cells.get 3) :
    v.leads m address = w.leads m address := by
  rcases h with hfilter | ⟨hsecond, hnewest⟩
  · have hdecode (nibble old older old' older' : Int) :
        Brr.decode nibble (.ofByte (m.get address)) old older =
          Brr.decode nibble (.ofByte (m.get address)) old' older' := by
      rw [Brr.decode, Brr.decode, hfilter]
      rfl
    exact Prod.ext (hdecode ..) (hdecode ..)
  · rw [leads, leads, hsecond, hnewest]

/-- What a note takes over from what its voice has played before. Two voices that start a note at the same address, in
whatever states they are, and then go through the same ticks, differ at no tick in anything but samples and outputs. If
the note is keyed off in its first tick, they show the same. Otherwise the voices and what they show are the same at
every tick if and only if the first two samples of the note are the same; and these are the same if the first block
has no prediction, or if the last two samples are that the rings held before. -/
theorem notes_eq_iff (v w : Voice) (index : Fin 8) (address : UInt16) (x : Surroundings) (xs : List Surroundings) :
    let note := fun v : Voice => trace index (v.commence address) (x :: xs)
    List.Forall₂ (fun a b => Alike a.1 b.1 ∧ a.2.Alike b.2) (note v) (note w) ∧
      (bit (x.registers.get Register.koff) index = true → (note v).map Prod.snd = (note w).map Prod.snd) ∧
      (bit (x.registers.get Register.koff) index = false →
        (note v = note w ↔ v.leads x.memory address = w.leads x.memory address)) ∧
      ((Header.ofByte (x.memory.get address)).filter = .none ∨
          v.ring.cells.get 2 = w.ring.cells.get 2 ∧ v.ring.cells.get 3 = w.ring.cells.get 3 →
        v.leads x.memory address = w.leads x.memory address) := by
  intro note
  refine ⟨(alike_commence v w address).trace index (x :: xs), fun hoff => ?_, fun hoff => ?_, leads_congr⟩
  · have hsilent (v : Voice) : (note v).map Prod.snd = {} :: List.replicate xs.length {} := by
      obtain ⟨u, hu, htick⟩ := v.tick_commence_of_koff index x address hoff
      have hcons : note v = (u, {}) :: trace index u xs := by
        change _ :: trace index ((v.commence address).under index x).1 xs = _
        rw [htick]
      rw [hcons, List.map_cons, hu.trace]
    rw [hsilent, hsilent]
  · rw [← under_commence_eq_iff hoff]
    constructor
    · exact fun heq => (List.cons.inj heq).1
    · intro heq
      change _ :: trace index ((v.commence address).under index x).1 xs = _
      rw [heq]
      rfl

/-- Leftovers do not get into a note whose blocks have no prediction, loud as the note is. -/
theorem notes_eq_iff_unfiltered :
    let r := (Registers.zero.store (Register.ofVoice 0 3) 0x10).store (Register.ofVoice 0 7) 0x7F
    let x : Surroundings := ⟨r, blockWith 0xB3, 0, 0⟩
    let note := trace 0 (({ ring := ⟨#v[0, 0, 0, 16384], 0⟩ } : Voice).commence 0) [x, x, x]
    note = trace 0 (({} : Voice).commence 0) [x, x, x] ∧ note.map (·.2.output) = [10170, 7384, 10358] := by
  intro r x note
  have hfilter : (Header.ofByte (x.memory.get 0)).filter = .none := by decide +kernel
  obtain ⟨-, -, hiff, hleads⟩ := notes_eq_iff { ring := ⟨#v[0, 0, 0, 16384], 0⟩ } {} 0 0 x [x, x]
  exact ⟨(hiff (by decide)).mpr (hleads (.inl hfilter)), by decide +kernel⟩

/-- A sample that was left in the ring is heard in the next note if the first block of the note is predicted from it. -/
theorem leftover_heard :
    let x : Surroundings := ⟨Registers.zero.store (Register.ofVoice 0 7) 0x7F, Memory.zero.set 0 0x07, 0, 0⟩
    ((({ ring := ⟨#v[0, 0, 0, 16384], 0⟩ } : Voice).commence 0).under 0 x).2.output ≠
      ((({} : Voice).commence 0).under 0 x).2.output := by
  decide +kernel

end Voice

end SnesSound
