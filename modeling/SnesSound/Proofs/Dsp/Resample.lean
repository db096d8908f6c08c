import Mathlib.Algebra.Ring.Nat
import SnesSound.Proofs.Dsp.Stream

/-!
# Voices resample their streams

A sounding voice walks through the stream of its sample by as much as the pitches of its ticks add up to, in units of
1/4096 sample. How the steps are divided among ticks does not matter: the position of the voice is always what it was
at the start, plus all pitches, minus a unit for every sample decoded (`InStep`), so after decoding, its ring holds the
four samples around the place that the pitches have led to.

Main statement: what a note has put into the ring after decoding, what the ring holds and the fraction at which it is
interpolated follow from the sum of the pitches alone (`resample`). The ticks of a playing voice are such steps
(`tick_eq_beat`).
-/

namespace SnesSound

/-- What a tick brings to a sounding voice: the registers and the noise, the pitch at which it goes on, and what has
become of its envelope and of a note that was announced. -/
structure Beat where
  registers : Registers
  noise : Int
  pitch : Nat
  envelope : Envelope
  keyOnDelay : Nat

namespace Voice

/-- The voice with the envelope and the announced note of a tick. -/
def attend (v : Voice) (b : Beat) : Voice := { v with envelope := b.envelope, keyOnDelay := b.keyOnDelay }

/-- One tick of a sounding voice. -/
def beat (m : Memory) (index : Fin 8) (v : Voice) (b : Beat) : Voice :=
  ((v.attend b).play index b.registers m b.noise b.pitch).1

/-- The samples that the decoding of ticks puts into the ring, in order. -/
def pushed (m : Memory) (index : Fin 8) : Voice → List Beat → List Int
  | _, [] => []
  | v, b :: beats =>
    decoded m (b.registers.directoryEntry index) (v.attend b).due (v.attend b) ++
      pushed m index (v.beat m index b) beats

/-! ## Ticks of a playing voice -/

/-- A tick of a voice that plays, perhaps since a note has just started, is a step at the pitch of its registers or
silences the voice. -/
theorem tick_eq_beat {v : Voice} {index : Fin 8} {r : Registers} {m : Memory} {noise previous : Int}
    (hv : (v.countDown m (r.directoryEntry index)).playing = true) (hp : 0 ≤ pitch r index previous) :
    (v.tick index r m noise previous).1.playing = false ∨
      ∃ b : Beat, b.registers = r ∧ b.pitch = pitch r index previous ∧
        (v.tick index r m noise previous).1 = (v.countDown m (r.directoryEntry index)).beat m index b := by
  unfold tick
  generalize v.countDown m (r.directoryEntry index) = u at hv ⊢
  have hoff : ∃ envelope delay, (if bit (r.get Register.koff) index then u.keyOff else u) =
      { u with envelope := envelope, keyOnDelay := delay } := by
    split
    · exact ⟨u.envelope.release, 0, by rw [keyOff, if_pos hv]⟩
    · exact ⟨u.envelope, u.keyOnDelay, rfl⟩
  obtain ⟨envelope, delay, heq⟩ := hoff
  simp only [heq, hv, if_true]
  split
  next e _ => exact .inr ⟨⟨r, noise, (pitch r index previous).toNat, e, delay⟩, rfl, Int.toNat_of_nonneg hp, by
    simp only [beat, attend, hv, Int.toNat_of_nonneg hp]⟩
  next => exact .inl rfl

/-- The output of a voice before is a 16-bit number, so modulation does not turn a pitch around. -/
theorem pitch_nonneg (r : Registers) (index : Fin 8) {previous : Int} (h : -32768 ≤ previous) :
    0 ≤ pitch r index previous := by
  unfold pitch
  split
  · exact Int.ediv_nonneg (Int.mul_nonneg (Int.natCast_nonneg _) (by omega)) (by decide)
  · exact Int.natCast_nonneg _

/-! ## Steps -/

/-- Whether a voice has decoded the first `n` samples of a stream and stands where `total` units of pitch since the
start have led it. -/
structure InStep (S : Stream) (v : Voice) (n total : Nat) : Prop where
  decoded : v.Decoded S n
  position : v.position = 3 * unit + total - unit * n
  bound : -unit ≤ v.position

variable {S : Stream} {v : Voice} {n total : Nat} {index : Fin 8} {b : Beat}

namespace InStep

theorem attend (h : InStep S v n total) (b : Beat) : InStep S (v.attend b) n total where
  decoded := ⟨h.decoded.cursor, h.decoded.newest, h.decoded.second⟩
  position := h.position
  bound := h.bound

/-- Decoding catches up with the pitches. -/
theorem add_due (h : InStep S v n total) : n + v.due = 4 + total / 4096 := by
  have hpos := h.position
  have hbound := h.bound
  simp only [unit] at hpos hbound
  unfold due unit
  omega

theorem position_decode (h : InStep S v n total) (m : Memory) (entry : UInt16) :
    (v.decode m entry).1.position = total % 4096 - 4096 := by
  have hdue := h.add_due
  have hpos := h.position
  rw [decode, position_decodeMany, hpos]
  simp only [unit]
  omega

theorem fraction_decode (h : InStep S v n total) (m : Memory) (entry : UInt16) :
    (v.decode m entry).1.fraction.val = total % 4096 / 16 := by
  have hpos := h.position_decode m entry
  rw [fraction, hpos]
  simp only [Fin.ofNat]
  omega

theorem beat (h : InStep S v n total)
    (hl : S.memory.readWord (b.registers.directoryEntry index + 2) = S.loop)
    (hp : (v.beat S.memory index b).playing = true) :
    InStep S (v.beat S.memory index b) (n + (v.attend b).due) (total + b.pitch) := by
  have ha := h.attend b
  have hd := ha.decoded.decodeMany hl (v.attend b).due false hp
  have hdue := ha.add_due
  have hpos := ha.position_decode S.memory (b.registers.directoryEntry index)
  have hnew : (v.beat S.memory index b).position
      = ((v.attend b).decode S.memory (b.registers.directoryEntry index)).1.position + b.pitch := rfl
  refine ⟨⟨hd.cursor, hd.newest, hd.second⟩, ?_, ?_⟩
  · rw [hnew, hpos, hdue]
    simp only [unit]
    omega
  · rw [hnew, hpos]
    simp only [unit]
    omega

end InStep

/-- A note is in step with its stream from the start. -/
theorem inStep_start (v : Voice) (m : Memory) (start loop : UInt16) :
    InStep ⟨m, start, loop, v.ring.cells[3], v.ring.cells[2]⟩ (v.start start) 0 0 where
  decoded := ⟨.start, rfl, rfl⟩
  position := rfl
  bound := (by decide : -unit ≤ 3 * unit)

/-! ## Notes -/

theorem ring_beat (m : Memory) (index : Fin 8) (v : Voice) (b : Beat) : (v.beat m index b).ring =
    (decoded m (b.registers.directoryEntry index) (v.attend b).due (v.attend b)).foldl Ring.push v.ring :=
  ring_decodeMany ..

/-- Ticks put their samples into the ring and do nothing else to it. -/
theorem ring_foldl_beat (m : Memory) (index : Fin 8) (v : Voice) (beats : List Beat) :
    (beats.foldl (beat m index) v).ring = (pushed m index v beats).foldl Ring.push v.ring := by
  induction beats generalizing v with
  | nil => rfl
  | cons b beats ih => rw [List.foldl_cons, ih, pushed, List.foldl_append, ring_beat]

theorem pushed_append (m : Memory) (index : Fin 8) (v : Voice) (xs ys : List Beat) :
    pushed m index v (xs ++ ys) = pushed m index v xs ++ pushed m index (xs.foldl (beat m index) v) ys := by
  induction xs generalizing v with
  | nil => rfl
  | cons b xs ih => rw [List.cons_append, pushed, pushed, ih, List.append_assoc, List.foldl_cons]

/-- Ticks do not start a voice. -/
theorem playing_of_foldl_beat {m : Memory} {index : Fin 8} {v : Voice} {beats : List Beat}
    (h : (beats.foldl (beat m index) v).playing = true) : v.playing = true := by
  induction beats generalizing v with
  | nil => exact h
  | cons b beats ih =>
    have hnext : (v.beat m index b).playing = true := ih h
    exact playing_of_decodeMany (v := v.attend b) hnext

/-- Ticks keep a voice in step as long as it plays. -/
theorem InStep.foldl_beat (h : InStep S v n total) {beats : List Beat}
    (hl : ∀ b ∈ beats, S.memory.readWord (b.registers.directoryEntry index + 2) = S.loop)
    (hp : (beats.foldl (Voice.beat S.memory index) v).playing = true) :
    ∃ k, InStep S (beats.foldl (Voice.beat S.memory index) v) (n + k) (total + (beats.map Beat.pitch).sum) ∧
      pushed S.memory index v beats = (List.range' n k).map S.sample := by
  induction beats generalizing v n total with
  | nil => exact ⟨0, h, rfl⟩
  | cons b beats ih =>
    have hb := h.beat (hl b (by simp)) (playing_of_foldl_beat hp)
    obtain ⟨k, hk, hpushed⟩ := ih hb (fun c hc => hl c (by simp [hc])) hp
    refine ⟨(v.attend b).due + k, ?_, ?_⟩
    · rw [List.map_cons, List.sum_cons, ← Nat.add_assoc, ← Nat.add_assoc]
      exact hk
    · rw [pushed, hpushed, (h.attend b).decoded.decoded_eq (hl b (by simp)), ← List.map_append, List.range'_append_1]

/-- A ring holds the last of many samples that were put into it. -/
theorem toList_foldl_push_range (r : Ring 4) (f : Nat → Int) (q : Nat) :
    (((List.range (4 + q)).map f).foldl Ring.push r).toList = [f q, f (q + 1), f (q + 2), f (q + 3)] := by
  rw [Ring.toList_foldl_push, List.length_map, List.length_range, Nat.add_comm 4 q, List.range_add, List.map_append,
    ← List.append_assoc, List.drop_left' (by simp; omega)]
  simp [List.range_succ]

/-- What a note that starts in step has decoded by its last tick. -/
theorem InStep.pushed_eq (h : InStep S v 0 0) {beats : List Beat}
    (hl : ∀ c ∈ beats ++ [b], S.memory.readWord (c.registers.directoryEntry index + 2) = S.loop)
    (hp : (beats.foldl (Voice.beat S.memory index) v).playing = true) :
    ∃ k, InStep S ((beats.foldl (Voice.beat S.memory index) v).attend b) k (beats.map Beat.pitch).sum ∧
      pushed S.memory index v (beats ++ [b]) =
        (List.range (4 + (beats.map Beat.pitch).sum / 4096)).map S.sample := by
  obtain ⟨k, hk, hpushed⟩ := h.foldl_beat (fun c hc => hl c (List.mem_append_left _ hc)) hp
  rw [Nat.zero_add, Nat.zero_add] at hk
  have hb := hk.attend b
  refine ⟨k, hb, ?_⟩
  rw [pushed_append, hpushed, pushed, pushed, List.append_nil,
    hb.decoded.decoded_eq (hl b (List.mem_append_right _ List.mem_cons_self)), ← List.map_append, ← hb.add_due,
    List.range_eq_range', ← List.range'_append_1, Nat.zero_add]

/-- A note that starts at `start` and whose sample loops to `loop` is a stream, which begins after the samples that
its ring holds. After the decoding of a tick `b`, if the voice plays after the ticks before it, the samples put into
the ring since the start are the first `4 + q` ones of the stream, where `q` is the integer part of what the pitches
of the ticks before add up to; the ring holds the last four of them, and the interpolation between these is at the
fraction that is left, in units of 1/256 sample. -/
theorem resample (v : Voice) (m : Memory) (index : Fin 8) (start loop : UInt16) (beats : List Beat) (b : Beat)
    (hl : ∀ c ∈ beats ++ [b], m.readWord (c.registers.directoryEntry index + 2) = loop)
    (hp : (beats.foldl (beat m index) (v.start start)).playing = true) :
    let S : Stream := ⟨m, start, loop, v.ring.cells[3], v.ring.cells[2]⟩
    let total := (beats.map Beat.pitch).sum
    let q := total / 4096
    let u := (((beats.foldl (beat m index) (v.start start)).attend b).decode m (b.registers.directoryEntry index)).1
    let samples := pushed m index (v.start start) (beats ++ [b])
    samples = (List.range (4 + q)).map S.sample ∧ u.ring = samples.foldl Ring.push (v.start start).ring ∧
      u.ring.toList = [S.sample q, S.sample (q + 1), S.sample (q + 2), S.sample (q + 3)] ∧
      u.fraction.val = total % 4096 / 16 ∧
      u.interpolate =
        Gauss.interpolate u.fraction (S.sample q) (S.sample (q + 1)) (S.sample (q + 2)) (S.sample (q + 3)) := by
  intro S total q u samples
  obtain ⟨k, hk, hpushed⟩ := (inStep_start v m start loop).pushed_eq hl hp
  have hsamples : samples = (List.range (4 + q)).map S.sample := hpushed
  have hring : u.ring = samples.foldl Ring.push (v.start start).ring := by
    change _ = (pushed m index (v.start start) (beats ++ [b])).foldl Ring.push _
    rw [pushed_append, List.foldl_append, ← ring_foldl_beat, pushed, pushed, List.append_nil]
    exact ring_decodeMany ..
  have hlist : u.ring.toList = [S.sample q, S.sample (q + 1), S.sample (q + 2), S.sample (q + 3)] := by
    rw [hring, hsamples]
    exact toList_foldl_push_range ..
  refine ⟨hsamples, hring, hlist, hk.fraction_decode m _, ?_⟩
  have hget : [u.ring.get 0, u.ring.get 1, u.ring.get 2, u.ring.get 3] =
      [S.sample q, S.sample (q + 1), S.sample (q + 2), S.sample (q + 3)] := hlist
  simp only [List.cons.injEq, and_true] at hget
  obtain ⟨h0, h1, h2, h3⟩ := hget
  rw [interpolate, h0, h1, h2, h3]

/-- RAM that begins with a block: the given header and sixteen differences. -/
def blockWith (header : UInt8) : Memory :=
  [header, 0x17, 0x26, 0x53, 0xC4, 0x61, 0xD7, 0x25, 0x9A].zipIdx.foldl (fun m (b, i) => m.set (UInt16.ofNat i) b) .zero

/-- The fifth tick of a note whose only block loops to itself: after four ticks at three samples and three eighths, the
last of the four samples is in the second round through the block. -/
theorem resample_around_the_loop :
    let m := blockWith 0xB7
    let b : Beat := ⟨Registers.zero.store Register.dir 1, 0, 13824, .keyOn, 0⟩
    let S : Stream := ⟨m, 0, 0, 0, 0⟩
    let u := ((([b, b, b, b].foldl (beat m 0) (({} : Voice).start 0)).attend b).decode m
      (b.registers.directoryEntry 0)).1
    u.ring.toList = [S.sample 13, S.sample 14, S.sample 15, S.sample 16] ∧ u.fraction.val = 128 ∧
      [S.sample 13, S.sample 14, S.sample 15, S.sample 16] =
        [21122, 5464, -7166, -4672] := by
  intro m b S u
  have hold : ({} : Voice).ring.cells[3] = 0 := rfl
  have holder : ({} : Voice).ring.cells[2] = 0 := rfl
  have hloop : m.readWord (b.registers.directoryEntry 0 + 2) = 0 := by decide +kernel
  have htotal : ([b, b, b, b].map Beat.pitch).sum = 55296 := by simp [b]
  obtain ⟨-, -, hring, hfraction, -⟩ := resample {} m 0 0 0 [b, b, b, b] b (by simpa using hloop) (by decide +kernel)
  rw [hold, holder, htotal] at hring
  rw [htotal] at hfraction
  exact ⟨hring, hfraction, by decide +kernel⟩

end Voice

end SnesSound
