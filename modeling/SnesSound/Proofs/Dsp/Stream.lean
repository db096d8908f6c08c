import SnesSound.Dsp.Voice

/-!
# The stream of a sample

A sample in memory is a sequence of blocks, and thereby a stream of decoded samples that goes on forever: through its
loop if it has one, else as silence after its last block. The stream is defined block by block, with no regard to how a
voice walks through it.

Main statement: decoding any number of samples puts the next ones of the stream into the ring, wherever in a block it
starts (`decoded_eq`).
-/

namespace SnesSound

open Brr

/-- A sample as a voice finds it at the start of a note. -/
structure Stream where
  memory : Memory
  /-- Address of the first block. -/
  start : UInt16
  /-- Address at which the sample goes on after a last block that loops. -/
  loop : UInt16
  /-- The sample before the first one. -/
  old : Int
  /-- The sample before that. -/
  older : Int

namespace Stream

/-! ## Blocks and samples -/

section Blocks

variable (S : Stream)

/-- The header of the block at an address. -/
def header (a : UInt16) : Header := .ofByte (S.memory.get a)

/-- The difference with a number in the block at an address; of two in a byte, the high one comes first. -/
def difference (a : UInt16) (i : Nat) : Int :=
  Brr.nibble (S.memory.get (a + 1 + UInt16.ofNat (i / 2))) (i % 2 == 0)

/-- The address of the block after the one at an address, if there is one. -/
def continuation (a : UInt16) : Option UInt16 :=
  if (S.header a).ends then if (S.header a).loops then some S.loop else none else some (a + 9)

/-- The address of the block with a number, if the sample has not ended before. -/
def block : Nat → Option UInt16
  | 0 => some S.start
  | j + 1 => (block j).bind S.continuation

/-- The stream, with the two samples before it in front. -/
def history : Nat → Int
  | 0 => S.older
  | 1 => S.old
  | n + 2 =>
    match S.block (n / 16) with
    | some a => decode (S.difference a (n % 16)) (S.header a) (history (n + 1)) (history n)
    | none => 0

/-- The sample with a number. -/
def sample (n : Nat) : Int := S.history (n + 2)

end Blocks

variable {S : Stream}

theorem sample_eq_decode {j i : Nat} {a : UInt16} (hj : S.block j = some a) (hi : i < 16) :
    S.sample (16 * j + i) =
      decode (S.difference a i) (S.header a) (S.history (16 * j + i + 1)) (S.history (16 * j + i)) := by
  rw [sample, history, show (16 * j + i) / 16 = j by omega, show (16 * j + i) % 16 = i by omega, hj]

theorem block_eq_none {j : Nat} (h : S.block j = none) (d : Nat) : S.block (j + d) = none := by
  induction d with
  | zero => exact h
  | succ d ih => rw [← Nat.add_assoc, block, ih, Option.bind_none]

/-- A sample is silent from the end of its last block on. -/
theorem sample_eq_zero {j n : Nat} (h : S.block j = none) (hn : 16 * j ≤ n) : S.sample n = 0 := by
  have hnone := block_eq_none h (n / 16 - j)
  rw [Nat.add_sub_cancel' (by omega)] at hnone
  rw [sample, history, hnone]

/-! ## Cursors in a block -/

/-- Whether a cursor has read a number of differences of the block at an address. -/
structure Inside (S : Stream) (a : UInt16) (i : Nat) (c : Cursor) : Prop where
  header : c.header = S.header a
  address : c.address = a + 1 + UInt16.ofNat (i / 2)
  bytesLeft : c.bytesLeft = 8 - i / 2
  highDone : c.highDone = (i % 2 == 1)

theorem inside_openBlock {a : UInt16} {c : Cursor} (ha : c.address = a) (hb : c.bytesLeft = 0)
    (hh : c.highDone = false) : S.Inside a 0 (c.openBlock S.memory) := by
  rw [Cursor.openBlock, if_pos hb, ha]
  exact ⟨rfl, (UInt16.add_zero _).symm, rfl, hh⟩

namespace Inside

variable {a : UInt16} {i : Nat} {c : Cursor}

theorem nibble (h : S.Inside a i c) : c.nibble S.memory = S.difference a i := by
  rw [Cursor.nibble, difference, h.address, h.highDone]
  congr 1
  rcases Nat.mod_two_eq_zero_or_one i with hi | hi <;> simp [hi]

theorem advance (h : S.Inside a i c) : S.Inside a (i + 1) c.advance := by
  have hhigh := h.highDone
  rcases Nat.mod_two_eq_zero_or_one i with hm | hm
  · rw [hm] at hhigh
    rw [Cursor.advance, if_neg (by simp [hhigh])]
    refine ⟨h.header, ?_, ?_, ?_⟩
    · rw [show (i + 1) / 2 = i / 2 by omega]
      exact h.address
    · rw [show (i + 1) / 2 = i / 2 by omega]
      exact h.bytesLeft
    · rw [show (i + 1) % 2 = 1 by omega]
      rfl
  · rw [hm] at hhigh
    have hhalf : (i + 1) / 2 = i / 2 + 1 := by omega
    rw [Cursor.advance, if_pos (by simp [hhigh])]
    refine ⟨h.header, ?_, ?_, ?_⟩
    · rw [hhalf, h.address, UInt16.ofNat_add, UInt16.add_assoc (a + 1)]
      rfl
    · simp only [hhalf, h.bytesLeft, Nat.sub_sub]
    · rw [show (i + 1) % 2 = 0 by omega]
      rfl

theorem openBlock (h : S.Inside a i c) (hi : i < 16) (m : Memory) : c.openBlock m = c := by
  have hb := h.bytesLeft
  rw [Cursor.openBlock, if_neg (by omega)]

theorem atEnd (h : S.Inside a i c) (hi : i < 16) : c.atEnd = false := by
  have hb := h.bytesLeft
  have h0 : c.bytesLeft ≠ 0 := by omega
  simp [Cursor.atEnd, h0]

end Inside

/-! ## Cursors in a stream -/

/-- Whether a cursor stands behind the first `n` differences of a stream. It leaves a block only when it reads on. -/
inductive Reached (S : Stream) : Nat → Cursor → Prop
  | start : Reached S 0 { address := S.start }
  | inside {j i : Nat} {a : UInt16} {c : Cursor} (hj : S.block j = some a) (hi : i < 16) (h : S.Inside a (i + 1) c) :
    Reached S (16 * j + (i + 1)) c

/-- Whether a cursor is about to read the difference with number `n`, once it has opened its block. -/
def Opens (S : Stream) (n : Nat) (c : Cursor) : Prop :=
  ∃ j i a, n = 16 * j + i ∧ i < 16 ∧ S.block j = some a ∧ S.Inside a i (c.openBlock S.memory)

/-- At the end of a block, the next one is opened. -/
theorem opens_next {j : Nat} {a b : UInt16} {c : Cursor} (h : S.Inside a 16 c) (hb : S.block (j + 1) = some b)
    (hc : c.address = b) : S.Opens (16 * j + 16) c :=
  ⟨j + 1, 0, b, by omega, by decide, hb, inside_openBlock hc h.bytesLeft h.highDone⟩

theorem Reached.opens {n : Nat} {c : Cursor} (h : S.Reached n c) (he : c.atEnd = false) : S.Opens n c := by
  cases h with
  | start => exact ⟨0, 0, S.start, rfl, by decide, rfl, inside_openBlock rfl rfl rfl⟩
  | @inside j i a _ hj hi h =>
    by_cases hlast : i + 1 = 16
    · rw [hlast] at h ⊢
      have hends : (S.header a).ends = false := by
        have hb : c.bytesLeft = 0 := h.bytesLeft
        simpa [Cursor.atEnd, hb, h.header] using he
      have hnext : S.block (j + 1) = some (a + 9) := by
        rw [block, hj, Option.bind_some, continuation, if_neg (by simp [hends])]
      refine opens_next h hnext (h.address.trans ?_)
      rw [UInt16.add_assoc]
      rfl
    · have hlt : i + 1 < 16 := by omega
      exact ⟨j, i + 1, a, rfl, hlt, hj, by rwa [h.openBlock hlt]⟩

/-- The end of a sample is the end of a last block. -/
theorem Reached.atEnd {n : Nat} {c : Cursor} (h : S.Reached n c) (he : c.atEnd = true) :
    ∃ j a, n = 16 * j + 16 ∧ S.block (j + 1) = (if c.header.loops then some S.loop else none) ∧ S.Inside a 16 c := by
  cases h with
  | start => exact absurd (show (default : Header).ends = true from he) (by decide)
  | @inside j i a _ hj hi h =>
    by_cases hlast : i + 1 = 16
    · rw [hlast] at h ⊢
      have hends : (S.header a).ends = true := by
        have hb : c.bytesLeft = 0 := h.bytesLeft
        simpa [Cursor.atEnd, hb, h.header] using he
      refine ⟨j, a, rfl, ?_, h⟩
      rw [block, hj, Option.bind_some, continuation, if_pos hends, h.header]
    · rw [h.atEnd (by omega)] at he
      exact absurd he Bool.false_ne_true

/-- A sample that loops goes on at its loop address. -/
theorem Reached.opens_loop {n : Nat} {c : Cursor} (h : S.Reached n c) (he : c.atEnd = true)
    (hl : c.header.loops = true) : S.Opens n { c with address := S.loop } := by
  obtain ⟨j, a, rfl, hb, hi⟩ := h.atEnd he
  rw [if_pos hl] at hb
  exact ⟨j + 1, 0, S.loop, by omega, by decide, hb, inside_openBlock rfl hi.bytesLeft hi.highDone⟩

/-- A sample that does not loop is silent from its end on. -/
theorem Reached.silent {n k : Nat} {c : Cursor} (h : S.Reached n c) (he : c.atEnd = true)
    (hl : c.header.loops = false) (hk : n ≤ k) : S.sample k = 0 := by
  obtain ⟨j, a, rfl, hb, -⟩ := h.atEnd he
  rw [if_neg (by simp [hl])] at hb
  exact sample_eq_zero hb hk

end Stream

/-! ## Voices in a stream -/

/-- Whether a voice has decoded the first `n` samples of a stream. -/
structure Voice.Decoded (v : Voice) (S : Stream) (n : Nat) : Prop where
  cursor : S.Reached n v.cursor
  newest : v.ring.newest = S.history (n + 1)
  second : v.ring.second = S.history n

namespace Voice

variable {S : Stream} {v : Voice} {n : Nat}

/-- Decoding one sample puts the next one of the stream into the ring. -/
theorem ring_decodeOne (h : S.Opens n v.cursor) (hnewest : v.ring.newest = S.history (n + 1))
    (hsecond : v.ring.second = S.history n) : (v.decodeOne S.memory).ring = v.ring.push (S.sample n) := by
  obtain ⟨j, i, a, rfl, hi, hj, hin⟩ := h
  rw [Stream.sample_eq_decode hj hi, ← hnewest, ← hsecond, ← hin.nibble, ← hin.header]
  rfl

theorem Decoded.decodeOne (h : S.Opens n v.cursor) (hnewest : v.ring.newest = S.history (n + 1))
    (hsecond : v.ring.second = S.history n) : (v.decodeOne S.memory).Decoded S (n + 1) := by
  have hring := ring_decodeOne h hnewest hsecond
  obtain ⟨j, i, a, rfl, hi, hj, hin⟩ := h
  refine ⟨.inside hj hi hin.advance, ?_, ?_⟩
  · rw [hring, Ring.newest_push]
    rfl
  · rw [hring, Ring.second_push _ _ (by decide), hnewest]

/-- The samples that decoding `n` samples puts into the ring, in order. -/
def decoded (m : Memory) (entry : UInt16) : Nat → Voice → List Int
  | 0, _ => []
  | n + 1, v =>
    if v.cursor.atEnd then
      if v.cursor.header.loops then
        let next := (v.jump (m.readWord (entry + 2))).decodeOne m
        next.ring.newest :: decoded m entry n next
      else List.replicate (n + 1) 0
    else
      let next := v.decodeOne m
      next.ring.newest :: decoded m entry n next

theorem ring_silence (n : Nat) (v : Voice) : (silence n v).ring = (List.replicate n 0).foldl Ring.push v.ring := by
  induction n generalizing v with
  | zero => rfl
  | succ n ih => rw [silence, ih, List.replicate_succ, List.foldl_cons]

@[simp] theorem ring_jump (v : Voice) (address : UInt16) : (v.jump address).ring = v.ring := rfl

theorem ring_decodeOne_eq_push (m : Memory) (v : Voice) :
    (v.decodeOne m).ring = v.ring.push (v.decodeOne m).ring.newest := by
  simp [decodeOne]

/-- Decoding puts these samples into the ring and does nothing else to it. -/
theorem ring_decodeMany (m : Memory) (entry : UInt16) (n : Nat) (v : Voice) (ended : Bool) :
    (decodeMany m entry n v ended).1.ring = (decoded m entry n v).foldl Ring.push v.ring := by
  induction n generalizing v ended with
  | zero => rfl
  | succ n ih =>
    unfold decodeMany decoded
    split
    · split
      · rw [ih, List.foldl_cons, ← ring_jump v (m.readWord (entry + 2)), ← ring_decodeOne_eq_push]
      · exact ring_silence (n + 1) v.stop
    · rw [ih, List.foldl_cons, ← ring_decodeOne_eq_push]

/-- Every sample takes a unit from the position. -/
theorem position_decodeMany (m : Memory) (entry : UInt16) (n : Nat) (v : Voice) (ended : Bool) :
    (decodeMany m entry n v ended).1.position = v.position - unit * n := by
  have hsilence : ∀ (n : Nat) (v : Voice), (silence n v).position = v.position - unit * n := by
    intro n
    induction n with
    | zero => intro v; simp [silence]
    | succ n ih =>
      intro v
      simp only [silence, ih, unit]
      omega
  induction n generalizing v ended with
  | zero => simp [decodeMany]
  | succ n ih =>
    unfold decodeMany
    split
    · split
      · simp only [ih, decodeOne, jump, unit]
        omega
      · exact hsilence (n + 1) v.stop
    · simp only [ih, decodeOne, unit]
      omega

theorem playing_silence (n : Nat) (v : Voice) : (silence n v).playing = v.playing := by
  induction n generalizing v with
  | zero => rfl
  | succ n ih => exact ih _

/-- Decoding does not start a voice. -/
theorem playing_of_decodeMany {m : Memory} {entry : UInt16} {n : Nat} {v : Voice} {ended : Bool}
    (h : (decodeMany m entry n v ended).1.playing = true) : v.playing = true := by
  induction n generalizing v ended with
  | zero => exact h
  | succ n ih =>
    unfold decodeMany at h
    split at h
    · split at h
      · have hnext := ih h
        exact hnext
      · rw [playing_silence] at h
        exact absurd h Bool.false_ne_true
    · have hnext := ih h
      exact hnext

/-- Decoding any number of samples puts the next ones of the stream into the ring. -/
theorem Decoded.decoded_eq {entry : UInt16} (hl : S.memory.readWord (entry + 2) = S.loop) (h : v.Decoded S n)
    (k : Nat) : decoded S.memory entry k v = (List.range' n k).map S.sample := by
  induction k generalizing v n with
  | zero => rfl
  | succ k ih =>
    rw [List.range'_succ, List.map_cons, decoded]
    split
    next he =>
      split
      next hloops =>
        have ho : S.Opens n (v.jump (S.memory.readWord (entry + 2))).cursor := by
          rw [hl]
          exact h.cursor.opens_loop he hloops
        dsimp only
        rw [ring_decodeOne ho h.newest h.second, Ring.newest_push, ih (.decodeOne ho h.newest h.second)]
      next hloops =>
        have hzero (i : Nat) (hi : n ≤ i) := h.cursor.silent he (Bool.not_eq_true _ ▸ hloops) hi
        rw [hzero n (Nat.le_refl n), List.replicate_succ]
        refine congrArg (0 :: ·) (Eq.symm (List.eq_replicate_iff.mpr ⟨by simp, fun x hx => ?_⟩))
        obtain ⟨i, hi, rfl⟩ := List.mem_map.mp hx
        exact hzero i (by have := (List.mem_range'_1.mp hi).1; omega)
    next he =>
      have ho := h.cursor.opens (Bool.not_eq_true _ ▸ he)
      dsimp only
      rw [ring_decodeOne ho h.newest h.second, Ring.newest_push, ih (.decodeOne ho h.newest h.second)]

/-- A voice that still plays after decoding stands where the next sample of the stream begins. -/
theorem Decoded.decodeMany {entry : UInt16} (hl : S.memory.readWord (entry + 2) = S.loop) (h : v.Decoded S n) (k : Nat)
    (ended : Bool) (hp : (Voice.decodeMany S.memory entry k v ended).1.playing = true) :
    (Voice.decodeMany S.memory entry k v ended).1.Decoded S (n + k) := by
  induction k generalizing v n ended with
  | zero => exact h
  | succ k ih =>
    rw [show n + (k + 1) = n + 1 + k by omega]
    unfold Voice.decodeMany at hp ⊢
    split at hp
    next he =>
      split at hp
      next hloops =>
        have ho : S.Opens n (v.jump (S.memory.readWord (entry + 2))).cursor := by
          rw [hl]
          exact h.cursor.opens_loop he hloops
        rw [if_pos he, if_pos hloops]
        exact ih (.decodeOne ho h.newest h.second) _ hp
      next hloops =>
        rw [playing_silence] at hp
        exact absurd hp Bool.false_ne_true
    next he =>
      rw [if_neg he]
      exact ih (.decodeOne (h.cursor.opens (Bool.not_eq_true _ ▸ he)) h.newest h.second) _ hp

end Voice

end SnesSound
