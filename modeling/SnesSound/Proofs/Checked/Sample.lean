import SnesSound.Dsp.Brr.Cursor
import SnesSound.Dsp.Gauss
import SnesSound.Dsp.Ring
import SnesSound.Proofs.Checked.Bus

/-!
# Checked samples

Decoding a sample and interpolating between samples are calculations with signed 32-bit numbers. They stay far within
that range because each of their results, which is where the next one starts from, is a 16-bit number; the places in
tables and rings that they look up are in range by their form.

Main statements: on rings of 16-bit numbers neither decoding nor interpolation leaves a range (`decodeSample_eq`,
`interpolate_eq`).
-/

namespace SnesSound

/-! ## Rings -/

/-- Whether all samples of a ring lie between two bounds. -/
def Ring.Mem {n : Nat} (low high : Int) (r : Ring n) : Prop :=
  ∀ (i : Nat) (h : i < n), low ≤ r.cells[i] ∧ r.cells[i] ≤ high

namespace Ring

variable {n : Nat} {low high : Int} {r : Ring n}

theorem Mem.get (h : r.Mem low high) (age : Nat) : low ≤ r.get age ∧ r.get age ≤ high := h _ (r.place _).isLt

theorem Mem.push (h : r.Mem low high) {x : Int} (hx : low ≤ x ∧ x ≤ high) : (r.push x).Mem low high := by
  intro i hi
  simp only [Ring.push, Vector.getElem_set]
  split
  · exact hx
  · exact h i hi

theorem Mem.rewind (h : r.Mem low high) : r.rewind.Mem low high := h

theorem mem_zeros {next : Fin n} (h : low ≤ 0 ∧ 0 ≤ high) : (zeros next).Mem low high := by
  intro i hi
  rw [zeros, Vector.getElem_replicate]
  exact h

end Ring

namespace Checked

/-- The sample of a ring that is `age` after the oldest one. -/
def ringGet {n : Nat} (r : Ring n) (age : Nat) : Checked Int := do
  let i ← natural 64 (r.next + age)
  let i ← remainder i n
  cell r.cells i

/-- Puts a new sample in place of the oldest one. -/
def ringPush {n : Nat} (r : Ring n) (x : Int) : Checked (Ring n) := do
  let cells ← setCell r.cells r.next x
  let i ← natural 64 (r.next + 1)
  let i ← remainder i n
  let next ← index .outOfBounds n i
  return ⟨cells, next⟩

section Rings

variable {n : Nat} (r : Ring n) (hn : n ≤ 8)
include hn

theorem ringGet_eq {age : Nat} (h : age ≤ 8) : ringGet r age = .ok (r.get age) := by
  have hlt := r.next.isLt
  rw [ringGet, natural_ok (by omega), ok_bind, remainder_ok (by omega), ok_bind, cell_ok (Nat.mod_lt _ (by omega))]
  rfl

theorem ringPush_eq (x : Int) : ringPush r x = .ok (r.push x) := by
  have hlt := r.next.isLt
  rw [ringPush, setCell_ok hlt, ok_bind, natural_ok (by omega), ok_bind, remainder_ok (by omega), ok_bind,
    index_ok (Nat.mod_lt _ (by omega))]
  rfl

end Rings

/-! ## Decoding -/

/-- The difference scaled by the range of its block. -/
def scaleDifference (range : Nat) (nibble : Int) : Checked Int :=
  if range ≤ 12 then do
    let range ← places 32 range
    let shifted ← i32 (nibble <<< range)
    return shifted / 2
  else return nibble / 2048 * 2048

/-- Adds a prediction to a number, one product after the other. -/
def predict (x : Int) (filter : Brr.Filter) (old older : Int) : Checked Int :=
  let half := older / 2
  match filter with
  | .none => return x
  | .first => do
    let x ← i32 (x + old / 2)
    let negated ← i32 (-old)
    i32 (x + negated / 32)
  | .second => do
    let x ← i32 (x + old)
    let x ← i32 (x - half)
    let x ← i32 (x + half / 16)
    let product ← i32 (old * -3)
    i32 (x + product / 64)
  | .third => do
    let x ← i32 (x + old)
    let x ← i32 (x - half)
    let product ← i32 (old * -13)
    let x ← i32 (x + product / 128)
    let product ← i32 (half * 3)
    i32 (x + product / 16)

/-- Decodes a sample from its difference, the header of its block and the two samples before it. -/
def decodeSample (nibble : Int) (header : Brr.Header) (old older : Int) : Checked Int := do
  let x ← scaleDifference header.range nibble
  let x ← predict x header.filter old older
  let doubled ← i32 (clamp16 x * 2)
  return wrap16 doubled

theorem nibble_mem (b : UInt8) (high : Bool) : -8 ≤ Brr.nibble b high ∧ Brr.nibble b high ≤ 7 := by
  have h1 := signed8_mem b
  have h2 := signed8_mem (b <<< 4)
  unfold Brr.nibble
  split <;> omega

/-- A difference takes no more than 16 bits after scaling. -/
theorem scaleDifference_eq (range : Nat) {nibble : Int} (h : -8 ≤ nibble ∧ nibble ≤ 7) :
    scaleDifference range nibble = .ok (Brr.scale range nibble) ∧
      -16384 ≤ Brr.scale range nibble ∧ Brr.scale range nibble ≤ 16384 := by
  unfold scaleDifference Brr.scale
  split
  next hr =>
    have hpos : 0 < (2 : Int) ^ range := Int.pow_pos (by decide)
    have hpow : (2 : Int) ^ range ≤ 4096 :=
      calc (2 : Int) ^ range = ((2 ^ range : Nat) : Int) := (Int.natCast_pow 2 range).symm
        _ ≤ 4096 := Int.ofNat_le.mpr (Nat.pow_le_pow_right (by decide : 0 < 2) hr)
    have hmem : -(8 * 4096) ≤ nibble <<< range ∧ nibble <<< range ≤ 8 * 4096 := by
      rw [Int.shiftLeft_eq]
      exact mul_mem ⟨by omega, by omega⟩ ⟨by omega, hpow⟩
    rw [places_ok (by omega), ok_bind, i32_ok (by omega)]
    exact ⟨rfl, by omega, by omega⟩
  next => exact ⟨rfl, by omega, by omega⟩

/-- Predictions from 16-bit numbers fit into 32 bits, and so does everything on the way to them. -/
theorem predict_eq {x old older : Int} (hx : -16384 ≤ x ∧ x ≤ 16384) (filter : Brr.Filter)
    (hold : -32768 ≤ old ∧ old ≤ 32767) (holder : -32768 ≤ older ∧ older ≤ 32767) :
    predict x filter old older = .ok (x + Brr.predict filter old older) := by
  cases filter with
  | none =>
    rw [predict, Brr.predict, Int.add_zero]
    rfl
  | first =>
    simp only [predict, Brr.predict]
    rw [i32_ok (by omega), ok_bind, i32_ok (by omega), ok_bind, i32_ok (by omega), Int.add_assoc]
  | second =>
    simp only [predict, Brr.predict]
    rw [i32_ok (by omega), ok_bind, i32_ok (by omega), ok_bind, i32_ok (by omega), ok_bind, i32_ok (by omega), ok_bind,
      i32_ok (by omega)]
    congr 1
    omega
  | third =>
    simp only [predict, Brr.predict]
    rw [i32_ok (by omega), ok_bind, i32_ok (by omega), ok_bind, i32_ok (by omega), ok_bind, i32_ok (by omega), ok_bind,
      i32_ok (by omega), ok_bind, i32_ok (by omega)]
    congr 1
    omega

/-- Decoding never stops the engine. -/
theorem decodeSample_eq {nibble old older : Int} (h : -8 ≤ nibble ∧ nibble ≤ 7) (header : Brr.Header)
    (hold : -32768 ≤ old ∧ old ≤ 32767) (holder : -32768 ≤ older ∧ older ≤ 32767) :
    decodeSample nibble header old older = .ok (Brr.decode nibble header old older) := by
  obtain ⟨hscale, hmem⟩ := scaleDifference_eq header.range h
  have hclamp := clamp16_mem (Brr.scale header.range nibble + Brr.predict header.filter old older)
  rw [decodeSample, hscale, ok_bind, predict_eq hmem header.filter hold holder, ok_bind, i32_ok (by omega)]
  rfl

/-! ## Interpolation -/

/-- Weights a sample. -/
def tap (i : Nat) (sample : Int) : Checked Int := do
  let row ← cell Gauss.curve (i / 16)
  let weight ← cell row (i % 16)
  let product ← i32 (weight * sample)
  return product / 2048

/-- Weights the sample of a ring that is `age` after the oldest one. -/
def weighted (r : Ring 4) (age i : Nat) : Checked Int := do
  let sample ← ringGet r age
  tap i sample

/-- The value at a position between the two middle samples of a ring. -/
def interpolate (position : Nat) (r : Ring 4) : Checked Int := do
  let i0 ← subtract 255 position
  let t0 ← weighted r 0 i0
  let i1 ← subtract 511 position
  let t1 ← weighted r 1 i1
  let output ← i32 (t0 + t1)
  let t2 ← weighted r 2 (256 + position)
  let output ← i32 (output + t2)
  let t3 ← weighted r 3 position
  let output ← i32 (wrap16 output + t3)
  return evenBelow (clamp16 output)

theorem weight_mul_mem (i : Fin 512) {sample : Int} (h : -32768 ≤ sample ∧ sample ≤ 32767) :
    -(1305 * 32768) ≤ Gauss.weight i * sample ∧ Gauss.weight i * sample ≤ 1305 * 32768 := by
  have hweight := Gauss.weight_mem i
  exact mul_mem ⟨by omega, hweight.2⟩ ⟨h.1, by omega⟩

/-- A weighted sample is no greater than the sample. -/
theorem tap_mem (i : Fin 512) {sample : Int} (h : -32768 ≤ sample ∧ sample ≤ 32767) :
    -20880 ≤ Gauss.tap i sample ∧ Gauss.tap i sample ≤ 20880 := by
  have hmem := weight_mul_mem i h
  unfold Gauss.tap
  omega

theorem tap_eq (i : Fin 512) {sample : Int} (h : -32768 ≤ sample ∧ sample ≤ 32767) :
    tap i sample = .ok (Gauss.tap i sample) := by
  have hmem := weight_mul_mem i h
  have hrow : i.val / 16 < 32 := by omega
  have hcolumn : i.val % 16 < 16 := by omega
  rw [tap, cell_ok hrow, ok_bind, cell_ok hcolumn, ok_bind]
  change i32 (Gauss.weight i * sample) >>= _ = _
  rw [i32_ok (by omega), ok_bind]
  rfl

section Interpolation

variable {r : Ring 4} (h : r.Mem (-32768) 32767)
include h

theorem weighted_eq {age : Nat} (ha : age ≤ 8) {i : Nat} (hi : i < 512) :
    weighted r age i = .ok (Gauss.tap ⟨i, hi⟩ (r.get age)) := by
  rw [weighted, ringGet_eq r (by decide) ha, ok_bind]
  exact tap_eq ⟨i, hi⟩ (h.get age)

/-- Interpolation never stops the engine. -/
theorem interpolate_eq (position : Fin 256) :
    interpolate position r = .ok (Gauss.interpolate position (r.get 0) (r.get 1) (r.get 2) (r.get 3)) := by
  have h0 := tap_mem ⟨255 - position, by omega⟩ (h.get 0)
  have h1 := tap_mem ⟨511 - position, by omega⟩ (h.get 1)
  have h2 := tap_mem ⟨256 + position, by omega⟩ (h.get 2)
  have h3 := tap_mem ⟨position, by omega⟩ (h.get 3)
  have hwrap := wrap16_mem (Gauss.tap ⟨255 - position, by omega⟩ (r.get 0) +
    Gauss.tap ⟨511 - position, by omega⟩ (r.get 1) + Gauss.tap ⟨256 + position, by omega⟩ (r.get 2))
  rw [interpolate, subtract_ok (by omega), ok_bind, weighted_eq h (by decide) (by omega), ok_bind,
    subtract_ok (by omega), ok_bind, weighted_eq h (by decide) (by omega), ok_bind, i32_ok (by omega), ok_bind,
    weighted_eq h (by decide) (by omega), ok_bind, i32_ok (by omega), ok_bind,
    weighted_eq h (by decide) (by omega), ok_bind, i32_ok (by omega)]
  rfl

end Interpolation

end Checked

end SnesSound
