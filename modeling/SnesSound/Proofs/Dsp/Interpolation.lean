import Mathlib.Algebra.BigOperators.Fin
import Mathlib.Algebra.Order.BigOperators.Ring.Finset
import Mathlib.Tactic.Linarith
import SnesSound.Dsp.Voice

/-!
# Interpolation away from full scale

Wherever a voice stands between two samples, the four weights of the bell curve are not negative and add up to 2048,
give or take one. So no choice of them, with samples of whichever sign, comes to more than the loudest sample but for
one part in 2048 and the rounding of the products. This is why the sum of the first three products, which wraps around
at 16 bits, leaves that range only if the samples come close to its ends, and why a constant signal keeps its value.

Main statements: away from full scale no sum of some of the products leaves the 16-bit range (`partialSum_mem`), so that
a voice interpolates by four weights without ever wrapping around, and with a gain of one (`interpolates_at_unit_gain`).
-/

namespace SnesSound

namespace Voice

variable (v : Voice)

/-! ## Weights -/

/-- The weights of the samples in the ring, that of the oldest one first. -/
def weights : Fin 4 → Int :=
  ![Gauss.weight ⟨255 - v.fraction, by omega⟩, Gauss.weight ⟨511 - v.fraction, by omega⟩,
    Gauss.weight ⟨256 + v.fraction, by omega⟩, Gauss.weight ⟨v.fraction, by omega⟩]

theorem weights_nonneg : ∀ k, 0 ≤ v.weights k
  | 0 | 1 | 2 | 3 => (Gauss.weight_mem _).1

/-- The weights at any fraction add up to 2048, give or take one. -/
theorem abs_sum_weights_sub_le : |∑ k, v.weights k - 2048| ≤ 1 := by
  have hall : ∀ i : Fin 256, |Gauss.weight ⟨255 - i, by omega⟩ + Gauss.weight ⟨511 - i, by omega⟩ +
      Gauss.weight ⟨256 + i, by omega⟩ + Gauss.weight ⟨i, by omega⟩ - 2048| ≤ 1 := by decide +kernel
  rw [Fin.sum_univ_four]
  exact hall v.fraction

/-! ## Sums of products -/

/-- The weighted samples of a choice of places, each rounded down, in one sum. -/
def partialSum (s : Finset (Fin 4)) : Int := ∑ k ∈ s, v.weights k * v.ring.get k / 2048

/-- The sum that wraps around. -/
theorem partialSum_inner : v.partialSum {0, 1, 2} = v.weights 0 * v.ring.get 0 / 2048 +
    v.weights 1 * v.ring.get 1 / 2048 + v.weights 2 * v.ring.get 2 / 2048 := by
  rw [partialSum, Finset.sum_insert (by decide), Finset.sum_pair (by decide), ← add_assoc]
  rfl

/-- The sum that saturates. -/
theorem partialSum_univ : v.partialSum .univ = v.partialSum {0, 1, 2} + v.weights 3 * v.ring.get 3 / 2048 := by
  rw [partialSum_inner, partialSum, Fin.sum_univ_four]
  rfl

theorem interpolate_eq : v.interpolate =
    evenBelow (clamp16 (wrap16 (v.partialSum {0, 1, 2}) + v.weights 3 * v.ring.get 3 / 2048)) := by
  rw [partialSum_inner]
  rfl

/-- Rounding down takes less than one from each product. -/
theorem partialSum_rounds (s : Finset (Fin 4)) :
    2048 * v.partialSum s ≤ ∑ k ∈ s, v.weights k * v.ring.get k ∧
      ∑ k ∈ s, v.weights k * v.ring.get k ≤ 2048 * v.partialSum s + 4 * 2047 := by
  have hcard : (s.card : Int) ≤ 4 := by exact_mod_cast card_finset_fin_le s
  rw [partialSum, Finset.mul_sum]
  constructor
  · exact Finset.sum_le_sum fun k _ => by omega
  · calc ∑ k ∈ s, v.weights k * v.ring.get k
        ≤ ∑ k ∈ s, (2048 * (v.weights k * v.ring.get k / 2048) + 2047) := Finset.sum_le_sum fun k _ => by omega
      _ = ∑ k ∈ s, 2048 * (v.weights k * v.ring.get k / 2048) + s.card * 2047 := by
        rw [Finset.sum_add_distrib, Finset.sum_const, nsmul_eq_mul]
      _ ≤ ∑ k ∈ s, 2048 * (v.weights k * v.ring.get k / 2048) + 4 * 2047 := by omega

variable {v}

/-- Before rounding, some of the products come to no more than a bound of the samples with all weights. -/
theorem abs_sum_products_le {b : Int} (h : ∀ x ∈ v.ring.toList, |x| ≤ b) (s : Finset (Fin 4)) :
    |∑ k ∈ s, v.weights k * v.ring.get k| ≤ 2049 * b := by
  have hget (k : Fin 4) : |v.ring.get k| ≤ b := h _ (v.ring.get_mem_toList k.isLt)
  have hb : 0 ≤ b := (abs_nonneg _).trans (hget 0)
  have hgain := abs_le.mp v.abs_sum_weights_sub_le
  calc |∑ k ∈ s, v.weights k * v.ring.get k|
      ≤ ∑ k ∈ s, |v.weights k * v.ring.get k| := Finset.abs_sum_le_sum_abs _ _
    _ = ∑ k ∈ s, v.weights k * |v.ring.get k| :=
      Finset.sum_congr rfl fun k _ => by rw [abs_mul, abs_of_nonneg (v.weights_nonneg k)]
    _ ≤ ∑ k ∈ s, v.weights k * b :=
      Finset.sum_le_sum fun k _ => mul_le_mul_of_nonneg_left (hget k) (v.weights_nonneg k)
    _ ≤ ∑ k, v.weights k * b := Finset.sum_le_univ_sum_of_nonneg fun k => mul_nonneg (v.weights_nonneg k) hb
    _ = (∑ k, v.weights k) * b := (Finset.sum_mul ..).symm
    _ ≤ 2049 * b := mul_le_mul_of_nonneg_right (by omega) hb

/-- **Away from full scale no sum of some of the products leaves the 16-bit range.** -/
theorem partialSum_mem (h : ∀ x ∈ v.ring.toList, |x| ≤ 32600) (s : Finset (Fin 4)) :
    -32768 ≤ v.partialSum s ∧ v.partialSum s ≤ 32767 := by
  have hexact := abs_le.mp (abs_sum_products_le h s)
  have hrounds := v.partialSum_rounds s
  omega

/-! ## Interpolation -/

/-- Away from full scale nothing wraps around and nothing saturates. -/
theorem interpolate_eq_partialSum (h : ∀ x ∈ v.ring.toList, |x| ≤ 32600) :
    v.interpolate = evenBelow (v.partialSum .univ) := by
  rw [interpolate_eq, wrap16_of_mem (partialSum_mem h _), ← partialSum_univ, clamp16_of_mem (partialSum_mem h _)]

/-- A constant signal keeps its value but for one part in 2048, and what is rounded off four products and their sum. -/
theorem abs_interpolate_sub_le {c : Int} (h : ∀ x ∈ v.ring.toList, |x| ≤ 32600) (hc : ∀ x ∈ v.ring.toList, x = c) :
    2048 * |v.interpolate - c| ≤ |c| + 5 * 2048 := by
  have hexact : ∑ k, v.weights k * v.ring.get k = (∑ k, v.weights k) * c := by
    rw [Finset.sum_mul]
    exact Finset.sum_congr rfl fun k _ => by rw [hc _ (v.ring.get_mem_toList k.isLt)]
  have hgain : |∑ k, v.weights k * v.ring.get k - 2048 * c| ≤ |c| := by
    rw [hexact, ← sub_mul, abs_mul]
    exact mul_le_of_le_one_left (abs_nonneg c) v.abs_sum_weights_sub_le
  have hrounds := v.partialSum_rounds .univ
  have heven : v.interpolate = v.partialSum .univ - v.partialSum .univ % 2 := interpolate_eq_partialSum h
  rw [abs_le] at hgain
  calc 2048 * |v.interpolate - c|
      = |2048 * (v.interpolate - c)| := by rw [abs_mul, abs_of_pos (by decide : (0 : Int) < 2048)]
    _ ≤ |c| + 5 * 2048 := abs_le.mpr ⟨by omega, by omega⟩

/-- **Away from full scale a voice interpolates by four weights, with a gain of one**: as long as no sample of the ring
is above 32600 in absolute value, wherever the ring begins and at any fraction, the sum of the first three products does
not wrap around, so that the output is the sum of all four, saturated and with its lowest bit cleared; and if all
samples are the same, it differs from them by no more than one part in 256 and 5 more. -/
theorem interpolates_at_unit_gain (v : Voice) (h : ∀ x ∈ v.ring.toList, |x| ≤ 32600) :
    let y0 := Gauss.weight ⟨255 - v.fraction, by omega⟩ * v.ring.get 0 / 2048
    let y1 := Gauss.weight ⟨511 - v.fraction, by omega⟩ * v.ring.get 1 / 2048
    let y2 := Gauss.weight ⟨256 + v.fraction, by omega⟩ * v.ring.get 2 / 2048
    let y3 := Gauss.weight ⟨v.fraction, by omega⟩ * v.ring.get 3 / 2048
    wrap16 (y0 + y1 + y2) = y0 + y1 + y2 ∧ v.interpolate = evenBelow (clamp16 (y0 + y1 + y2 + y3)) ∧
      ∀ c : Int, (∀ x ∈ v.ring.toList, x = c) → |(v.interpolate - c : ℚ)| ≤ |(c : ℚ)| / 256 + 5 := by
  intro y0 y1 y2 y3
  have hinner : v.partialSum {0, 1, 2} = y0 + y1 + y2 := v.partialSum_inner
  have hwrap : wrap16 (y0 + y1 + y2) = y0 + y1 + y2 := wrap16_of_mem (hinner ▸ partialSum_mem h _)
  refine ⟨hwrap, ?output, ?constant⟩
  case output =>
    rw [interpolate_eq, hinner, hwrap]
    rfl
  case constant =>
    intro c hc
    have hsub : 2048 * |(v.interpolate - c : ℚ)| ≤ |(c : ℚ)| + 5 * 2048 := by
      exact_mod_cast abs_interpolate_sub_le h hc
    linarith [abs_nonneg (c : ℚ)]

/-- A constant signal at the lower bound, where the weights of the first three samples are the greatest. -/
theorem interpolates_at_unit_gain_loud :
    let v : Voice := { ring := ⟨#v[-32600, -32600, -32600, -32600], 1⟩, position := -4096 }
    (∀ x ∈ v.ring.toList, |x| ≤ 32600) ∧ (∀ x ∈ v.ring.toList, x = -32600) ∧ v.interpolate = -32618 ∧
      |(v.interpolate + 32600 : ℚ)| ≤ 32600 / 256 + 5 := by
  intro v
  have hbound : ∀ x ∈ v.ring.toList, |x| ≤ 32600 := by decide
  have hsame : ∀ x ∈ v.ring.toList, x = -32600 := by decide
  obtain ⟨-, houtput, hconstant⟩ := interpolates_at_unit_gain v hbound
  refine ⟨hbound, hsame, houtput.trans (by decide), ?_⟩
  simpa [abs_of_pos] using hconstant (-32600) hsame

end Voice

end SnesSound
