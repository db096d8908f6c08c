import Mathlib.Data.LawfulXor.Basic
import Mathlib.Data.Nat.ModEq
import Mathlib.Dynamics.PeriodicPts.Lemmas
import Mathlib.Tactic.NormNum.Prime
import SnesSound.Proofs.Dsp.Rate

/-!
# The period of the noise

The shift register takes the sum of its two lowest bits in at the top, so after fifteen shifts its value is the sum of
what it was and of what it was after one shift. There is such an equation for every power of two: `15 * 2 ^ j` shifts
give the sum of the value and of what it is after `2 ^ j` shifts. These equations tell what `2 ^ 15` shifts do, namely
the same as one; and they compute the value after thousands of shifts in a few steps, which shows that the seed does not
come back any sooner than after 32767 shifts.

Main statements: the period of the seed is 32767 (`minimalPeriod_seed`), and the noise goes through all values that are
not zero before it repeats one (`noise_has_maximal_period`).
-/

namespace SnesSound

namespace Noise

open Function

/-! ## Bits of the register -/

/-- A bit of the shift register. -/
def shiftBit (x : UInt16) (i : Nat) : Bool := x.toBitVec.getLsbD i

variable {x y : UInt16}

theorem shiftBit_xor (x y : UInt16) (i : Nat) : shiftBit (x ^^^ y) i = (shiftBit x i ^^ shiftBit y i) :=
  BitVec.getLsbD_xor

theorem shiftBit_of_ge (h : x < 0x8000) {i : Nat} (hi : 15 ≤ i) : shiftBit x i = false :=
  Nat.testBit_lt_two_pow (Nat.lt_of_lt_of_le (UInt16.lt_iff_toNat_lt.mp h) (Nat.pow_le_pow_right Nat.two_pos hi))

/-- The register has fifteen bits. -/
theorem ext_shiftBit (hx : x < 0x8000) (hy : y < 0x8000) (h : ∀ i < 15, shiftBit x i = shiftBit y i) : x = y := by
  refine UInt16.toNat_inj.mp (Nat.eq_of_testBit_eq fun i => ?_)
  by_cases hi : i < 15
  · exact h i hi
  · have hge := Nat.not_lt.mp hi
    exact (shiftBit_of_ge hx hge).trans (shiftBit_of_ge hy hge).symm

theorem xor_lt (hx : x < 0x8000) (hy : y < 0x8000) : x ^^^ y < 0x8000 := by
  refine UInt16.lt_iff_toNat_lt.mpr ?_
  rw [UInt16.toNat_xor]
  exact Nat.xor_lt_two_pow (n := 15) (UInt16.lt_iff_toNat_lt.mp hx) (UInt16.lt_iff_toNat_lt.mp hy)

theorem next_lt (x : UInt16) : next x < 0x8000 := by
  have hx := x.toNat_lt
  have hfeedback : (x.toNat <<< 13 % 65536 ^^^ x.toNat <<< 14 % 65536) &&& 16384 < 2 ^ 15 :=
    Nat.lt_of_le_of_lt Nat.and_le_right (by decide)
  have hrest : x.toNat >>> 1 < 2 ^ 15 := by
    rw [Nat.shiftRight_eq_div_pow]
    omega
  refine UInt16.lt_iff_toNat_lt.mpr ?_
  simpa [next] using Nat.or_lt_two_pow hfeedback hrest

theorem iterate_next_lt (h : x < 0x8000) : ∀ n, next^[n] x < 0x8000
  | 0 => h
  | n + 1 => by
    rw [iterate_succ_apply']
    exact next_lt _

theorem shiftBit_next_of_lt (x : UInt16) {i : Nat} (h : i < 14) : shiftBit (next x) i = shiftBit x (i + 1) := by
  have hmask : ∀ i : Fin 14, (0x4000#16).getLsbD i = false := by decide
  simp [shiftBit, next, hmask ⟨i, h⟩, Nat.add_comm]

theorem shiftBit_next_top (h : x < 0x8000) : shiftBit (next x) 14 = (shiftBit x 0 ^^ shiftBit x 1) := by
  have htop : x.toBitVec[15] = false := shiftBit_of_ge h (Nat.le_refl 15)
  simp [shiftBit, next, htop, Bool.xor_comm]

/-- A bit moves down by one with every shift. -/
theorem shiftBit_iterate (x : UInt16) {i n : Nat} (h : i + n < 15) : shiftBit (next^[n] x) i = shiftBit x (i + n) := by
  induction n generalizing i with
  | zero => rfl
  | succ n ih =>
    rw [iterate_succ_apply', shiftBit_next_of_lt _ (by omega), ih (by omega)]
    congr 1
    omega

/-! ## Equations between numbers of shifts -/

/-- Fifteen shifts: every bit has been at the top in between, where it came in as the sum of two. -/
theorem iterate_fifteen (h : x < 0x8000) : next^[15] x = next x ^^^ x := by
  refine ext_shiftBit (iterate_next_lt h 15) (xor_lt (next_lt x) h) fun i hi => ?_
  calc shiftBit (next^[15] x) i
      = shiftBit (next^[14 - i] (next^[i + 1] x)) i := by
        rw [← iterate_add_apply]
        congr 2
        omega
    _ = shiftBit (next (next^[i] x)) 14 := by
        rw [shiftBit_iterate _ (by omega), iterate_succ_apply']
        congr 1
        omega
    _ = (shiftBit (next^[i] x) 0 ^^ shiftBit (next^[i] x) 1) := shiftBit_next_top (iterate_next_lt h i)
    _ = (shiftBit (next^[i] x) 0 ^^ shiftBit (next^[i] (next x)) 0) := by
        rw [← iterate_succ_apply, iterate_succ_apply', shiftBit_next_of_lt _ (by decide)]
    _ = shiftBit (next x ^^^ x) i := by
        rw [shiftBit_iterate _ (by omega), shiftBit_iterate _ (by omega), shiftBit_xor, Bool.xor_comm, Nat.zero_add]

/-- The equation for fifteen shifts, squared again and again. -/
theorem iterate_fifteen_mul (h : x < 0x8000) (j : Nat) : next^[15 * 2 ^ j] x = next^[2 ^ j] x ^^^ x := by
  induction j generalizing x with
  | zero => exact iterate_fifteen h
  | succ j ih =>
    have hpow : 2 ^ (j + 1) = 2 ^ j + 2 ^ j := Nat.two_pow_succ j
    calc next^[15 * 2 ^ (j + 1)] x
        = next^[15 * 2 ^ j] (next^[15 * 2 ^ j] x) := by rw [← iterate_add_apply, hpow, Nat.mul_add]
      _ = next^[2 ^ j] (next^[15 * 2 ^ j] x) ^^^ next^[15 * 2 ^ j] x := ih (iterate_next_lt h _)
      _ = next^[15 * 2 ^ j] (next^[2 ^ j] x) ^^^ next^[15 * 2 ^ j] x := by
          rw [← iterate_add_apply, ← iterate_add_apply, Nat.add_comm]
      _ = (next^[2 ^ j] (next^[2 ^ j] x) ^^^ next^[2 ^ j] x) ^^^ (next^[2 ^ j] x ^^^ x) := by
          rw [ih (iterate_next_lt h _), ih h]
      _ = next^[2 ^ (j + 1)] x ^^^ x := by
          rw [← iterate_add_apply, ← hpow, xor_assoc, xor_cancel_left]

/-- What `2 ^ j` shifts do, put together from what up to eight of them do. -/
def leap : Nat → UInt16 → UInt16
  | 0, x => next x
  | 1, x => next^[2] x
  | 2, x => next^[4] x
  | 3, x => next^[8] x
  | j + 4, x => leap (j + 1) x ^^^ leap j x

theorem iterate_two_pow (h : x < 0x8000) (j : Nat) : next^[2 ^ j] x = leap j x := by
  induction j, x using leap.induct with
  | case1 | case2 | case3 | case4 => rfl
  | case5 j x ih ih' =>
    calc next^[2 ^ (j + 4)] x
        = next^[15 * 2 ^ j] (next^[2 ^ j] x) := by
          rw [← iterate_add_apply, Nat.pow_add]
          congr 1
          omega
      _ = next^[2 ^ j] (next^[2 ^ j] x) ^^^ next^[2 ^ j] x := iterate_fifteen_mul (iterate_next_lt h _) j
      _ = next^[2 ^ (j + 1)] x ^^^ next^[2 ^ j] x := by rw [← iterate_add_apply, ← Nat.two_pow_succ]
      _ = leap (j + 1) x ^^^ leap j x := by rw [ih h, ih' h]

/-- Any number of shifts as a sequence of leaps. -/
theorem iterate_sum_two_pow (h : x < 0x8000) : ∀ js : List Nat, next^[(js.map (2 ^ ·)).sum] x = js.foldr leap x
  | [] => rfl
  | j :: js => by
    rw [List.map_cons, List.sum_cons, iterate_add_apply, iterate_two_pow (iterate_next_lt h _),
      iterate_sum_two_pow h js]
    rfl

/-! ## The period -/

/-- A shift can be undone. -/
theorem eq_of_next (h : x < 0x8000) : next^[14] (next x) ^^^ next x = x := by
  rw [← iterate_succ_apply, iterate_fifteen h, xor_xor_cancel_comm]

theorem next_injOn (hx : x < 0x8000) (hy : y < 0x8000) (h : next x = next y) : x = y := by
  rw [← eq_of_next hx, h, eq_of_next hy]

theorem next_ne_zero (h : x < 0x8000) (hne : x ≠ 0) : next x ≠ 0 := by
  intro hzero
  refine hne (next_injOn h (by decide) ?_)
  rw [hzero]
  rfl

/-- Eight doublings later. -/
theorem leap_add_eight (j : Nat) (x : UInt16) : leap (j + 8) x = leap (j + 2) x ^^^ leap j x :=
  calc leap (j + 8) x
      = (leap (j + 2) x ^^^ leap (j + 1) x) ^^^ (leap (j + 1) x ^^^ leap j x) := rfl
    _ = leap (j + 2) x ^^^ leap j x := by rw [xor_assoc, xor_cancel_left]

/-- All but one of the terms that `2 ^ 15` shifts are put together from cancel each other out. -/
theorem leap_fifteen (x : UInt16) : leap 15 x = next x :=
  calc leap 15 x
      = leap 12 x ^^^ leap 11 x := rfl
    _ = (leap 6 x ^^^ leap 4 x) ^^^ (leap 5 x ^^^ leap 3 x) := by rw [leap_add_eight 4, leap_add_eight 3]
    _ = ((leap 3 x ^^^ leap 2 x) ^^^ (leap 1 x ^^^ leap 0 x)) ^^^ ((leap 2 x ^^^ leap 1 x) ^^^ leap 3 x) := rfl
    _ = (leap 3 x ^^^ leap 3 x) ^^^ (leap 2 x ^^^ leap 2 x) ^^^ (leap 1 x ^^^ leap 1 x) ^^^ leap 0 x := by ac_rfl
    _ = next x := by simp only [LawfulXor.xor_self, zero_xor, leap]

/-- After 32767 shifts every value is back. -/
theorem iterate_period (h : x < 0x8000) : next^[32767] x = x := by
  refine next_injOn (iterate_next_lt h _) h ?_
  rw [← iterate_succ_apply' next]
  exact (iterate_two_pow h 15).trans (leap_fifteen x)

/-- The period of a point is a number of turns that lead back to it, if no number does that leaves out one of its prime
factors. -/
theorem minimalPeriod_eq_of_forall_prime {α : Type} {f : α → α} {a : α} {n : Nat} (h : IsPeriodicPt f n a)
    (hne : ∀ q, q.Prime → q ∣ n → f^[n / q] a ≠ a) : minimalPeriod f a = n := by
  obtain ⟨k, hk⟩ := h.minimalPeriod_dvd
  by_cases hone : k = 1
  · rw [hk, hone, Nat.mul_one]
  · obtain ⟨q, hq, hqk⟩ := Nat.exists_prime_and_dvd hone
    have hdvd : q * minimalPeriod f a ∣ n := by
      rw [Nat.mul_comm, hk]
      exact Nat.mul_dvd_mul_left _ hqk
    have hback : IsPeriodicPt f (n / q) a := isPeriodicPt_iff_minimalPeriod_dvd.mpr (Nat.dvd_div_of_mul_dvd hdvd)
    exact absurd hback (hne q hq (Dvd.dvd.trans (Nat.dvd_mul_right ..) hdvd))

theorem prime_dvd_period {q : Nat} (hq : q.Prime) (h : q ∣ 32767) : q = 7 ∨ q = 31 ∨ q = 151 := by
  have hfactors : q ∣ 7 * 31 * 151 := h
  rwa [hq.dvd_mul, hq.dvd_mul, or_assoc, Nat.prime_dvd_prime_iff_eq hq (by norm_num),
    Nat.prime_dvd_prime_iff_eq hq (by norm_num), Nat.prime_dvd_prime_iff_eq hq (by norm_num)] at hfactors

/-- The seed is not back when one of the three primes is left out. -/
theorem iterate_seed_ne :
    next^[32767 / 7] 0x4000 ≠ 0x4000 ∧ next^[32767 / 31] 0x4000 ≠ 0x4000 ∧ next^[32767 / 151] 0x4000 ≠ 0x4000 := by
  have hseed : (0x4000 : UInt16) < 0x8000 := by decide
  have h7 : 32767 / 7 = ([12, 9, 6, 3, 0].map (2 ^ ·)).sum := by decide
  have h31 : 32767 / 31 = ([10, 5, 0].map (2 ^ ·)).sum := by decide
  have h151 : 32767 / 151 = ([7, 6, 4, 3, 0].map (2 ^ ·)).sum := by decide
  rw [h7, h31, h151, iterate_sum_two_pow hseed, iterate_sum_two_pow hseed, iterate_sum_two_pow hseed]
  decide +kernel

theorem minimalPeriod_seed : minimalPeriod next 0x4000 = 32767 := by
  obtain ⟨h7, h31, h151⟩ := iterate_seed_ne
  refine minimalPeriod_eq_of_forall_prime (iterate_period (by decide)) fun q hq hdvd => ?_
  rcases prime_dvd_period hq hdvd with rfl | rfl | rfl
  · exact h7
  · exact h31
  · exact h151

/-- Only the number of shifts modulo the period matters. -/
theorem iterate_seed_eq_iff {m n : Nat} : next^[m] 0x4000 = next^[n] 0x4000 ↔ m ≡ n [MOD 32767] := by
  have hlt (k : Nat) : k % minimalPeriod next 0x4000 < minimalPeriod next 0x4000 :=
    Nat.mod_lt _ (by rw [minimalPeriod_seed]; decide)
  rw [← iterate_mod_minimalPeriod_eq, ← iterate_mod_minimalPeriod_eq (n := n),
    iterate_eq_iterate_iff_of_lt_minimalPeriod (hlt m) (hlt n), minimalPeriod_seed]
  rfl

/-- The values that the register has: all of fifteen bits but zero. -/
def values : Set UInt16 := {x | 1 ≤ x ∧ x ≤ 0x7FFF}

theorem mem_values_iff_toNat : x ∈ values ↔ x.toNat ∈ Finset.Icc 1 0x7FFF := by
  rw [Finset.mem_Icc]
  exact and_congr UInt16.le_iff_toNat_le UInt16.le_iff_toNat_le

theorem mem_values_iff : x ∈ values ↔ x < 0x8000 ∧ x ≠ 0 := by
  rw [mem_values_iff_toNat, Finset.mem_Icc, UInt16.lt_iff_toNat_lt, ne_eq, ← UInt16.toNat_inj]
  change 1 ≤ x.toNat ∧ x.toNat ≤ 0x7FFF ↔ x.toNat < 0x8000 ∧ x.toNat ≠ 0
  omega

theorem next_mem_values (h : x ∈ values) : next x ∈ values := by
  rw [mem_values_iff] at *
  exact ⟨next_lt x, next_ne_zero h.1 h.2⟩

theorem iterate_mem_values (h : x ∈ values) (n : Nat) : next^[n] x ∈ values :=
  Set.MapsTo.iterate (fun _ hx => next_mem_values hx) n h

theorem seed_mem_values : 0x4000 ∈ values := mem_values_iff.mpr (by decide)

/-- The seed is shifted to all values. -/
theorem exists_iterate_seed (h : x ∈ values) : ∃ n < 32767, next^[n] 0x4000 = x := by
  have hmaps : Set.MapsTo (fun n => (next^[n] 0x4000).toNat) (Finset.range 32767) (Finset.Icc 1 0x7FFF) :=
    fun n _ => mem_values_iff_toNat.mp (iterate_mem_values seed_mem_values n)
  have hinj : Set.InjOn (fun n => (next^[n] 0x4000).toNat) (Finset.range 32767) := by
    intro m hm n hn heq
    have hmod := iterate_seed_eq_iff.mp (UInt16.toNat_inj.mp heq)
    rw [Finset.mem_coe, Finset.mem_range] at hm hn
    exact hmod.eq_of_lt_of_lt hm hn
  have hcard : (Finset.Icc 1 0x7FFF).card ≤ (Finset.range 32767).card := by
    rw [Nat.card_Icc, Finset.card_range]
  obtain ⟨n, hn, heq⟩ := Finset.surjOn_of_injOn_of_card_le _ hmaps hinj hcard (mem_values_iff_toNat.mp h)
  exact ⟨n, Finset.mem_range.mp hn, UInt16.toNat_inj.mp heq⟩

/-- From any value a shift leads back to it through all others. -/
theorem exists_iterate_eq (hx : x ∈ values) (hy : y ∈ values) : ∃ k < 32767, next^[k] x = y := by
  obtain ⟨m, hm, rfl⟩ := exists_iterate_seed hx
  obtain ⟨n, -, rfl⟩ := exists_iterate_seed hy
  refine ⟨(n + (32767 - m)) % 32767, Nat.mod_lt _ (by decide), ?_⟩
  rw [← iterate_add_apply, iterate_seed_eq_iff, Nat.ModEq]
  omega

theorem bijOn_next : Set.BijOn next values values := by
  refine ⟨fun x hx => next_mem_values hx, fun x hx y hy h => ?_, fun y hy => ?_⟩
  · exact next_injOn (mem_values_iff.mp hx).1 (mem_values_iff.mp hy).1 h
  · refine ⟨next^[32766] y, iterate_mem_values hy _, ?_⟩
    rw [← iterate_succ_apply' next]
    exact iterate_period (mem_values_iff.mp hy).1

/-- **The noise has the maximal period.** In every run from the initial state, at rates that may change with every
sample, the shift register holds the seed shifted as often as the counter has run out, which is a value between 1 and
0x7FFF. A shift is a bijection of these values, and they lie on a single cycle. So the register holds the same value
after two numbers of samples if and only if the numbers of shifts differ by a multiple of 32767. -/
theorem noise_has_maximal_period :
    (∀ (rates : Nat → Fin 32),
      let amounts : Nat → Int := fun t => Rate.amounts[rates t]
      let shifts : Nat → Nat := Nat.count (ShiftsAt {} amounts)
      let register : Nat → UInt16 := fun n => (after {} amounts n).shift
      (∀ n, register n = next^[shifts n] 0x4000 ∧ 1 ≤ register n ∧ register n ≤ 0x7FFF) ∧
      ∀ m n, register m = register n ↔ shifts m ≡ shifts n [MOD 32767]) ∧
    Set.BijOn next values values ∧
    ∀ x ∈ values, ∀ y ∈ values, ∃ k < 32767, next^[k] x = y := by
  refine ⟨?_, bijOn_next, fun x hx y hy => exists_iterate_eq hx hy⟩
  intro rates amounts shifts register
  have hregister (n : Nat) : register n = next^[shifts n] 0x4000 := shift_after n
  refine ⟨fun n => ⟨hregister n, ?_⟩, fun m n => ?_⟩
  · rw [hregister]
    exact iterate_mem_values seed_mem_values _
  · rw [hregister, hregister]
    exact iterate_seed_eq_iff

/-- At rate 31 every sample shifts the register, which therefore holds after 40000 samples what it held after 7233; and
the greatest value is shifted to the least one. -/
theorem noise_has_maximal_period_at_rate_31 :
    (after {} (fun _ => Rate.amounts[31]) 40000).shift = (after {} (fun _ => Rate.amounts[31]) 7233).shift ∧
      ∃ k < 32767, next^[k] 0x7FFF = 1 := by
  have hshifts (n : Nat) : Nat.count (ShiftsAt {} fun _ => Rate.amounts[31]) n = n := by
    have hsteps : Nat.count (ShiftsAt {} fun _ => Rate.amounts[31]) n = Rate.steps 31 n :=
      count_shiftsAt rfl fun _ _ => rfl
    have hall : Rate.steps 31 n = n := Int.mul_ediv_cancel n (by decide)
    omega
  have hmod : Nat.count (ShiftsAt {} fun _ => Rate.amounts[31]) 40000 ≡
      Nat.count (ShiftsAt {} fun _ => Rate.amounts[31]) 7233 [MOD 32767] := by
    rw [hshifts, hshifts]
    rfl
  exact ⟨((noise_has_maximal_period.1 fun _ => 31).2 40000 7233).mpr hmod,
    noise_has_maximal_period.2.2 0x7FFF (mem_values_iff.mpr (by decide)) 1 (mem_values_iff.mpr (by decide))⟩

end Noise

end SnesSound
