import Mathlib.Data.Rat.Floor
import Mathlib.Tactic.Linarith
import SnesSound.Proofs.Checked.Sample
import SnesSound.Proofs.Dsp.Stream

/-!
# Predictors

A filter predicts a sample as a rational combination of the two samples before it. The decoder never calculates it that
way: it adds and subtracts samples that are stored doubled, and fractions of them that are rounded down one by one. What
it finds is the value of the table of factors, less what the rounding takes away, which is less than 2 and nothing at
all for the filter that does not predict.

Main statements: every decoded sample obeys this law (`law_of_even`), and along a stream that begins with even samples
all samples are even and obey it, for any headers and differences (`even_unrolled`, `predictors`), thus also the samples
of a stream in memory (`Stream.law`).
-/

namespace SnesSound

namespace Brr

/-! ## The table of factors -/

/-- The factors of the last sample and of the one before it, by the number of the filter. -/
def factors (filter : Fin 4) : ℚ × ℚ :=
  match filter with
  | 0 => (0, 0)
  | 1 => (15 / 16, 0)
  | 2 => (61 / 32, -15 / 16)
  | 3 => (115 / 64, -13 / 16)

/-- What a difference counts: it is shifted to the left by the range of its block and halved, which rounds down; of a
range above 12 only the sign of the difference is left. -/
def difference (range : Nat) (nibble : Int) : Int :=
  if range ≤ 12 then ⌊(nibble : ℚ) * 2 ^ range / 2⌋ else if nibble < 0 then -2048 else 0

/-- The sample that the table of factors asks for, with a header byte, a difference and the two samples before, which
are stored doubled. -/
def ideal (header : UInt8) (nibble old older : Int) : ℚ :=
  let filter := factors (Fin.ofNat 4 (header.toNat / 4))
  difference (header.toNat / 16) nibble + filter.1 * (old / 2 : Int) + filter.2 * (older / 2 : Int)

/-- What is decoded, before it saturates. -/
def unsaturated (header : UInt8) (nibble old older : Int) : Int :=
  scale (Header.ofByte header).range nibble + predict (Header.ofByte header).filter old older

/-- How a decoded sample relates to the table of factors. -/
structure Law (header : UInt8) (nibble old older sample : Int) : Prop where
  lower : ideal header nibble old older - 2 < unsaturated header nibble old older
  upper : unsaturated header nibble old older ≤ ideal header nibble old older
  /-- Without prediction nothing is rounded. -/
  verbatim : header.toNat / 4 % 4 = 0 → (unsaturated header nibble old older : ℚ) = ideal header nibble old older
  /-- The value saturates and is then doubled, which wraps around. -/
  saturated : sample = wrap16 (2 * clamp16 (unsaturated header nibble old older))
  even : 2 ∣ sample

/-! ## Rounding -/

/-- An integer quotient is the rational one, rounded down. -/
theorem cast_ediv (x : Int) (d : Nat) : (x / d - 1 : ℚ) < ((x / d : Int) : ℚ) ∧ ((x / d : Int) : ℚ) ≤ x / d := by
  rw [← Rat.floor_intCast_div_natCast]
  exact ⟨Int.sub_one_lt_floor _, Int.floor_le _⟩

/-- The decoder scales differences as it should. -/
theorem scale_eq_difference (range : Nat) {nibble : Int} (h : -8 ≤ nibble ∧ nibble ≤ 7) :
    scale range nibble = difference range nibble := by
  unfold scale difference
  split
  · have hcast : (nibble : ℚ) * 2 ^ range / 2 = ((nibble * 2 ^ range : Int) : ℚ) / (2 : Nat) := by push_cast; rfl
    rw [hcast, Rat.floor_intCast_div_natCast, Int.shiftLeft_eq]
    rfl
  · split <;> omega

/-- The number of a filter in a header. -/
def Filter.number : Filter → Fin 4
  | .none => 0
  | .first => 1
  | .second => 2
  | .third => 3

theorem Filter.number_ofBits (n : Nat) : (Filter.ofBits n).number = Fin.ofNat 4 n := by
  apply Fin.ext
  rw [Fin.val_ofNat, Filter.ofBits]
  obtain h | h | h | h : n % 4 = 0 ∨ n % 4 = 1 ∨ n % 4 = 2 ∨ n % 4 = 3 := by omega
  all_goals rw [h]; rfl

/-- The prediction that the table of factors asks for, from the last sample `s1` and the one before it, `s2`. -/
def Filter.ideal (filter : Filter) (s1 s2 : Int) : ℚ := (factors filter.number).1 * s1 + (factors filter.number).2 * s2

/-- A prediction is the one of the table, rounded down twice at most. -/
theorem predict_mem (filter : Filter) (s1 older : Int) :
    filter.ideal s1 (older / 2) - 2 < predict filter (2 * s1) older ∧
      predict filter (2 * s1) older ≤ filter.ideal s1 (older / 2) := by
  have hhalf : 2 * s1 / 2 = s1 := by omega
  cases filter with
  | none => simp [Filter.ideal, Filter.number, factors, predict]
  | first =>
    have h := cast_ediv (-(2 * s1)) 32
    simp only [Filter.ideal, Filter.number, factors, predict, hhalf]
    push_cast at h ⊢
    constructor <;> linarith
  | second =>
    have h1 := cast_ediv (older / 2) 16
    have h2 := cast_ediv (2 * s1 * -3) 64
    simp only [Filter.ideal, Filter.number, factors, predict]
    push_cast at h1 h2 ⊢
    constructor <;> linarith
  | third =>
    have h1 := cast_ediv (2 * s1 * -13) 128
    have h2 := cast_ediv (older / 2 * 3) 16
    simp only [Filter.ideal, Filter.number, factors, predict]
    push_cast at h1 h2 ⊢
    constructor <;> linarith

/-! ## Single samples -/

theorem dvd_decode (nibble : Int) (header : Header) (old older : Int) : 2 ∣ decode nibble header old older :=
  Int.dvd_of_emod_eq_zero (decode_even nibble header old older)

/-- The filter of a header byte. -/
theorem ideal_eq (header : UInt8) {nibble : Int} (h : -8 ≤ nibble ∧ nibble ≤ 7) (old older : Int) :
    ideal header nibble old older = scale (Header.ofByte header).range nibble +
      (Header.ofByte header).filter.ideal (old / 2) (older / 2) := by
  rw [ideal, Filter.ideal, scale_eq_difference _ h, Header.ofByte, Filter.number_ofBits, add_assoc]

/-- **Every sample that is decoded from even ones obeys the law.** -/
theorem law_of_even (header : UInt8) {nibble old : Int} (older : Int) (h : -8 ≤ nibble ∧ nibble ≤ 7) (heven : 2 ∣ old) :
    Law header nibble old older (decode nibble (.ofByte header) old older) := by
  obtain ⟨s1, rfl⟩ := heven
  have hhalf : 2 * s1 / 2 = s1 := by omega
  have hideal := ideal_eq header h (2 * s1) older
  obtain ⟨hlower, hupper⟩ := predict_mem (Header.ofByte header).filter s1 older
  rw [hhalf] at hideal
  refine ⟨?_, ?_, fun hzero => ?_, ?_, dvd_decode _ _ _ _⟩
  · rw [hideal, unsaturated]
    push_cast
    linarith
  · rw [hideal, unsaturated]
    push_cast
    linarith
  · have hfilter : (Header.ofByte header).filter = .none := by simp [Header.ofByte, Filter.ofBits, hzero]
    rw [hideal, unsaturated, hfilter]
    simp [Filter.ideal, Filter.number, factors, predict]
  · rw [decode, unsaturated, mul_comm]

/-! ## Streams -/

/-- The samples that headers and differences decode to, one after the other, with the two samples before them in
front. -/
def unrolled (code : Nat → UInt8 × Int) (old older : Int) : Nat → Int
  | 0 => older
  | 1 => old
  | n + 2 =>
    decode (code n).2 (.ofByte (code n).1) (unrolled code old older (n + 1)) (unrolled code old older n)

/-- All samples of a stream that begins with even ones are even. -/
theorem even_unrolled (code : Nat → UInt8 × Int) {old older : Int} (hold : 2 ∣ old) (holder : 2 ∣ older) (n : Nat) :
    2 ∣ unrolled code old older n := by
  match n with
  | 0 => exact holder
  | 1 => exact hold
  | n + 2 => exact dvd_decode _ _ _ _

end Brr

/-- All samples of a stream in memory that begins with even ones are even, also when it has come to its end. -/
theorem Stream.even_history {S : Stream} (hold : 2 ∣ S.old) (holder : 2 ∣ S.older) (n : Nat) : 2 ∣ S.history n := by
  match n with
  | 0 => exact holder
  | 1 => exact hold
  | n + 2 =>
    rw [history]
    split
    · exact Brr.dvd_decode _ _ _ _
    · exact dvd_zero 2

/-- Every sample of a stream in memory that begins with even ones obeys the law. -/
theorem Stream.law {S : Stream} (hold : 2 ∣ S.old) (holder : 2 ∣ S.older) {n : Nat} {a : UInt16}
    (ha : S.block (n / 16) = some a) :
    Brr.Law (S.memory.get a) (S.difference a (n % 16)) (S.history (n + 1)) (S.history n) (S.sample n) := by
  have hsample := S.sample_eq_decode ha (Nat.mod_lt n (by decide))
  rw [Nat.div_add_mod] at hsample
  rw [hsample]
  exact Brr.law_of_even _ _ (Checked.nibble_mem _ _) (even_history hold holder (n + 1))

/-- **The filters implement the predictors of the table**: every sample that is decoded obeys the law, and from even
samples on a stream goes on with even ones for ever, so that every sample of it does, whether its headers and
differences are given one by one or lie in memory. -/
theorem Brr.predictors :
    (∀ (header : UInt8) (nibble old older : Int), -8 ≤ nibble ∧ nibble ≤ 7 → 2 ∣ old → 2 ∣ older →
      Law header nibble old older (decode nibble (.ofByte header) old older)) ∧
    (∀ (code : Nat → UInt8 × Int) (old older : Int), (∀ n, -8 ≤ (code n).2 ∧ (code n).2 ≤ 7) → 2 ∣ old → 2 ∣ older →
      ∀ n, 2 ∣ unrolled code old older n ∧
        Law (code n).1 (code n).2 (unrolled code old older (n + 1)) (unrolled code old older n)
          (unrolled code old older (n + 2))) ∧
    (∀ S : Stream, 2 ∣ S.old → 2 ∣ S.older →
      ∀ n, 2 ∣ S.history n ∧ ∀ a, S.block (n / 16) = some a →
        Law (S.memory.get a) (S.difference a (n % 16)) (S.history (n + 1)) (S.history n) (S.sample n)) := by
  refine ⟨?single, ?code, ?memory⟩
  case single =>
    intro header nibble old older hnibble hold _
    exact law_of_even header older hnibble hold
  case code =>
    intro code old older hnibble hold holder n
    exact ⟨even_unrolled code hold holder n, law_of_even _ _ (hnibble n) (even_unrolled code hold holder (n + 1))⟩
  case memory =>
    intro S hold holder n
    exact ⟨S.even_history hold holder n, fun a ha => S.law hold holder ha⟩

/-- A sample that the second filter predicts and that both roundings make less than the table does. -/
theorem Brr.predictors_second : (2 : Int) ∣ 1000 ∧ (2 : Int) ∣ -400 ∧ Law 0xA8 3 1000 (-400) 5352 ∧
    unsaturated 0xA8 3 1000 (-400) = 2676 :=
  ⟨by decide, by decide, predictors.1 0xA8 3 1000 (-400) (by decide) (by decide) (by decide), by decide⟩

end SnesSound
