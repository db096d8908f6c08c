import Mathlib.Algebra.BigOperators.Fin
import SnesSound.Dsp.Echo

/-!
# The echo filter as a convolution

The echo unit keeps the last eight samples of each channel in a ring whose front moves on with every sample, and gives
each place a coefficient by its distance from the front. Put in terms of the samples that were read one call after the
other, it weights the sample of seven calls ago by the first coefficient and the sample just read by the last one.
Between calls everything may change: the coefficients and all other registers, RAM, and what the voices put in.

Main statement: the output of a call is the convolution of the samples read up to then with the coefficients of the call
(`output_eq_convolution`).
-/

namespace SnesSound

/-! ## Rings that follow a sequence -/

/-- The ring holds the last `n` members of a sequence before position `now`, oldest first. -/
def Ring.Follows {n : Nat} (r : Ring n) (x : Int → Int) (now : Int) : Prop :=
  ∀ age < n, r.get age = x (now - n + age)

/-- A ring of zeros follows any sequence that has been zero so far. -/
theorem Ring.follows_zeros {n : Nat} {next : Fin n} {x : Int → Int} {now : Int} (h : ∀ k < now, x k = 0) :
    (Ring.zeros next).Follows x now := by
  intro age hage
  rw [h _ (by omega), get, get_eq_getElem, zeros, Fin.getElem_fin, Vector.getElem_replicate]

/-- The ring goes on with the sequence: the next member comes in behind, and all others move one place to the front. -/
theorem Ring.Follows.push {n : Nat} {r : Ring n} {x : Int → Int} {now : Int} (h : r.Follows x now) :
    (r.push (x now)).Follows x (now + 1) := by
  intro age hage
  by_cases hlast : age + 1 < n
  · rw [get_push_of_lt r _ hlast, h (age + 1) hlast]
    congr 1
    omega
  · have hnewest := r.newest_push (x now)
    rw [newest, show n - 1 = age by omega] at hnewest
    rw [hnewest]
    congr 1
    omega

namespace Echo

/-! ## Calls of the echo unit -/

/-- What the echo unit is called with. -/
structure Call where
  registers : Registers
  memory : Memory
  /-- The sum of the voices with echo. -/
  input : Frame

/-- The echo unit before call `n`, from a new one on. -/
def before (calls : Nat → Call) : Nat → Echo
  | 0 => {}
  | n + 1 => ((before calls n).process (calls n).registers (calls n).memory (calls n).input).2.1

/-- What call `n` returns. -/
def output (calls : Nat → Call) (n : Nat) : Frame :=
  ((before calls n).process (calls n).registers (calls n).memory (calls n).input).1

/-- Where call `n` finds its frame of the delay line. -/
def place (calls : Nat → Call) (n : Nat) : UInt16 :=
  UInt16.ofNat (((calls n).registers.get Register.esa).toNat * 256 + (before calls n).offset)

/-- The samples that call `n` reads: the two words of its frame, halved. Before the first call everything is zero. -/
def sampled (calls : Nat → Call) (n : Int) : Frame :=
  if 0 ≤ n then
    ⟨signed16 ((calls n.toNat).memory.readWord (place calls n.toNat)) / 2,
      signed16 ((calls n.toNat).memory.readWord (place calls n.toNat + 2)) / 2⟩
  else ⟨0, 0⟩

/-- The last eight samples up to position `n`, weighted by the coefficients. -/
def convolution (r : Registers) (x : Int → Int) (n : Int) : Int :=
  clamp16 (∑ t : Fin 8, x (n - 7 + t) * r.coefficient t / 64)

variable (calls : Nat → Call)

theorem sampled_of_neg {n : Int} (h : n < 0) : sampled calls n = ⟨0, 0⟩ := if_neg (by omega)

theorem address_before (n : Nat) : (before calls n).address (calls n).registers = place calls n := by
  rw [address, place, Registers.echoStart]
  apply UInt16.toNat_inj.mp
  simp only [UInt16.toNat_add, UInt16.toNat_ofNat', toNat_word, UInt8.toNat_zero]
  omega

theorem readFrame_before (n : Nat) :
    readFrame (calls n).memory ((before calls n).address (calls n).registers) = sampled calls n := by
  rw [address_before, sampled, if_pos (Int.natCast_nonneg n), Int.toNat_natCast]
  rfl

/-! ## The filter -/

/-- What a call makes the history. -/
theorem history_before_succ (n : Nat) :
    (before calls (n + 1)).history = (before calls n).history.zipWith Ring.push (sampled calls n) := by
  rw [← readFrame_before]
  rfl

/-- **The histories of both channels follow the samples that are read.** -/
theorem follows_before (n : Nat) :
    (before calls n).history.left.Follows (fun k => (sampled calls k).left) n ∧
      (before calls n).history.right.Follows (fun k => (sampled calls k).right) n := by
  induction n with
  | zero =>
    have hzero (k : Int) (hk : k < (0 : Nat)) : sampled calls k = ⟨0, 0⟩ := sampled_of_neg calls (by omega)
    exact ⟨Ring.follows_zeros fun k hk => by rw [hzero k hk], Ring.follows_zeros fun k hk => by rw [hzero k hk]⟩
  | succ n ih =>
    rw [history_before_succ, Nat.cast_succ]
    exact ⟨ih.1.push, ih.2.push⟩

/-- The filter weights the samples that its ring follows. -/
theorem filter_eq_convolution (r : Registers) {h : Ring 8} {x : Int → Int} {n : Int} (hx : h.Follows x (n + 1)) :
    filter r h = convolution r x n := by
  rw [filter, convolution, Fin.sum_univ_def, List.sum_eq_foldl, List.foldl_map, Fin.foldl_eq_finRange_foldl]
  have htap (t : Fin 8) : h.get t = x (n - 7 + t) := by
    rw [hx t t.isLt]
    congr 1
    omega
  simp only [htap]

/-- **The output of a call is the convolution of the samples read up to then with the coefficients of the call.** -/
theorem output_eq_convolution (n : Nat) :
    output calls n =
      ⟨convolution (calls n).registers (fun k => (sampled calls k).left) n,
        convolution (calls n).registers (fun k => (sampled calls k).right) n⟩ := by
  have hout : output calls n = (before calls (n + 1)).history.map (filter (calls n).registers) := rfl
  obtain ⟨hleft, hright⟩ := follows_before calls (n + 1)
  rw [Nat.cast_succ] at hleft hright
  rw [hout, Stereo.map, filter_eq_convolution _ hleft, filter_eq_convolution _ hright]

end Echo

end SnesSound
