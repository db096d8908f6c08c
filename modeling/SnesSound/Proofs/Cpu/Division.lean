import SnesSound.Proofs.Checked.Basic
import SnesSound.Proofs.Cpu.Computation

/-!
# Division

DIV divides YA by X. As long as Y is less than twice X the quotient has at most nine bits, eight of which go to A while
V is the ninth, and Y receives the remainder. Beyond that the hardware gives something else, which is a division as
well: what YA exceeds `512 * X` by is divided by `256 - X`, the quotient is counted down from 255 and the remainder is
counted up from X.

Main statement: both are exact, and nothing that is calculated on the way leaves its range (`division_is_exact`).
-/

namespace SnesSound

namespace Checked

/-- The division of a word by a byte in numbers of 32 bits, with all that is calculated on the way; `y` is the high
byte of the word. The quotient must not have to be counted below zero either. -/
def quotient (ya x y : Nat) : Checked (Nat × Nat) := do
  if y < (← natural 32 (x * 2)) then do
    let q ← divide ya x
    let r ← subtract ya (← natural 32 (q * x))
    return (q, r)
  else do
    let excess ← subtract ya (← natural 32 (x * 512))
    let divisor ← subtract 256 x
    let q ← subtract 255 (← divide excess divisor)
    let r ← natural 32 (x + (← remainder excess divisor))
    return (q, r)

end Checked

/-- Whether a division of `256 * y + a` by `x` may leave the flags V and H, the quotient `q` and the remainder `r`. -/
structure IsQuotient (a x y : Nat) (v h : Bool) (q r : Nat) : Prop where
  overflow : v = true ↔ x ≤ y
  halfCarry : h = true ↔ x % 16 ≤ y % 16
  /-- The quotient has nine bits, V being the ninth. -/
  nineBits : y < 2 * x → x ≠ 0 ∧ (256 * carryValue v + q) * x + r = 256 * y + a ∧ r < x ∧
    Checked.quotient (256 * y + a) x y = .ok (256 * carryValue v + q, r)
  /-- The quotient is counted down from 255, the remainder is counted up from `x`. -/
  countedDown : 2 * x ≤ y → x ≤ r ∧ 512 * x + (255 - q) * (256 - x) + (r - x) = 256 * y + a ∧
    Checked.quotient (256 * y + a) x y = .ok (q, r)

namespace Status

/-! ## Quotients -/

variable {a x y : Nat}

/-- A quotient of nine bits. -/
theorem quotient_of_lt (ha : a < 256) (h : y < 2 * x) :
    let (q, r) := quotient (256 * y + a) x y
    q * x + r = 256 * y + a ∧ r < x ∧ q < 512 ∧ (256 ≤ q ↔ x ≤ y) := by
  have hx : 0 < x := by omega
  rw [quotient, if_pos h]
  refine ⟨Nat.div_add_mod' _ _, Nat.mod_lt _ hx, ?_, ?_⟩
  · rw [Nat.div_lt_iff_lt_mul hx]
    omega
  · rw [Nat.le_div_iff_mul_le hx]
    omega

/-- A quotient that is counted down. -/
theorem quotient_of_le (ha : a < 256) (hy : y < 256) (h : 2 * x ≤ y) :
    let (q, r) := quotient (256 * y + a) x y
    512 * x + (255 - q) * (256 - x) + (r - x) = 256 * y + a ∧ x ≤ r ∧ r < 256 ∧ q < 256 := by
  have hpos : 0 < 256 - x := by omega
  have hcount : (256 * y + a - 512 * x) / (256 - x) < 256 := by
    rw [Nat.div_lt_iff_lt_mul hpos]
    omega
  have hexcess := Nat.div_add_mod' (256 * y + a - 512 * x) (256 - x)
  have hrest := Nat.mod_lt (256 * y + a - 512 * x) hpos
  rw [quotient, if_neg (Nat.not_lt.mpr h)]
  generalize (256 * y + a - 512 * x) / (256 - x) = n at hcount hexcess ⊢
  generalize (256 * y + a - 512 * x) % (256 - x) = r at hexcess hrest ⊢
  refine ⟨?_, Nat.le_add_right _ _, by omega, by omega⟩
  rw [Nat.sub_sub_self (Nat.le_of_lt_succ hcount), Nat.add_sub_cancel_left]
  omega

/-- Nothing leaves its range on the way to a quotient. -/
theorem checked_quotient_eq (ha : a < 256) (hx : x < 256) (hy : y < 256) :
    Checked.quotient (256 * y + a) x y = .ok (quotient (256 * y + a) x y) := by
  rw [Checked.quotient, quotient, Checked.natural_ok (by omega), Checked.ok_bind, Nat.mul_comm x 2]
  split
  next h =>
    have hproduct := Nat.div_mul_le_self (256 * y + a) x
    rw [Checked.divide_ok (by omega), Checked.ok_bind, Checked.natural_ok (by omega), Checked.ok_bind,
      Checked.subtract_ok hproduct, Checked.ok_bind, Nat.mod_eq_sub_div_mul]
    rfl
  next h =>
    have hcount : (256 * y + a - x * 512) / (256 - x) < 256 := by
      rw [Nat.div_lt_iff_lt_mul (by omega)]
      omega
    have hrest : (256 * y + a - x * 512) % (256 - x) < 256 - x := Nat.mod_lt _ (by omega)
    rw [Checked.natural_ok (by omega), Checked.ok_bind, Checked.subtract_ok (by omega), Checked.ok_bind,
      Checked.subtract_ok (by omega), Checked.ok_bind, Checked.divide_ok (by omega), Checked.ok_bind,
      Checked.subtract_ok (by omega), Checked.ok_bind, Checked.remainder_ok (by omega), Checked.ok_bind,
      Checked.natural_ok (by omega), Checked.ok_bind, Nat.mul_comm x 512]
    rfl

/-- A and Y receive all bits of quotient and remainder but the ninth one of the quotient. -/
theorem isQuotient_divide (p : Status) (a x y : UInt8) :
    let (q, r, p') := p.divide (word a y) x
    IsQuotient a.toNat x.toNat y.toNat p'.overflow p'.halfCarry q.toNat r.toNat := by
  have ha := a.toNat_lt
  have hx := x.toNat_lt
  have hy := y.toNat_lt
  have hya : (word a y).toNat = 256 * y.toNat + a.toNat := by rw [toNat_word, Nat.add_comm]
  have hchecked := checked_quotient_eq ha hx hy
  have hlt := quotient_of_lt (x := x.toNat) (y := y.toNat) ha
  have hle := quotient_of_le (x := x.toNat) ha hy
  rw [divide, highByte_word, hya]
  generalize quotient (256 * y.toNat + a.toNat) x.toNat y.toNat = qr at hchecked hlt hle ⊢
  obtain ⟨q, r⟩ := qr
  change IsQuotient _ _ _ (decide (x ≤ y)) (decide (x.toNat % 16 ≤ y.toNat % 16)) (UInt8.ofNat q).toNat
    (UInt8.ofNat r).toNat
  rw [UInt8.toNat_ofNat', UInt8.toNat_ofNat']
  have hv : decide (x ≤ y) = decide (x.toNat ≤ y.toNat) := decide_eq_decide.mpr UInt8.le_iff_toNat_le
  refine ⟨decide_eq_true_iff.trans UInt8.le_iff_toNat_le, decide_eq_true_iff, fun h => ?nineBits, fun h => ?countedDown⟩
  case nineBits =>
    obtain ⟨hdivision, hrest, hbound, hninth⟩ := hlt h
    have hall : 256 * carryValue (decide (x ≤ y)) + q % 2 ^ 8 = q := by
      rw [hv]
      by_cases hxy : x.toNat ≤ y.toNat
      · rw [decide_eq_true hxy]
        change 256 * 1 + _ = _
        omega
      · rw [decide_eq_false hxy]
        change 256 * 0 + _ = _
        omega
    rw [hall, Nat.mod_eq_of_lt (by omega : r < 2 ^ 8)]
    exact ⟨by omega, hdivision, hrest, hchecked⟩
  case countedDown =>
    obtain ⟨hdivision, hrest, hr, hq⟩ := hle h
    rw [Nat.mod_eq_of_lt hr, Nat.mod_eq_of_lt hq]
    exact ⟨hrest, hdivision, hchecked⟩

end Status

namespace Core

variable {s : Core}

/-- DIV changes A, Y and flags. -/
theorem step_divide (h : s.peek s.cpu.pc = 0x9E) :
    let (a, y, psw) := s.cpu.psw.divide s.cpu.ya s.cpu.x
    s.step.2.cpu.toRegisterSet = { s.cpu.toRegisterSet with a, y, psw, pc := s.cpu.pc + 1 } := by
  have hi : s.nextInstruction = .divide := by
    rw [nextInstruction, h]
    rfl
  rw [step_of_decode hi rfl, registers_pass]
  have hr := registers_opcodeFetched s
  generalize s.opcodeFetched = t at hr ⊢
  have hperform : ((Instruction.divide.perform : Exec Unit) t).2.cpu.toRegisterSet =
      let (a, y, psw) := t.cpu.psw.divide t.cpu.ya t.cpu.x
      { t.cpu.toRegisterSet with a, y, psw } := by
    simp only [Instruction.perform, bind_apply, ask_apply, calculate_apply, update_apply]
    rfl
  rw [hperform, hr]
  rfl

end Core

/-- **Division is exact, in both of its regimes.** V tells whether Y is at least X, and H the same of their low halves.
If Y is less than twice X, then X is not zero, and V and A are the nine bits of the quotient of YA by X and Y is the
remainder. Otherwise A tells how often `256 - X` goes into what YA exceeds `512 * X` by, counted down from 255, and Y
what is left, counted up from X. On the way to quotient and remainder no number leaves its range and nothing is divided
by zero, and A and Y receive all of their bits, apart from the ninth one of the quotient, which V holds. -/
theorem division_is_exact {s : Core} (h : s.peek s.cpu.pc = 0x9E) :
    IsQuotient s.cpu.a.toNat s.cpu.x.toNat s.cpu.y.toNat s.step.2.cpu.psw.overflow s.step.2.cpu.psw.halfCarry
      s.step.2.cpu.a.toNat s.step.2.cpu.y.toNat := by
  rw [Core.step_divide h]
  exact Status.isQuotient_divide s.cpu.psw s.cpu.a s.cpu.x s.cpu.y

/-- A core that is about to divide. -/
def dividing (a x y : UInt8) : Core where
  cpu := { pc := 0x0200, a, x, y }
  memory := Memory.zero.set 0x0200 0x9E

/-- A quotient of nine bits, 4660 = 291 * 16 + 4, and a division by zero, where 519 = 2 * 256 + 7. -/
theorem division_is_exact_beyond_eight_bits :
    ((dividing 0x34 0x10 0x12).peek (dividing 0x34 0x10 0x12).cpu.pc = 0x9E ∧ 0x12 < 2 * 0x10 ∧
      Checked.quotient 4660 16 0x12 = .ok (291, 4)) ∧
    (dividing 7 0 2).peek (dividing 7 0 2).cpu.pc = 0x9E ∧ 2 * 0 ≤ 2 ∧ Checked.quotient 519 0 2 = .ok (253, 7) := by
  have hnine : (dividing 0x34 0x10 0x12).peek (dividing 0x34 0x10 0x12).cpu.pc = 0x9E := by decide +kernel
  have hdown : (dividing 7 0 2).peek (dividing 7 0 2).cpu.pc = 0x9E := by decide +kernel
  have hnineStep : (dividing 0x34 0x10 0x12).step.2.cpu.psw.overflow = true ∧
      (dividing 0x34 0x10 0x12).step.2.cpu.a = 35 ∧ (dividing 0x34 0x10 0x12).step.2.cpu.y = 4 := by decide +kernel
  have hdownStep : (dividing 7 0 2).step.2.cpu.a = 253 ∧ (dividing 7 0 2).step.2.cpu.y = 7 := by decide +kernel
  obtain ⟨-, -, -, hninth⟩ := (division_is_exact hnine).nineBits (by decide)
  obtain ⟨-, -, hcounted⟩ := (division_is_exact hdown).countedDown (by decide)
  rw [hnineStep.1, hnineStep.2.1, hnineStep.2.2] at hninth
  rw [hdownStep.1, hdownStep.2] at hcounted
  exact ⟨⟨hnine, by decide, hninth⟩, hdown, by decide, hcounted⟩

end SnesSound
