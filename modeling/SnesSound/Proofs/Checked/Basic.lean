import Mathlib.Algebra.Ring.Int.Defs
import Mathlib.Algebra.Ring.Nat

/-!
# Checked operations

The engine calculates with numbers of fixed width, looks into tables and takes its input apart. Each of these
operations has a range in which it may be used; outside of it, the engine would stop. A checked computation carries out
the same operations and reports the first one that leaves its range, while numbers themselves are unbounded here. So a
checked computation that succeeds tells that no operation in it leaves its range.

Main statements: within its range an operation succeeds with the mathematical result (`natural_ok`, `integer_ok`,
`subtract_ok`, `divide_ok`, `cell_ok`, `slice_ok`), and a loop succeeds if each of its rounds does
(`foldlM_ok`).
-/

namespace SnesSound

/-- What stops the engine. -/
inductive Fault
  /-- A number leaves the range of its type. -/
  | overflow
  | divisionByZero
  | outOfBounds
  /-- A case is reached that was ruled out. -/
  | unreachable
  /-- An assertion fails. -/
  | assertion
  deriving DecidableEq, Repr

/-- A computation that a fault may stop. -/
abbrev Checked := Except Fault

namespace Checked

variable {α β : Type}

@[simp] theorem ok_bind (a : α) (f : α → Checked β) : (Except.ok a : Checked α) >>= f = f a := rfl

@[simp] theorem pure_bind (a : α) (f : α → Checked β) : (pure a : Checked α) >>= f = f a := rfl

@[simp] theorem map_ok (f : α → β) (a : α) : f <$> (Except.ok a : Checked α) = .ok (f a) := rfl

/-! ## Operations -/

/-- Goes on only if a condition holds. -/
def require (condition : Prop) [Decidable condition] (fault : Fault) : Checked Unit :=
  if condition then .ok () else .error fault

/-- A number that must fit into an unsigned type. -/
def natural (bits n : Nat) : Checked Nat := if n < 2 ^ bits then .ok n else .error .overflow

/-- A number that must fit into a signed type. -/
def integer (bits : Nat) (x : Int) : Checked Int :=
  if -2 ^ (bits - 1) ≤ x ∧ x < 2 ^ (bits - 1) then .ok x else .error .overflow

/-- A difference of unsigned numbers. -/
def subtract (a b : Nat) : Checked Nat := if b ≤ a then .ok (a - b) else .error .overflow

/-- A quotient of unsigned numbers. -/
def divide (a b : Nat) : Checked Nat := if b = 0 then .error .divisionByZero else .ok (a / b)

/-- A remainder of unsigned numbers. -/
def remainder (a b : Nat) : Checked Nat := if b = 0 then .error .divisionByZero else .ok (a % b)

/-- A number of places by which a number of the given width is shifted. -/
def places (bits n : Nat) : Checked Nat := if n < bits then .ok n else .error .overflow

/-- A cell of a table. -/
def cell {n : Nat} (table : Vector α n) (i : Nat) : Checked α :=
  if h : i < n then .ok table[i] else .error .outOfBounds

/-- A table with another value in a cell. -/
def setCell {n : Nat} (table : Vector α n) (i : Nat) (a : α) : Checked (Vector α n) :=
  if h : i < n then .ok (table.set i a) else .error .outOfBounds

/-- The bytes from `start` up to `stop`. -/
def slice (bytes : ByteArray) (start stop : Nat) : Checked ByteArray :=
  if start ≤ stop ∧ stop ≤ bytes.size then .ok (bytes.extract start stop) else .error .outOfBounds

section Ranges

variable {bits n a b i : Nat} {x : Int}

theorem require_ok {condition : Prop} [Decidable condition] {fault : Fault} (h : condition) :
    require condition fault = .ok () := if_pos h

theorem natural_ok (h : n < 2 ^ bits) : natural bits n = .ok n := if_pos h

theorem integer_ok (h : -2 ^ (bits - 1) ≤ x ∧ x < 2 ^ (bits - 1)) : integer bits x = .ok x := if_pos h

theorem subtract_ok (h : b ≤ a) : subtract a b = .ok (a - b) := if_pos h

theorem divide_ok (h : b ≠ 0) : divide a b = .ok (a / b) := if_neg h

theorem remainder_ok (h : b ≠ 0) : remainder a b = .ok (a % b) := if_neg h

theorem places_ok (h : n < bits) : places bits n = .ok n := if_pos h

theorem cell_ok {table : Vector α n} (h : i < n) : cell table i = .ok table[i] := dif_pos h

theorem setCell_ok {table : Vector α n} {v : α} (h : i < n) : setCell table i v = .ok (table.set i v) := dif_pos h

theorem slice_ok {bytes : ByteArray} (h : a ≤ b ∧ b ≤ bytes.size) : slice bytes a b = .ok (bytes.extract a b) :=
  if_pos h

end Ranges

/-- A signed 32-bit number, the type that the sound unit calculates with. -/
def i32 (x : Int) : Checked Int := integer 32 x

theorem i32_ok {x : Int} (h : -2147483648 ≤ x ∧ x ≤ 2147483647) : i32 x = .ok x :=
  integer_ok ⟨h.1, Int.lt_of_le_of_lt h.2 (by decide)⟩

/-- The product of two numbers is no greater than that of their bounds. -/
theorem mul_mem {x y a b : Int} (hx : -a ≤ x ∧ x ≤ a) (hy : -b ≤ y ∧ y ≤ b) : -(a * b) ≤ x * y ∧ x * y ≤ a * b := by
  have hxa : x.natAbs ≤ a.natAbs := by omega
  have hyb : y.natAbs ≤ b.natAbs := by omega
  have h := Nat.mul_le_mul hxa hyb
  rw [← Int.natAbs_mul, ← Int.natAbs_mul] at h
  have hab : 0 ≤ a * b := Int.mul_nonneg (by omega) (by omega)
  omega

/-! ## Loops -/

/-- A loop succeeds if each of its rounds does after the rounds before it; `P i` holds before round `i`. -/
theorem foldlM_ok {n : Nat} {f : α → Fin n → Checked α} {g : α → Fin n → α} {P : Nat → α → Prop}
    (h : ∀ (i : Fin n) (a : α), P i a → f a i = .ok (g a i) ∧ P (i + 1) (g a i)) {a : α} (ha : P 0 a) :
    Fin.foldlM n f a = .ok (Fin.foldl n g a) ∧ P n (Fin.foldl n g a) := by
  induction n generalizing P a with
  | zero =>
    rw [Fin.foldlM_zero, Fin.foldl_zero]
    exact ⟨rfl, ha⟩
  | succ n ih =>
    obtain ⟨hok, hP⟩ := h 0 a ha
    rw [Fin.foldlM_succ, Fin.foldl_succ]
    change (f a 0 >>= Fin.foldlM n fun b i => f b i.succ) = _ ∧ _
    rw [hok]
    exact ih (P := fun i => P (i + 1)) (fun i b hb => h i.succ b hb) hP

/-- Carries out a check for every number below `n`. -/
def checkAll (n : Nat) (check : Fin n → Checked Unit) : Checked Unit := Fin.foldlM n (fun _ i => check i) ()

theorem checkAll_ok {n : Nat} {check : Fin n → Checked Unit} (h : ∀ i, check i = .ok ()) :
    checkAll n check = .ok () := by
  have hall := foldlM_ok (f := fun _ i => check i) (g := fun _ _ => ()) (P := fun _ _ => True)
    (fun i _ _ => ⟨h i, trivial⟩) (a := ()) trivial
  exact hall.1

end Checked

end SnesSound
