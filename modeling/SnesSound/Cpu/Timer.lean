import SnesSound.Word

/-!
# Timers

A timer has three stages. A prescaler divides the CPU clock by a fixed period and always runs. While the timer is
enabled, every period advances a counter up to the divisor that the program chose; reaching it advances the 4-bit
output, which the program reads and thereby clears. Timers 0 and 1 have a period of 128 cycles, timer 2 one of 16.

Main statement: a timer does not depend on how the time that passes is divided (`advance_add`).
-/

namespace SnesSound

/-- The CONTROL register. -/
structure Control where
  bits : UInt8
  deriving DecidableEq, Repr, Inhabited

namespace Control

/-- Whether a timer counts. -/
def timerEnabled (c : Control) (timer : Fin 3) : Bool := bit c.bits timer

/-- Whether the incoming latches of ports 0 and 1 are zeroed. -/
def clearsPorts01 (c : Control) : Bool := bit c.bits 4

/-- Whether the incoming latches of ports 2 and 3 are zeroed. -/
def clearsPorts23 (c : Control) : Bool := bit c.bits 5

/-- Whether the boot ROM can be read. -/
def bootRomEnabled (c : Control) : Bool := bit c.bits 7

end Control

/-- A timer. -/
structure Timer where
  /-- Divisor register. -/
  divisor : UInt8 := 0
  /-- Output, four bits wide. -/
  output : UInt8 := 0
  /-- Periods counted towards the divisor. -/
  position : Nat := 0
  /-- CPU cycles counted towards the next period. -/
  prescaler : Nat := 0
  deriving DecidableEq, Repr, Inhabited

namespace Timer

/-- How many periods make a step of the output; a divisor register of 0 stands for 256. -/
def target (t : Timer) : Nat := if t.divisor = 0 then 256 else t.divisor.toNat

/-- Counts one period. -/
def count (t : Timer) : Timer :=
  if t.target ≤ t.position + 1 then { t with position := 0, output := (t.output + 1) % 16 }
  else { t with position := t.position + 1 }

/-- Lets CPU cycles pass. -/
def advance (t : Timer) (period cycles : Nat) (enabled : Bool) : Timer :=
  let elapsed := t.prescaler + cycles
  let t := { t with prescaler := elapsed % period }
  if enabled then Nat.repeat count (elapsed / period) t else t

/-- What enabling a timer does to it. -/
def restart (t : Timer) : Timer := { t with position := 0, output := 0 }

/-- What reading the output does to a timer. -/
def clearOutput (t : Timer) : Timer := { t with output := 0 }

theorem repeat_count_add (t : Timer) (a b : Nat) :
    Nat.repeat count (a + b) t = Nat.repeat count b (Nat.repeat count a t) := by
  induction b with
  | zero => rfl
  | succ b ih => rw [← Nat.add_assoc, Nat.repeat, ih]; rfl

/-- Counting does not touch the prescaler. -/
theorem repeat_count_setPrescaler (t : Timer) (n prescaler : Nat) :
    Nat.repeat count n { t with prescaler } = { Nat.repeat count n t with prescaler } := by
  induction n with
  | zero => rfl
  | succ n ih =>
    rw [Nat.repeat, ih, Nat.repeat]
    unfold count target
    split <;> split <;> simp_all

/-- Only the sum of the cycles matters, not how they are divided. -/
theorem advance_add {period : Nat} (hp : 0 < period) (t : Timer) (a b : Nat) (enabled : Bool) :
    (t.advance period a enabled).advance period b enabled = t.advance period (a + b) enabled := by
  have hdiv : (t.prescaler + a) / period + ((t.prescaler + a) % period + b) / period
      = (t.prescaler + (a + b)) / period := by
    have he := Nat.mod_add_div (t.prescaler + a) period
    rw [show t.prescaler + (a + b) = (t.prescaler + a) % period + b + period * ((t.prescaler + a) / period) by omega,
      Nat.add_mul_div_left _ _ hp, Nat.add_comm]
  have hmod : ((t.prescaler + a) % period + b) % period = (t.prescaler + (a + b)) % period := by
    rw [Nat.mod_add_mod, Nat.add_assoc]
  cases enabled with
  | false => simp [advance, hmod]
  | true => simp only [advance, if_true, repeat_count_setPrescaler, hmod, ← hdiv, repeat_count_add]

end Timer

/-- The three timers. -/
abbrev Timers := Vector Timer 3

namespace Timers

/-- All timers at rest. -/
def initial : Timers := Vector.replicate 3 {}

/-- CPU cycles per period of a timer. -/
def period (timer : Fin 3) : Nat := if timer = 2 then 16 else 128

/-- Lets CPU cycles pass for all timers. -/
def advance (ts : Timers) (cycles : Nat) (control : Control) : Timers :=
  ts.mapFinIdx fun i t h => t.advance (period ⟨i, h⟩) cycles (control.timerEnabled ⟨i, h⟩)

end Timers

end SnesSound
