import SnesSound.Text.Numeral

/-!
# Durations as text

A duration is written with two decimal places, in seconds if it reaches one second and in milliseconds otherwise; a
half of the last place goes to the even neighbour. No duration at all is written in nanoseconds.
-/

namespace SnesSound.Duration

/-- Hundredths of a second, rounded to the nearest, of two equally near ones to the even one. -/
def hundredths (milliseconds : Nat) : Nat :=
  let whole := milliseconds / 10
  let rest := milliseconds % 10
  if rest < 5 ∨ (rest = 5 ∧ whole % 2 = 0) then whole else whole + 1

/-- Writes a duration. -/
def render (milliseconds : Nat) : String :=
  if milliseconds = 0 then "0.00ns"
  else if milliseconds < 1000 then toString milliseconds ++ ".00ms"
  else
    let h := hundredths milliseconds
    toString (h / 100) ++ "." ++ Numeral.decimal 2 (h % 100) ++ "s"

end SnesSound.Duration
