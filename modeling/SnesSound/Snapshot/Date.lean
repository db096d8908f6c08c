import SnesSound.Text.Numeral

/-!
# Calendar dates

Dates of the Gregorian calendar, extended to all years from 0 on.
-/

namespace SnesSound

/-- A day. -/
structure Date where
  year : Nat
  month : Nat
  day : Nat
  deriving DecidableEq, Repr

namespace Date

/-- Whether a year has a 29th of February. -/
def isLeap (year : Nat) : Bool := year % 4 = 0 && (year % 100 ≠ 0 || year % 400 = 0)

/-- Number of days of a month; there are none in a month that does not exist. -/
def daysIn (year month : Nat) : Nat :=
  match month with
  | 1 | 3 | 5 | 7 | 8 | 10 | 12 => 31
  | 4 | 6 | 9 | 11 => 30
  | 2 => if isLeap year then 29 else 28
  | _ => 0

/-- Whether the date exists. -/
def Valid (d : Date) : Prop := 1 ≤ d.day ∧ d.day ≤ daysIn d.year d.month

instance (d : Date) : Decidable d.Valid := inferInstanceAs (Decidable (_ ∧ _))

theorem daysIn_le (year month : Nat) : daysIn year month ≤ 31 := by
  have hfebruary : (if isLeap year then 29 else 28) ≤ 31 := by split <;> decide
  unfold daysIn
  split <;> first | exact hfebruary | decide

theorem daysIn_eq_zero {month : Nat} (year : Nat) (h : 12 < month) : daysIn year month = 0 := by
  unfold daysIn
  split <;> omega

theorem Valid.day_le {d : Date} (h : d.Valid) : d.day ≤ 31 := Nat.le_trans h.2 (daysIn_le ..)

theorem Valid.month_le {d : Date} (h : d.Valid) : d.month ≤ 12 := by
  apply Nat.le_of_not_lt
  intro hlt
  have hday := h.2
  rw [daysIn_eq_zero d.year hlt] at hday
  exact absurd (Nat.le_trans h.1 hday) (by decide)

/-- A date that exists. -/
def make? (year month day : Nat) : Option Date :=
  let d : Date := { year, month, day }
  if d.Valid then some d else none

/-- A date is made exactly if it exists. -/
theorem make?_eq_some {year month day : Nat} {d : Date} :
    make? year month day = some d ↔ d = ⟨year, month, day⟩ ∧ d.Valid := by
  unfold make?
  dsimp only
  split
  next h =>
    simp only [Option.some.injEq]
    constructor
    · rintro rfl
      exact ⟨rfl, h⟩
    · exact fun e => e.1.symm
  next h =>
    constructor
    · intro e
      cases e
    · rintro ⟨rfl, hv⟩
      exact absurd hv h

/-- Writes a date as year, month and day. -/
def render (d : Date) : String :=
  Numeral.decimal 4 d.year ++ "-" ++ Numeral.decimal 2 d.month ++ "-" ++ Numeral.decimal 2 d.day

end Date

end SnesSound
