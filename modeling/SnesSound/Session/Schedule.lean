/-!
# Schedules

A run is asked for in cycles, in frames, or both, while every frame stands for 32 cycles of the CPU. A run that ends
within a frame produces that frame at once and leaves the rest of its cycles to the next run. A schedule says what a
run does; it depends on nothing but what was asked for and what the run before left.

Main statements: a schedule never produces more frames than asked for (`frameCount_le`), and what it runs and leaves
adds up (`time_eq`).
-/

namespace SnesSound

/-- What a run does: it pays off cycles of an earlier frame, produces whole frames, and perhaps begins a last one. -/
structure Schedule where
  /-- Cycles run before the first frame. -/
  paid : Nat
  /-- Frames that are followed by all of their cycles. -/
  frames : Nat
  /-- Cycles of a last frame that are run; 0 if there is no such frame. -/
  part : Nat
  /-- Cycles left to the next run. -/
  owed : Nat
  deriving DecidableEq, Repr

namespace Schedule

/-- The schedule of a run of at most `frames` frames and, if a limit is given, at most `limit` cycles, when `owed`
cycles are left from the run before. -/
def make (owed : Nat) (limit : Option Nat) (frames : Nat) : Schedule :=
  match limit with
  | none => { paid := owed, frames, part := 0, owed := 0 }
  | some cycles =>
    if frames * 32 + owed ≤ cycles then { paid := owed, frames, part := 0, owed := 0 }
    else if cycles < owed then { paid := cycles, frames := 0, part := 0, owed := owed - cycles }
    else
      let part := (cycles - owed) % 32
      { paid := owed, frames := (cycles - owed) / 32, part, owed := if part = 0 then 0 else 32 - part }

/-- The frames that a schedule produces. -/
def frameCount (s : Schedule) : Nat := s.frames + if s.part = 0 then 0 else 1

/-- The cycles that a schedule runs. -/
def time (s : Schedule) : Nat := s.paid + s.frames * 32 + s.part

theorem frameCount_le (owed : Nat) (limit : Option Nat) (frames : Nat) :
    (make owed limit frames).frameCount ≤ frames := by
  unfold make frameCount
  split
  · simp
  · split
    · simp
    · split
      · simp
      · dsimp only
        split <;> omega

/-- What is run and what is left pay for the frames produced and for what was left before. -/
theorem time_eq (owed : Nat) (limit : Option Nat) (frames : Nat) :
    (make owed limit frames).time + (make owed limit frames).owed
      = owed + 32 * (make owed limit frames).frameCount := by
  unfold make frameCount time
  split
  · dsimp only
    split <;> omega
  · split
    · dsimp only
      split <;> omega
    · split
      · dsimp only
        split <;> omega
      · dsimp only
        split <;> omega

/-- A run that was asked for something gets somewhere: it produces a frame or pays off what was left. -/
theorem progress {owed frames : Nat} {limit : Option Nat} (hf : 0 < frames) (hl : limit ≠ some 0) :
    0 < (make owed limit frames).frameCount ∨ (make owed limit frames).owed < owed := by
  have h := time_eq owed limit frames
  by_cases hc : 0 < (make owed limit frames).frameCount
  · exact .inl hc
  · right
    have ht : 0 < (make owed limit frames).time := by
      unfold make time
      split
      · dsimp only
        omega
      · rename_i cycles
        have hpos : 0 < cycles := Nat.pos_of_ne_zero fun e => hl (by rw [e])
        split
        · dsimp only
          omega
        · split
          · dsimp only
            omega
          · dsimp only
            omega
    omega

end Schedule

end SnesSound
