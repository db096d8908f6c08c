import Mathlib.Data.List.Induction

/-!
# The latest of several values

A latch holds the latest value that was put into it. Seen from outside, it is determined by what it held in the
beginning and by the events that changed it, each of which gives it a value or leaves it alone.

Main statement: what every event of a run either replaces or keeps is the latest value at its end (`foldl_latest`).
-/

namespace SnesSound

variable {σ ε α : Type}

/-- The latest value that an event gives, or the initial one if none gives any. -/
def latest (change : ε → Option α) (initial : α) (events : List ε) : α :=
  (events.filterMap change).getLastD initial

theorem latest_concat (change : ε → Option α) (initial : α) (events : List ε) (e : ε) :
    latest change initial (events ++ [e]) = (change e).getD (latest change initial events) := by
  unfold latest
  cases h : change e with
  | none => simp [h]
  | some a => simp [h]

/-- Two latches see the same events: what their values have in common at first they have in common at the end. -/
theorem latest_congr {β : Type} (f : α → β) {a b : α} (h : f a = f b) (change : ε → Option α) (events : List ε) :
    f (latest change a events) = f (latest change b events) := by
  unfold latest
  cases events.filterMap change with
  | nil => exact h
  | cons x xs => rw [List.getLastD_cons, List.getLastD_cons]

/-- What every event either replaces or keeps is the latest value at the end of a run. -/
theorem foldl_latest (step : σ → ε → σ) (view : σ → α) (change : ε → Option α)
    (h : ∀ s e, view (step s e) = (change e).getD (view s)) (s : σ) (events : List ε) :
    view (events.foldl step s) = latest change (view s) events := by
  induction events using List.reverseRecOn with
  | nil => rfl
  | append_singleton events e ih => rw [List.foldl_append, latest_concat, List.foldl_cons, List.foldl_nil, h, ih]

end SnesSound
