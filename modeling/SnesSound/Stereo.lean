/-!
# Pairs of channels

Everything that exists once for the left and once for the right channel is a `Stereo` value.
-/

namespace SnesSound

/-- A value for the left and one for the right channel. -/
structure Stereo (α : Type) where
  left : α
  right : α
  deriving DecidableEq, Repr

namespace Stereo

variable {α β γ : Type}

instance [Inhabited α] : Inhabited (Stereo α) := ⟨⟨default, default⟩⟩

/-- The same value on both channels. -/
def both (a : α) : Stereo α := ⟨a, a⟩

/-- Applies a function on each channel. -/
def map (f : α → β) (s : Stereo α) : Stereo β := ⟨f s.left, f s.right⟩

/-- Combines two pairs channel by channel. -/
def zipWith (f : α → β → γ) (s : Stereo α) (t : Stereo β) : Stereo γ := ⟨f s.left t.left, f s.right t.right⟩

end Stereo

/-- One output sample of the sound unit: a signed 16-bit value for each channel. -/
abbrev Frame := Stereo Int

end SnesSound
