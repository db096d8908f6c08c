import SnesSound.Word

/-!
# Bit rate reduction

Samples are stored in blocks of nine bytes: a header and sixteen 4-bit differences, high nibble first. The header
`ssssffle` holds the shift `ssss` of every difference, the prediction filter `ff`, the loop bit `l` and the end bit
`e`. A sample is the shifted difference plus a prediction from the two samples before it.

Main statement: decoded samples are even 16-bit numbers (`decode_even`, `decode_mem`).
-/

namespace SnesSound.Brr

/-! ## Headers -/

/-- How the next sample is predicted from the last one, `s1`, and the one before, `s2`. -/
inductive Filter
  /-- No prediction. -/
  | none
  /-- `15/16 s1`. -/
  | first
  /-- `61/32 s1 - 15/16 s2`. -/
  | second
  /-- `115/64 s1 - 13/16 s2`. -/
  | third
  deriving DecidableEq, Repr, Inhabited

/-- The filter with a 2-bit number. -/
def Filter.ofBits (n : Nat) : Filter :=
  match n % 4 with
  | 0 => .none
  | 1 => .first
  | 2 => .second
  | _ => .third

/-- The header of a block. -/
structure Header where
  /-- Number of bits by which differences are shifted to the left. -/
  range : Nat
  /-- Prediction filter of the block. -/
  filter : Filter
  /-- Whether the sample continues at its loop point if it ends here. -/
  loops : Bool
  /-- Whether the sample ends with this block. -/
  ends : Bool
  deriving DecidableEq, Repr

/-- Reads a header byte. -/
def Header.ofByte (b : UInt8) : Header where
  range := b.toNat / 16
  filter := .ofBits (b.toNat / 4)
  loops := bit b 1
  ends := bit b 0

instance : Inhabited Header := ⟨.ofByte 0⟩

/-! ## Samples -/

/-- The 4-bit difference in the high or low half of a byte. -/
def nibble (b : UInt8) (high : Bool) : Int :=
  if high then signed8 b / 16 else signed8 (b <<< 4) / 16

/-- The difference scaled by the range of its block. Ranges above 12 keep only the sign. -/
def scale (range : Nat) (nibble : Int) : Int :=
  if range ≤ 12 then nibble <<< range / 2 else nibble / 2048 * 2048

/-- What a filter adds to the scaled difference. `old` and `older` are the last two samples, which are stored doubled;
every product is rounded down by itself. -/
def predict (filter : Filter) (old older : Int) : Int :=
  let half := older / 2
  match filter with
  | .none => 0
  | .first => old / 2 + -old / 32
  | .second => old - half + half / 16 + old * -3 / 64
  | .third => old - half + old * -13 / 128 + half * 3 / 16

/-- Decodes a sample from its difference, the header of its block and the two samples before it. The sum saturates at
16 bits; doubling it then wraps around. -/
def decode (nibble : Int) (header : Header) (old older : Int) : Int :=
  wrap16 (clamp16 (scale header.range nibble + predict header.filter old older) * 2)

theorem decode_mem (nibble : Int) (header : Header) (old older : Int) :
    -32768 ≤ decode nibble header old older ∧ decode nibble header old older ≤ 32767 :=
  wrap16_mem _

/-- Decoded samples are even. -/
theorem decode_even (nibble : Int) (header : Header) (old older : Int) : decode nibble header old older % 2 = 0 := by
  unfold decode wrap16
  rw [Int.bmod_def]
  split <;> omega

end SnesSound.Brr
