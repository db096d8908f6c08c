import SnesSound.Cpu.Arithmetic
import SnesSound.Cpu.State

/-!
# Calculations

What instructions calculate with numbers that are wider than a byte or with the number of a bit. Everything else that
they do with bytes and words wraps around.
-/

namespace SnesSound

/-- A calculation, with its operands. -/
inductive Calculation : Type → Type
  /-- An operation with two bytes. -/
  | binary (op : BinaryOp) (left right : UInt8) (p : Status) : Calculation (UInt8 × Status)
  | addWords (left right : UInt16) (p : Status) : Calculation (UInt16 × Status)
  | multiply (y a : UInt8) (p : Status) : Calculation (UInt16 × Status)
  /-- Division of the word YA by X. -/
  | divide (ya : UInt16) (x : UInt8) (p : Status) : Calculation (UInt8 × UInt8 × Status)
  /-- The value of a bit. -/
  | testBit (b : UInt8) (n : Fin 8) : Calculation Bool
  /-- A byte with one bit set or cleared. -/
  | writeBit (b : UInt8) (n : Fin 8) (value : Bool) : Calculation UInt8
  /-- A byte with one bit inverted. -/
  | invertBit (b : UInt8) (n : Fin 8) : Calculation UInt8
  /-- The address of a TCALL vector. -/
  | vector (n : Fin 16) : Calculation UInt16

/-- The result of a calculation. -/
def Calculation.result {α : Type} : Calculation α → α
  | .binary op left right p => p.binary op left right
  | .addWords left right p => p.addWords left right
  | .multiply y a p => p.multiply y a
  | .divide ya x p => p.divide ya x
  | .testBit b n => bit b n
  | .writeBit b n value => withBit b n value
  | .invertBit b n => b ^^^ bitMask n
  | .vector n => Cpu.breakVector - 2 * UInt16.ofNat n

end SnesSound
