import SnesSound.Dsp.Brr
import SnesSound.Memory

/-!
# Reading position in a sample

A cursor walks through the blocks of a sample one difference at a time. It opens a block when it is about to read the
first difference in it; what happens at the end of a sample is left to its user.
-/

namespace SnesSound.Brr

/-- A reading position in a sample. -/
structure Cursor where
  /-- Address of the next byte. -/
  address : UInt16 := 0
  /-- Header of the block that is open. -/
  header : Header := default
  /-- Bytes of the open block that are not used up yet. -/
  bytesLeft : Nat := 0
  /-- Whether the high half of the next byte has been read. -/
  highDone : Bool := false
  deriving DecidableEq, Inhabited

namespace Cursor

/-- Whether the open block is used up and is the last one of its sample. -/
def atEnd (c : Cursor) : Bool := c.bytesLeft = 0 && c.header.ends

/-- Opens the next block if the open one is used up. -/
def openBlock (c : Cursor) (m : Memory) : Cursor :=
  if c.bytesLeft = 0 then
    { c with header := .ofByte (m.get c.address), address := c.address + 1, bytesLeft := 8 }
  else c

/-- The next difference of the open block. -/
def nibble (c : Cursor) (m : Memory) : Int := Brr.nibble (m.get c.address) !c.highDone

/-- Moves behind the next difference of the open block. -/
def advance (c : Cursor) : Cursor :=
  if c.highDone then { c with address := c.address + 1, bytesLeft := c.bytesLeft - 1, highDone := false }
  else { c with highDone := true }

end Cursor

end SnesSound.Brr
