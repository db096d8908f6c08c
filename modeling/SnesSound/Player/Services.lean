import SnesSound.Player.Failure
import SnesSound.Player.Log

/-!
# Services

What the player needs from its surroundings: files, somewhere to write to, and chance. The player is the same whoever
provides these services.
-/

namespace SnesSound.Player

/-- The surroundings of the player. -/
structure Services (m : Type → Type) where
  /-- Reads a file. -/
  read : String → m (Except FileError ByteArray)
  /-- Creates a file without contents, or empties the one that is there. -/
  create : String → m (Except FileError Unit)
  /-- Gives a file that was created its contents. -/
  fill : String → ByteArray → m Unit
  /-- Writes to standard output. -/
  emit : ByteArray → m Unit
  /-- Writes an entry of the log. -/
  log : LogEntry → m Unit
  /-- Writes to standard error. -/
  complain : String → m Unit
  /-- Puts inputs into random order. -/
  shuffle : List String → m (List String)

end SnesSound.Player
