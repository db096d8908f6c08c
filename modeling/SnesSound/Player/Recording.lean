import SnesSound.Player.Directory
import SnesSound.Player.Services

/-!
# Recordings

Surroundings of the player that exist in memory only: the player works on a tree of files, and whatever it writes is
kept.
-/

namespace SnesSound.Player

/-- What the player has done to its surroundings. -/
structure Recording where
  directory : Directory := {}
  /-- Entries of the log. -/
  log : Array LogEntry := #[]
  /-- Standard output. -/
  output : ByteArray := .empty
  /-- Standard error. -/
  errors : String := ""

namespace Recording

/-- Creates a file. -/
def create (path : String) (r : Recording) : Except FileError Unit × Recording :=
  match r.directory.create path with
  | .ok directory => (.ok (), { r with directory })
  | .error e => (.error e, r)

/-- Gives a file its contents. -/
def fill (path : String) (bytes : ByteArray) (r : Recording) : Recording :=
  match r.directory.place path with
  | .ok p => { r with directory := r.directory.insert p bytes }
  | .error _ => r

/-- The services of a recording. Chance leaves the order of inputs as it is. -/
def services : Services (StateM Recording) where
  read path := do return (← get).directory.read path
  create path := modifyGet (create path)
  fill path bytes := modify (fill path bytes)
  emit bytes := modify fun r => { r with output := r.output ++ bytes }
  log e := modify fun r => { r with log := r.log.push e }
  complain text := modify fun r => { r with errors := r.errors ++ text }
  shuffle inputs := return inputs

end Recording

end SnesSound.Player
