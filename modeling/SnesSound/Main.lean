import SnesSound.Player
import Std.Time

/-!
# The command line

The player with the files of the operating system.
-/

namespace SnesSound.Main

open Player

/-- What the operating system says about a file, as an error of the player. -/
def fileError : IO.Error → FileError
  | .noFileOrDirectory _ code details => ⟨details, code.toNat⟩
  | .alreadyExists _ code details | .invalidArgument _ code details | .permissionDenied _ code details
  | .resourceExhausted _ code details | .inappropriateType _ code details | .noSuchThing _ code details
  | .interrupted _ code details => ⟨details, code.toNat⟩
  | .otherError code details | .resourceBusy code details | .resourceVanished code details
  | .unsupportedOperation code details | .hardwareFault code details | .unsatisfiedConstraints code details
  | .illegalOperation code details | .protocolError code details | .timeExpired code details =>
    ⟨details, code.toNat⟩
  | e => ⟨toString e, 0⟩

/-- An action on a file, with its error. -/
def attempt {α : Type} (action : IO α) : IO (Except FileError α) := do
  match ← action.toBaseIO with
  | .ok a => return .ok a
  | .error e => return .error (fileError e)

/-- Takes inputs out of a list at random, as many as `n`. -/
def shuffled : Nat → List String → IO (List String)
  | 0, inputs => return inputs
  | n + 1, inputs => do
    let i ← IO.rand 0 (inputs.length - 1)
    match inputs[i]? with
    | some input => return input :: (← shuffled n (inputs.eraseIdx i))
    | none => return inputs

/-- The services of the operating system. -/
def services : Services IO where
  read path := attempt do (← IO.FS.Handle.mk path .read).readBinToEnd
  create path := attempt (IO.FS.writeBinFile path .empty)
  fill path bytes := IO.FS.writeBinFile path bytes
  emit bytes := do
    let output ← IO.getStdout
    output.write bytes
    output.flush
  log e := do
    let now ← Std.Time.PlainTime.now
    IO.println (now.format "HH:mm:ss" ++ " " ++ e.render)
  complain := IO.eprint
  shuffle inputs := shuffled inputs.length inputs

end SnesSound.Main

/-- Runs the player. -/
def main (words : List String) : IO UInt32 := do
  return (← SnesSound.Player.run SnesSound.Main.services words).exitCode
