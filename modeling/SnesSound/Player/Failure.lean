import SnesSound.Snapshot

/-!
# Failures of the player

Why the player gives up. A failure may have a cause that lies outside of the player: a file that cannot be used, or a
snapshot that cannot be loaded.
-/

namespace SnesSound.Player

/-- Why a file cannot be used, as the operating system puts it. -/
structure FileError where
  description : String
  code : Nat
  deriving DecidableEq, Repr

namespace FileError

/-- There is no such file. -/
def notFound : FileError := ⟨"No such file or directory", 2⟩

/-- A file stands where a directory is needed. -/
def notDirectory : FileError := ⟨"Not a directory", 20⟩

/-- A directory stands where a file is needed. -/
def isDirectory : FileError := ⟨"Is a directory", 21⟩

/-- A path, or a name in it, is longer than names can be. -/
def nameTooLong : FileError := ⟨"File name too long", 36⟩

/-- The text of an error. -/
def message (e : FileError) : String := e.description ++ " (os error " ++ toString e.code ++ ")"

end FileError

/-- Why the player gives up. -/
inductive Failure
  /-- An input cannot be read. -/
  | unreadable (input : String) (cause : FileError)
  /-- An input does not have the only format that is allowed. -/
  | otherFormat (input : String) (format : Format)
  /-- An input cannot be loaded. -/
  | unloadable (input : String) (cause : LoadError)
  /-- The output cannot be created. -/
  | uncreatable (output : String) (cause : FileError)
  deriving DecidableEq, Repr

namespace Failure

/-- The short name of a format. -/
def formatName : Format → String
  | .spc => "Spc"
  | .zst => "Zst"

/-- What went wrong. -/
def message : Failure → String
  | .unreadable input _ => "could not read " ++ input
  | .otherFormat input format => input ++ " is not a " ++ formatName format ++ " snapshot"
  | .unloadable input _ => "could not load " ++ input
  | .uncreatable output _ => "could not create " ++ output

/-- What caused it. -/
def cause? : Failure → Option String
  | .unreadable _ cause => some cause.message
  | .otherFormat .. => none
  | .unloadable _ cause => some cause.message
  | .uncreatable _ cause => some cause.message

/-- A failure as text, with its cause if it has one. -/
def render (f : Failure) : String :=
  "Error: " ++ f.message ++ "\n" ++
    match f.cause? with
    | some cause => "\nCaused by:\n    " ++ cause ++ "\n"
    | none => ""

end Failure

end SnesSound.Player
