/-!
# Names of options

The options of the player and how they are spelled: by a long name, which cannot be abbreviated, and some of them by a
letter.

Main statement: no two options share a spelling (`ofLong?_long`, `ofLetter?_eq_some_iff`).
-/

namespace SnesSound.Player

/-- An option with a value. -/
inductive Setting
  | format
  | seconds
  | cycles
  | output
  | mask
  deriving DecidableEq, Repr

/-- An option without a value. -/
inductive Switch
  | verbose
  | shuffle
  | keepEcho
  | help
  | version
  deriving DecidableEq, Repr

/-- The long name of an option with a value. -/
def Setting.name : Setting → String
  | .format => "--format"
  | .seconds => "--seconds"
  | .cycles => "--cycles"
  | .output => "--output"
  | .mask => "--mask"

/-- The long name of an option without a value. -/
def Switch.name : Switch → String
  | .verbose => "--verbose"
  | .shuffle => "--shuffle"
  | .keepEcho => "--no-echo-clear"
  | .help => "--help"
  | .version => "--version"

/-- An option of either kind. -/
inductive OptionName
  | setting (s : Setting)
  | switch (s : Switch)
  deriving DecidableEq, Repr

namespace OptionName

/-- All options. -/
def all : List OptionName :=
  [.setting .format, .switch .verbose, .setting .seconds, .setting .cycles, .setting .output, .setting .mask,
    .switch .shuffle, .switch .keepEcho, .switch .help, .switch .version]

/-- The long name of an option. -/
def long : OptionName → String
  | .setting s => s.name
  | .switch s => s.name

/-- The letter of an option. -/
def letter? : OptionName → Option Char
  | .setting .seconds => some 's'
  | .setting .output => some 'o'
  | .setting .mask => some 'm'
  | .switch .verbose => some 'v'
  | .switch .help => some 'h'
  | .switch .version => some 'V'
  | _ => none

/-- The option with a long name. Names cannot be abbreviated. -/
def ofLong? (name : String) : Option OptionName := all.find? fun o => o.long == name

/-- The option with a letter. -/
def ofLetter? (c : Char) : Option OptionName := all.find? fun o => o.letter? == some c

theorem mem_all (o : OptionName) : o ∈ all := by
  rcases o with s | s <;> cases s <;> decide

/-- An option is found by its long name. -/
theorem ofLong?_long (o : OptionName) : ofLong? o.long = some o := by
  rcases o with s | s <;> cases s <;> decide

/-- An option is found by its letter, and by no other one. -/
theorem ofLetter?_eq_some_iff {c : Char} {o : OptionName} : ofLetter? c = some o ↔ o.letter? = some c := by
  constructor
  · intro h
    simpa using List.find?_some h
  · intro h
    rcases o with s | s <;> cases s <;> simp [letter?] at h <;> subst h <;> decide

end OptionName

end SnesSound.Player
