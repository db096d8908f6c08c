import SnesSound.Player.OptionName

/-!
# Arguments

A command line is a list of words. They are read as arguments: inputs and options, an option with the value that
belongs to it. Options are given by their long name (`--seconds 5`, `--seconds=5`) or by a letter (`-s 5`, `-s5`,
`-s=5`); letters may share a dash (`-vs5`). Whatever follows `--` is an input.

Main statement: words without a dash in front are inputs (`ofWords_eq_inputs`).
-/

namespace SnesSound.Player

/-- What is wrong with a command line. -/
inductive UsageError
  /-- There is no such option. -/
  | unknownOption (text : String)
  /-- An option lacks its value. -/
  | missingValue (s : Setting)
  /-- An option was given a value that it does not take. -/
  | unexpectedValue (s : Switch)
  /-- An option cannot have this value. -/
  | invalidValue (s : Setting) (value : String)
  /-- An option was given twice. -/
  | repeatedOption (o : OptionName)
  /-- An input has an empty name. -/
  | emptyInput
  /-- There is no input. -/
  | noInput
  deriving DecidableEq, Repr

/-- The text of an error. -/
def UsageError.message : UsageError → String
  | .unknownOption text => "unexpected argument '" ++ text ++ "' found"
  | .missingValue s => "a value is required for '" ++ s.name ++ "' but none was supplied"
  | .unexpectedValue s => "'" ++ s.name ++ "' does not take a value"
  | .invalidValue s value => "invalid value '" ++ value ++ "' for '" ++ s.name ++ "'"
  | .repeatedOption o => "the argument '" ++ o.long ++ "' cannot be used multiple times"
  | .emptyInput => "the name of an input is empty"
  | .noInput => "no input was given"

/-- An argument of a command line. -/
inductive Argument
  | input (path : String)
  | setting (s : Setting) (value : String)
  | switch (s : Switch)
  /-- Something that is no argument. -/
  | invalid (e : UsageError)
  deriving DecidableEq, Repr

namespace Argument

/-- The arguments in one word of a command line, and an option that takes its value from the next word. -/
structure Word where
  complete : List Argument
  pending : Option Setting := none
  deriving DecidableEq, Repr

/-- Letters that share a dash. The first one that takes a value takes all that follows it. -/
def ofLetters : List Char → Word
  | [] => { complete := [] }
  | c :: rest =>
    match OptionName.ofLetter? c with
    | none => { complete := [.invalid (.unknownOption (String.ofList ['-', c]))] }
    | some (.switch s) =>
      let others := ofLetters rest
      { others with complete := .switch s :: others.complete }
    | some (.setting s) =>
      match rest with
      | [] => { complete := [], pending := some s }
      | '=' :: value => { complete := [.setting s (String.ofList value)] }
      | value => { complete := [.setting s (String.ofList value)] }

/-- A long name, perhaps with a value behind an equals sign. -/
def ofLong (cs : List Char) : Word :=
  let name := String.ofList ('-' :: '-' :: cs.takeWhile (· ≠ '='))
  match OptionName.ofLong? name, cs.dropWhile (· ≠ '=') with
  | none, _ => { complete := [.invalid (.unknownOption name)] }
  | some (.switch s), [] => { complete := [.switch s] }
  | some (.switch s), _ :: _ => { complete := [.invalid (.unexpectedValue s)] }
  | some (.setting s), [] => { complete := [], pending := some s }
  | some (.setting s), _ :: value => { complete := [.setting s (String.ofList value)] }

/-- A word of a command line. A lone dash is an input. -/
def ofWord (word : String) : Word :=
  match word.toList with
  | '-' :: '-' :: cs => ofLong cs
  | '-' :: c :: cs => ofLetters (c :: cs)
  | _ => { complete := [.input word] }

/-- Whether a word can be the value of the option in front of it. -/
def isValue (word : String) : Bool := word.toList.head? != some '-' || word == "-"

/-- The arguments of a command line. -/
def ofWords : List String → List Argument
  | [] => []
  | word :: rest =>
    if word = "--" then rest.map .input
    else
      let w := ofWord word
      match w.pending, rest with
      | none, rest => w.complete ++ ofWords rest
      | some s, [] => w.complete ++ [.invalid (.missingValue s)]
      | some s, value :: rest =>
        if isValue value then w.complete ++ .setting s value :: ofWords rest
        else w.complete ++ [.invalid (.missingValue s)]

theorem ofWord_of_isValue {word : String} (h : isValue word) : ofWord word = { complete := [.input word] } := by
  have hdash : ∀ c cs, word.toList ≠ '-' :: c :: cs := by
    intro c cs hw
    simp only [isValue, hw, List.head?_cons, bne_self_eq_false, Bool.false_or, beq_iff_eq] at h
    simp [h] at hw
  unfold ofWord
  split
  next cs hw => exact absurd hw (hdash _ _)
  next c cs _ hw => exact absurd hw (hdash _ _)
  next => rfl

/-- Words without a dash in front, and lone dashes, are inputs. -/
theorem ofWords_eq_inputs {words : List String} (h : ∀ word ∈ words, isValue word) :
    ofWords words = words.map .input := by
  induction words with
  | nil => rfl
  | cons word rest ih =>
    have hne : word ≠ "--" := by
      rintro rfl
      exact absurd (h "--" (by simp)) (by decide)
    have hrest := ih fun w hw => h w (by simp [hw])
    rw [ofWords, if_neg hne, ofWord_of_isValue (h word (by simp))]
    change [Argument.input word] ++ ofWords rest = _
    rw [hrest]
    rfl

end Argument

end SnesSound.Player
