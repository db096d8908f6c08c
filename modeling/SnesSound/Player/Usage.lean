/-!
# Texts about the player

The version and the help that the player gives about itself.
-/

namespace SnesSound.Player

/-- The name of the program and its version. -/
def versionText : String := "spcplay 0.4.0\n"

/-- How the program is called. -/
def usageText : String := "Usage: spcplay [OPTIONS] <INPUTS>...\n"

/-- Help on the program. -/
def helpText : String :=
  "Command-line player for SPC files and ZSNES save states\n\n" ++ usageText ++ "
Arguments:
  <INPUTS>...  Snapshots to play, one after the other

Options:
      --format <FORMAT>    Reject inputs that are not in this format [possible values: spc, zst]
  -v, --verbose...         Verbosity level to use
  -s, --seconds <SECONDS>  Seconds to play each snapshot. Defaults to the length in the SPC tag, or 3 minutes
      --cycles <CYCLES>    CPU cycles to execute per snapshot at maximum
  -o, --output <OUTPUT>    Write a WAV file instead of raw 16-bit stereo PCM on standard output
  -m, --mask <MASK>        Voices to mute; bit n mutes voice n [default: 0]
      --shuffle            Play the inputs in random order
      --no-echo-clear      Keep whatever the snapshot has in its echo buffer
  -h, --help               Print help
  -V, --version            Print version
"

end SnesSound.Player
