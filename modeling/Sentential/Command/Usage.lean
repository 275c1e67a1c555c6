import Sentential.Command.Request

/-!
# Usage

The texts with which the program explains itself: an overview of its commands, and completions of
their names for the common shells.
-/

namespace Sentential.Usage

/-- The commands, each with what it does. -/
def summaries : List (Text × Text) :=
  [("parse".toList, "Translate a Portuguese sentence into a formula".toList),
    ("render".toList, "Render a formula as a Portuguese sentence".toList),
    ("roundtrip".toList, "Translate a sentence and render the formula back".toList),
    ("symbols".toList, "List connectives, their ASCII spellings and Portuguese words".toList),
    ("config".toList, "Show or initialize the configuration".toList),
    ("completion".toList, "Generate shell completions".toList),
    ("version".toList, "Print version information".toList),
    ("help".toList, "Print this message".toList)]

/-- The overview of the command with the given names. -/
def overview (names : List Text) : Text :=
  let line (s : Text × Text) : Text :=
    "  ".toList ++ s.1 ++ List.replicate (12 - s.1.length) ' ' ++ s.2 ++ "\n".toList
  "Translate Portuguese sentences to propositional formulas and back\n\nUsage: ".toList ++
    Text.unwords names ++ " [OPTIONS] [ARGUMENTS]\n".toList ++
    (if names.length ≤ 1 then "\nCommands:\n".toList ++ summaries.flatMap line else []) ++
    "\nOptions:\n      --json      Output in JSON format\n".toList ++
    "  -v, --verbose   Enable verbose/debug output\n".toList ++
    "  -q, --quiet     Suppress non-essential output\n".toList ++
    "      --no-color  Disable colored output\n".toList ++
    "  -h, --help      Print help\n  -V, --version   Print version\n".toList

/-- The names of the commands, separated by spaces. -/
def commandNames : Text :=
  Text.unwords (summaries.map (·.1))

/-- A script that makes a shell complete the names of the commands. -/
def completion : Shell → Text
  | .bash => "complete -W \"".toList ++ commandNames ++ "\" cpc\n".toList
  | .zsh => "#compdef cpc\ncompadd ".toList ++ commandNames ++ "\n".toList
  | .fish => "complete -c cpc -f -a \"".toList ++ commandNames ++ "\"\n".toList
  | .powershell =>
    "Register-ArgumentCompleter -Native -CommandName cpc -ScriptBlock \x7b -split \"".toList ++
      commandNames ++ "\" \x7d\n".toList

end Sentential.Usage
