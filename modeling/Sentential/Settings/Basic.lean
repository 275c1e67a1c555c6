import Sentential.Files.Tree
import Sentential.Table
import Sentential.Variable

/-!
# Settings

The settings of a project: whether output is JSON by default, when it is colored, which words count
as verbs in addition to the built-in ones, and default meanings of variables.

The table of default meanings is kept as it was written.  `Settings.meaningTable` reads its keys as
variables.
-/

namespace Sentential

/-- When output is colored. -/
inductive ColorMode where
  /-- When the environment asks for it. -/
  | auto
  /-- Always. -/
  | always
  /-- Never. -/
  | never
deriving DecidableEq, Inhabited

namespace ColorMode

/-- The spelling of a mode. -/
def word : ColorMode → Text
  | auto => "auto".toList
  | always => "always".toList
  | never => "never".toList

/-- Reads a mode. -/
def ofWord? (t : Text) : Option ColorMode :=
  [auto, always, never].find? fun m => m.word = t

end ColorMode

/-- The settings of a project. -/
structure Settings where
  /-- Whether output is JSON by default. -/
  json : Bool := false
  /-- When output is colored. -/
  color : ColorMode := .auto
  /-- Endings that mark a word as a verb. -/
  extraSuffixes : List Text := []
  /-- Forms that mark a word as a verb wherever they stand in it. -/
  extraForms : List Text := []
  /-- Default meanings under the names of variables. -/
  meanings : Table Text := .empty
deriving DecidableEq, Inhabited

/-! ### Meanings -/

/-- What variables mean.  A later entry counts more than an earlier one for the same variable. -/
abbrev Meanings := List (Variable × Text)

/-- The meaning of a variable: that of its last entry. -/
def Meanings.get? (m : Meanings) (v : Variable) : Option Text :=
  (m.reverse.find? fun e => e.1 = v).map (·.2)

/-- The meanings in the order of their variables. -/
def Meanings.table (m : Meanings) : Table Text :=
  Table.ofList (m.map fun e => (e.1.name, e.2))

/-- Why an entry gives no variable a meaning. -/
inductive MeaningFault where
  /-- The key is no variable. -/
  | badVariable (e : InvalidVariable)
  /-- The clause is blank. -/
  | blank (v : Variable)
deriving DecidableEq

/-- Reads an entry of a table of meanings.  White space around the key and the clause is dropped. -/
def readMeaning (key clause : Text) : Except MeaningFault (Variable × Text) :=
  match Variable.parse key.trim with
  | .error e => .error (.badVariable e)
  | .ok v => if clause.trim.isEmpty then .error (.blank v) else .ok (v, clause.trim)

/-- Reads the entries of a table of meanings in order, and stops at the first that gives none; the
answer names its key. -/
def readMeanings : List (Text × Text) → Except (Text × MeaningFault) Meanings
  | [] => .ok []
  | (key, clause) :: rest =>
    match readMeaning key clause with
    | .error fault => .error (key, fault)
    | .ok e => (readMeanings rest).map (e :: ·)

/-! ### Errors -/

/-- Why there are no settings. -/
inductive SettingsError where
  /-- A file or directory cannot be used. -/
  | unusable (e : FileError)
  /-- The settings are malformed, or a value has the wrong type. -/
  | malformed
  /-- An entry of the table of meanings gives no variable a meaning. -/
  | invalidMeaning (key : Text) (fault : MeaningFault)
deriving DecidableEq

/-- Why a value is invalid. -/
def MeaningFault.reason : MeaningFault → Text
  | badVariable e => e.message
  | blank _ => "clause text is empty".toList

/-- The wording of an error. -/
def SettingsError.message : SettingsError → Text
  | unusable e => "failed to read config file: ".toList ++ e.message
  | malformed => "failed to load config: invalid settings".toList
  | invalidMeaning key fault =>
    "invalid configuration value for key 'meanings.".toList ++ key ++ "': ".toList ++ fault.reason

/-- The wording of an error together with its causes. -/
def SettingsError.fullMessage : SettingsError → Text
  | unusable e => (unusable e).message ++ ": ".toList ++ e.message
  | e => e.message

/-- The default meanings, with their keys read as variables. -/
def Settings.meaningTable (s : Settings) : Except SettingsError Meanings :=
  match readMeanings s.meanings.entries with
  | .ok m => .ok m
  | .error (key, fault) => .error (.invalidMeaning key fault)

end Sentential
