import Sentential.Command.Request
import Sentential.Files.Tree
import Sentential.Json.Reader
import Sentential.Rendering
import Sentential.Toml.Reader
import Sentential.Yaml.Value

/-!
# Meanings for a formula

Meanings come from four places.  Those given on the command line count most, then a file, then the
settings.  A variable that has none there is asked for: a prompt is written, and one line of the
input is read.

A file with meanings is JSON or TOML where its name ends so, and YAML otherwise.
-/

namespace Sentential

/-! ### Files -/

/-- The format of a file with meanings. -/
inductive MeaningFormat where
  | json
  | toml
  | yaml
deriving DecidableEq

namespace MeaningFormat

/-- The name of a format. -/
def name : MeaningFormat → Text
  | json => "JSON".toList
  | toml => "TOML".toList
  | yaml => "YAML".toList

/-- The format of the file at a path. -/
def ofPath (path : Text) : MeaningFormat :=
  match (Path.extension? path).map (·.map Char.toLower) with
  | some e => if e = "json".toList then json else if e = "toml".toList then toml else yaml
  | none => yaml

/-- Reads a document as a table of texts. -/
def read? : MeaningFormat → Text → Option (Table Text)
  | json, document => Json.texts? document
  | toml, document => Toml.texts? document
  | yaml, document => (Yaml.read document).bind Yaml.Node.texts?

end MeaningFormat

/-- Why a file gives no meanings. -/
inductive MeaningFileError where
  /-- The file cannot be read. -/
  | unreadable (path : Text) (e : FileError)
  /-- The document is malformed. -/
  | malformed (path : Text) (format : MeaningFormat)
  /-- An entry gives no variable a meaning. -/
  | invalid (path key : Text) (fault : MeaningFault)
deriving DecidableEq

/-- The wording of an error. -/
def MeaningFileError.message : MeaningFileError → Text
  | unreadable path e =>
    "failed to read meanings file: ".toList ++ path ++ ": ".toList ++ e.message
  | malformed path format => "invalid ".toList ++ format.name ++ " in ".toList ++ path
  | invalid path key (.badVariable e) =>
    "bad variable '".toList ++ key ++ "' in ".toList ++ path ++ ": ".toList ++ e.message
  | invalid path _ (.blank v) =>
    "empty meaning for ".toList ++ v.name ++ " in ".toList ++ path

/-- Reads the meanings in a table of texts that comes from the file at a path. -/
def meaningsOfTable (path : Text) (table : Table Text) : Except MeaningFileError Meanings :=
  match readMeanings table.entries with
  | .ok m => .ok m
  | .error (key, fault) => .error (.invalid path key fault)

/-- Reads a file with meanings. -/
def loadMeanings (t : FileTree) (cwd : Place) (path : Text) : Except MeaningFileError Meanings :=
  match t.readText cwd path with
  | .error e => .error (.unreadable path e)
  | .ok document =>
    let format := MeaningFormat.ofPath path
    match format.read? document with
    | none => .error (.malformed path format)
    | some table => meaningsOfTable path table

/-! ### Prompts -/

/-- How far asking for meanings has got. -/
structure Dialogue where
  /-- The input that has not been read. -/
  unread : Bytes
  /-- The prompts that were written. -/
  prompts : Text := []
  /-- Whether a line of the input was not well-formed as text. -/
  broken : Bool := false
  /-- Whether a prompt was met by the end of the input. -/
  ended : Bool := false

/-- Takes the first line of some bytes, with its line feed. -/
def takeLine : Bytes → Bytes × Bytes
  | [] => ([], [])
  | b :: rest =>
    if b = 10 then ([b], rest)
    else
      let r := takeLine rest
      (b :: r.1, r.2)

/-- The prompt for a variable. -/
def promptFor (v : Variable) : Text :=
  "Digite o significado de ".toList ++ v.name ++ ": ".toList

/-- Asks for the meaning of a variable.  There is none at the end of the input. -/
def prompt (v : Variable) (d : Dialogue) : Option Text × Dialogue :=
  let r := takeLine d.unread
  let d := { d with unread := r.2, prompts := d.prompts ++ promptFor v }
  if r.1.isEmpty then (none, { d with ended := true })
  else
    match Text.ofBytes? r.1 with
    | some line => (some line.trim, d)
    | none => (none, { d with broken := true })

/-- Meanings from a table, and from prompts for what it does not have. -/
def MeaningSource.interactive (known : Meanings) (noPrompt : Bool) : MeaningSource Dialogue :=
  fun v d =>
    match known.get? v with
    | some clause => (some clause, d)
    | none => if noPrompt then (none, d) else prompt v d

end Sentential
