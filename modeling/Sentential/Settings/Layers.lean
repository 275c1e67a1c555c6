import Sentential.Environment
import Sentential.Settings.Basic
import Sentential.Settings.Override
import Sentential.Yaml.Value

/-!
# Loading settings

Settings come in three layers, of which a later one wins: the defaults, a YAML document, and the
environment variables `CPC_JSON` and `CPC_COLOR`, whose names may be written in any case.
Dictionaries are merged entry by entry; every other value is replaced as a whole.  The types of the
values are checked after merging.
-/

namespace Sentential

namespace Settings

/-! ### Settings as plain data -/

/-- The names of the fields. -/
def jsonKey : Text :=
  "json".toList

@[inherit_doc jsonKey]
def colorKey : Text :=
  "color".toList

@[inherit_doc jsonKey]
def negationKey : Text :=
  "negation".toList

@[inherit_doc jsonKey]
def suffixesKey : Text :=
  "extra-suffixes".toList

@[inherit_doc jsonKey]
def formsKey : Text :=
  "extra-forms".toList

@[inherit_doc jsonKey]
def meaningsKey : Text :=
  "meanings".toList

/-- The defaults, as the lowest layer. -/
def defaultLayer : List (Text × Datum) :=
  [(colorKey, .text ColorMode.auto.word), (jsonKey, .bool false), (meaningsKey, .dict []),
    (negationKey, .dict [(formsKey, .list []), (suffixesKey, .list [])])]

/-- Reads a truth value. -/
def readFlag? : Datum → Option Bool
  | .bool b => some b
  | _ => none

/-- Reads a mode: its word, or a dictionary whose first key is the word and has no value. -/
def readColor? : Datum → Option ColorMode
  | .text t => ColorMode.ofWord? t
  | .dict ((k, .null) :: _) => ColorMode.ofWord? k
  | _ => none

/-- Reads the lists of endings and of forms, under their names or in this order. -/
def readNegation? : Datum → Option (List Text × List Text)
  | .dict entries => do
    let suffixes ← (entryAt? suffixesKey entries).elim (some []) Datum.texts?
    let forms ← (entryAt? formsKey entries).elim (some []) Datum.texts?
    return (suffixes, forms)
  | .list items => do
    let suffixes ← (items[0]?).elim (some []) Datum.texts?
    let forms ← (items[1]?).elim (some []) Datum.texts?
    return (suffixes, forms)
  | _ => none

/-- Reads a table of texts. -/
def readTexts? : Datum → Option (Table Text)
  | .dict entries =>
    (entries.mapM fun (e : Text × Datum) => e.2.text?.map fun t => (e.1, t)).map Table.ofList
  | _ => none

/-- Reads settings.  A field that is missing has its default, and other entries are ignored. -/
def ofEntries? (entries : List (Text × Datum)) : Option Settings := do
  let json ← (entryAt? jsonKey entries).elim (some false) readFlag?
  let color ← (entryAt? colorKey entries).elim (some .auto) readColor?
  let negation ← (entryAt? negationKey entries).elim (some ([], [])) readNegation?
  let meanings ← (entryAt? meaningsKey entries).elim (some .empty) readTexts?
  return ⟨json, color, negation.1, negation.2, meanings⟩

/-! ### Layers -/

/-- The setting that an environment variable overrides, by its name in lower case and without white
space around it. -/
def overridden? (name : Text) : Option Text :=
  let name := name.trim.map Char.toLower
  if name = "cpc_json".toList then some jsonKey
  else if name = "cpc_color".toList then some colorKey
  else none

/-- The layer of the environment.  Variables for the same setting are merged, the later one on top of
the earlier one. -/
def overrides (env : Environment) : List (Text × Datum) :=
  Datum.mergeEntries []
    (env.filterMap fun e => (overridden? e.1).map fun key => (key, Override.value e.2))

/-- The layer of a YAML document.  A blank one has no entries. -/
def documentLayer? (document : Text) : Option (List (Text × Datum)) :=
  if document.isBlank then some [] else (Yaml.read document).bind Yaml.Node.dict?

/-- Merges the layers and reads them. -/
def merge? (document : List (Text × Datum)) (env : Environment) : Option Settings :=
  ofEntries? (Datum.mergeEntries (Datum.mergeEntries defaultLayer document) (overrides env))

/-- The settings for a YAML document in an environment. -/
def ofDocument (document : Text) (env : Environment) : Except SettingsError Settings :=
  match (documentLayer? document).bind fun layer => merge? layer env with
  | some s => .ok s
  | none => .error .malformed

/-- The name of the file with the settings. -/
def fileName : Text :=
  "config.yaml".toList

/-- Loads the settings in a directory.  A missing file counts as an empty one. -/
def load (t : FileTree) (cwd : Place) (directory : Text) (env : Environment) :
    Except SettingsError Settings :=
  let path := Path.join directory fileName
  if t.contains cwd path then
    match t.readText cwd path with
    | .ok document => ofDocument document env
    | .error e => .error (.unusable e)
  else ofDocument [] env

/-- Loads the settings in a directory, or the defaults if there is none. -/
def loadOrDefault (t : FileTree) (cwd : Place) (directory : Option Text) (env : Environment) :
    Except SettingsError Settings :=
  match directory with
  | some d => load t cwd d env
  | none => .ok {}

end Settings

end Sentential
