import Sentential.Settings.Layers
import Sentential.Yaml.Printer

/-!
# Saving settings

Settings are saved as a YAML document, with all fields in a fixed order.
-/

namespace Sentential.Settings

/-- The settings as a YAML document. -/
def document (s : Settings) : Text :=
  jsonKey ++ ": ".toList ++ (if s.json then "true".toList else "false".toList) ++ "\n".toList ++
    colorKey ++ ": ".toList ++ s.color.word ++ "\n".toList ++
    negationKey ++ ":\n".toList ++
    "  ".toList ++ suffixesKey ++ ":".toList ++ Yaml.textList 2 s.extraSuffixes ++
    "  ".toList ++ formsKey ++ ":".toList ++ Yaml.textList 2 s.extraForms ++
    meaningsKey ++ ":".toList ++ Yaml.textTable 2 s.meanings.entries

/-- Saves settings in a directory, which is given by an absolute path and created if need be. -/
def save (t : FileTree) (directory : Text) (s : Settings) : Except SettingsError Unit × FileTree :=
  match t.makeDirectories (Path.parts directory).reverse with
  | (.error e, t) => (.error (.unusable e), t)
  | (.ok (), t) =>
    match t.writeText [] (Path.join directory fileName) s.document with
    | .ok t => (.ok (), t)
    | .error e => (.error (.unusable e), t)

end Sentential.Settings
