import Sentential.Json.Printer
import Sentential.Rendering
import Sentential.Sentence.Formalization
import Sentential.Settings.Basic
import Sentential.Style

/-!
# Reports

How results are printed: as text with aligned tables, or as JSON.  The columns of a table are as
wide as their widest cell, counted in characters, and separated by two spaces.
-/

namespace Sentential.Report

/-- A text with its line break. -/
def line (t : Text) : Text :=
  t ++ ['\n']

/-! ### Tables -/

/-- A cell with spaces up to the width of its column. -/
def pad (width : Nat) (t : Text) : Text :=
  t ++ List.replicate (width - t.length) ' '

/-- The cells of a row, each with spaces up to the width of its column.  A cell behind the last column
stands as it is. -/
def padRow : List Nat → List Text → List Text
  | w :: ws, t :: ts => pad w t :: padRow ws ts
  | _, ts => ts

/-- The widths of columns that hold a further row. -/
def widen : List Nat → List Text → List Nat
  | w :: ws, t :: ts => max w t.length :: widen ws ts
  | ws, _ => ws

/-- The widths of the columns. -/
def widths (header : List Text) (rows : List (List Text)) : List Nat :=
  rows.foldl widen (header.map List.length)

/-- A row of cells on a line. -/
def rowLine (cells : List Text) : Text :=
  line (Text.join [' ', ' '] cells)

/-- A table: its header in bold, a rule, and its rows.  Without rows there is no table. -/
def table (color : Bool) (header : List Text) (rows : List (List Text)) : Text :=
  if rows.isEmpty then []
  else
    let ws := widths header rows
    rowLine ((padRow ws header).map (Style.bold color)) ++ rowLine (ws.map (Style.rule color)) ++
      rows.flatMap fun row => rowLine (padRow ws row)

/-! ### Formalizations -/

/-- What the variables of a legend stand for, as a table. -/
def legendTable (color : Bool) (m : Legend) : Text :=
  table color ["Variable".toList, "Clause".toList] (m.entries.map fun e => [e.var.name, e.clause])

/-- A formalization: its formula and, unless only the essential is wanted, its legend. -/
def formalization (color quiet : Bool) (t : Formalization) : Text :=
  line (Style.formulaText color t.formula.display) ++
    if quiet then [] else line [] ++ legendTable color t.legend

/-- A formalization and the sentence as which its formula is rendered. -/
def roundtrip (color quiet : Bool) (t : Formalization) (sentence : Text) : Text :=
  formalization color quiet t ++ (if quiet then [] else line []) ++ line sentence

/-- The connectives as a table and, unless only the essential is wanted, the sentence shapes. -/
def connectives (color quiet : Bool) : Text :=
  table color ["Connective".toList, "Glyph".toList, "ASCII".toList, "Word".toList]
    (Connective.all.map fun c => [c.name, [c.glyph], Text.unwords c.ascii, c.word]) ++
    if quiet then []
    else
      line [] ++ line ("Sentences: ".toList ++ sentenceShapes) ++
        line ("Negation: ".toList ++ negationUsage)

/-! ### JSON -/

/-- A JSON document on lines of its own. -/
def json (j : Json) : Text :=
  line j.print

/-- An object with the given fields. -/
def object (fields : List (String × Json)) : Json :=
  .object (fields.map fun f => (f.1.toList, f.2))

/-- Variables with what they stand for. -/
def entriesJson (es : List Legend.Entry) : Json :=
  .list (es.map fun e => object [("variable", .text e.var.name), ("clause", .text e.clause)])

/-- A formalization. -/
def formalizationJson (t : Formalization) : Json :=
  object [("formula", .text t.formula.display), ("mapping", entriesJson t.legend.entries)]

/-- A formalization and the sentence as which its formula is rendered. -/
def roundtripJson (input : Text) (t : Formalization) (sentence : Text) : Json :=
  object [("input", .text input), ("formula", .text t.formula.display),
    ("mapping", entriesJson t.legend.entries), ("sentence", .text sentence)]

/-- A rendering of a formula. -/
def renderingJson (formula : Text) (r : Rendering) : Json :=
  object [("formula", .text formula), ("sentence", .text r.sentence),
    ("meanings", entriesJson r.meanings)]

/-- The connectives. -/
def connectivesJson : Json :=
  .list (Connective.all.map fun c =>
    object [("name", .text c.name), ("glyph", .text [c.glyph]), ("ascii", .texts c.ascii),
      ("word", .text c.word)])

/-- Settings, and the path of their file. -/
def settingsJson (path : Option Text) (s : Settings) : Json :=
  object [
    ("config", object [
      ("color", .text s.color.word),
      ("json", .bool s.json),
      ("meanings", .object (s.meanings.entries.map fun e => (e.1, .text e.2))),
      ("negation", object [
        ("extra-forms", .texts s.extraForms),
        ("extra-suffixes", .texts s.extraSuffixes)])]),
    ("path", path.elim .null .text)]

end Sentential.Report
