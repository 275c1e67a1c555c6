import Sentential.Table

/-!
# Plain data

Configuration files and environment variables hold plain data: truth values, numbers, texts, lists
and dictionaries.  Layers of such data are merged, where a later layer wins, and dictionaries are
merged entry by entry.
-/

namespace Sentential

/-- A plain value. -/
inductive Datum where
  /-- The absence of a value. -/
  | null
  /-- A truth value. -/
  | bool (b : Bool)
  /-- A number, in the spelling in which it was written. -/
  | number (spelling : Text)
  /-- A text. -/
  | text (t : Text)
  /-- A list of values. -/
  | list (items : List Datum)
  /-- Values under keys, in the order of the keys. -/
  | dict (entries : List (Text × Datum))
deriving Inhabited

namespace Datum

mutual

/-- Lays a value over another one. -/
def merge : Datum → Datum → Datum
  | dict base, dict entries => dict (mergeEntries base entries)
  | _, value => value

/-- Lays the entries of one dictionary over those of another one. -/
def mergeEntries : List (Text × Datum) → List (Text × Datum) → List (Text × Datum)
  | base, [] => base
  | base, (k, value) :: rest =>
    let merged := match entryAt? k base with
      | some below => merge below value
      | none => value
    mergeEntries (insertEntry k merged base) rest

end

/-- A value inside dictionaries of one entry each, whose keys are the given parts.  An empty part
ends the parts. -/
def nest : List Text → Datum → Datum
  | [], value => value
  | part :: parts, value => if part.isEmpty then value else dict [(part, nest parts value)]

/-- The text that a value is. -/
def text? : Datum → Option Text
  | text t => some t
  | _ => none

/-- The texts that the members of a list are. -/
def texts? : Datum → Option (List Text)
  | list items => items.mapM text?
  | _ => none

end Datum

end Sentential
