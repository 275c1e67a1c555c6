import Sentential.Yaml.Reference
import Sentential.Yaml.Scalar

/-!
# Values of nodes

What the nodes of a document stand for.  There are two readings of a document whose root is a
mapping or empty:

* `dict?` gives every node its value, plain scalars according to their spelling;
* `texts?` takes keys and values as they are written, so that the value `1` is the text *1*.

In both readings keys are the texts of scalars, and of equal keys the last one counts.  Below the
root two keys are reserved: one for a value that stands for the whole mapping, and one for a number
that says where the value comes from, which is checked and forgotten.
-/

namespace Sentential.Yaml

/-- How deep collections may be nested. -/
def depthLimit : Nat :=
  128

/-- The reserved keys begin with this text. -/
def reservedHead : Text :=
  "___figment_value_".toList

/-- The key of a value that stands for the mapping around it. -/
def valueKey : Text :=
  reservedHead ++ "value".toList

/-- The key of the number that says where the value of a mapping comes from. -/
def originKey : Text :=
  reservedHead ++ "id".toList

/-- The value of a scalar without its tag. -/
def untaggedValue (plain : Bool) (t : Text) : Datum :=
  if plain then plainValue t else .text t

/-- The value of a scalar.  It has to fit a standard tag. -/
def scalarValue? (tag : Tag) (plain : Bool) (t : Text) : Option Datum :=
  match tag with
  | .bool => (boolWord? t).map .bool
  | .integer => if isInteger t then some (.number t) else none
  | .float => if isFloat t then some (.number t) else none
  | .null => if isNullWord t then some .null else none
  | .other => some (.text t)
  | .implicit => some (untaggedValue plain t)
  | .variant _ => some (tag.wrap (untaggedValue plain t))

/-- Whether a node is a number that can say where a value comes from. -/
def isOrigin : Node → Bool
  | .scalar _ tag plain t => ((tag = .implicit && plain) || tag = .integer) && isUnsigned 64 t
  | _ => false

/-- What the entries of a mapping give so far. -/
structure Gathered where
  /-- The entries under keys that are not reserved. -/
  entries : List (Text × Datum) := []
  /-- The value that stands for the mapping. -/
  replacement : Option Datum := none

/-- The value of the mapping. -/
def Gathered.value (g : Gathered) : Datum :=
  g.replacement.getD (.dict g.entries)

namespace Node

/-- Reads an entry below the root, where `read` reads the values of nodes. -/
def gather (targets : List Node) (read : Node → Reading Datum) (g : Gathered) (e : Node × Node) :
    Reading Gathered := do
  let key ← Reading.scalarText targets e.1
  if key = valueKey then
    let value ← read e.2
    return { g with replacement := some value }
  else if key = originKey then
    let node ← Reading.follow targets e.2
    if isOrigin node then return g else failure
  else
    let value ← read e.2
    return { g with entries := insertEntry key value g.entries }

/-- The value of a node whose collections are nested at most `depth` times. -/
def value (targets : List Node) : Nat → Node → Reading Datum
  | 0, node => do
    match ← Reading.follow targets node with
    | scalar _ tag plain t => scalarValue? tag plain t
    | _ => failure
  | depth + 1, node => do
    match ← Reading.follow targets node with
    | scalar _ tag plain t => scalarValue? tag plain t
    | sequence _ tag items =>
      let values ← items.mapM (value targets depth)
      return tag.wrap (.list values)
    | mapping _ tag entries =>
      let g ← entries.foldlM (gather targets (value targets depth)) {}
      return tag.wrap g.value
    | reference _ => failure

/-- The root of a document as a mapping; an empty document has no entries. -/
def rootEntries? : Node → Option (List (Node × Node))
  | mapping _ _ entries => some entries
  | scalar _ _ plain t => if plain && t.isEmpty then some [] else none
  | _ => none

/-- Reads an entry of the root. -/
def rootEntry (targets : List Node) (acc : List (Text × Datum)) (e : Node × Node) :
    Reading (List (Text × Datum)) := do
  let key ← Reading.scalarText targets e.1
  let value ← value targets (depthLimit - 1) e.2
  return insertEntry key value acc

/-- The document as a dictionary of values. -/
def dict? (root : Node) : Option (List (Text × Datum)) :=
  root.rootEntries?.bind fun entries =>
    Reading.result? root (entries.foldlM (rootEntry root.targets) [])

/-- An entry whose key and value are scalars, as texts. -/
def textPair (targets : List Node) (e : Node × Node) : Reading (Text × Text) := do
  let key ← Reading.scalarText targets e.1
  let text ← Reading.scalarText targets e.2
  return (key, text)

/-- The document as a table of texts. -/
def texts? (root : Node) : Option (Table Text) :=
  root.rootEntries?.bind fun entries =>
    (Reading.result? root (entries.mapM (textPair root.targets))).map Table.ofList

end Node

end Sentential.Yaml
