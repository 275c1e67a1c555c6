import Sentential.Datum
import Sentential.Text.Bytes

/-!
# Tags

A tag says how the node behind it is to be read.  Standard tags name a type of scalars.  A tag that
begins with an exclamation mark is private to its document; it names a variant, and the value of the
node is what that variant holds.  Every other tag makes a scalar a text.
-/

namespace Sentential.Yaml

/-- What a tag says about a node. -/
inductive Tag where
  /-- Nothing: the node is read as it is written. -/
  | implicit
  /-- A truth value. -/
  | bool
  /-- An integer. -/
  | integer
  /-- A floating-point number. -/
  | float
  /-- Nothing as a value. -/
  | null
  /-- A type that is not known. -/
  | other
  /-- A variant with a name. -/
  | variant (name : Text)
deriving DecidableEq, Inhabited

namespace Tag

/-- The names of the standard types begin with this text. -/
def standardHead : Text :=
  "tag:yaml.org,2002:".toList

/-- What a tag says that is written as a text.  The exclamation mark of a variant does not belong to
its name, unless it is all there is. -/
def ofText : Text → Tag
  | ['!'] => .variant ['!']
  | '!' :: name => .variant name
  | t =>
    if t = standardHead ++ "bool".toList then .bool
    else if t = standardHead ++ "int".toList then .integer
    else if t = standardHead ++ "float".toList then .float
    else if t = standardHead ++ "null".toList then .null
    else .other

/-- What a tag says.  One that begins with an exclamation mark and spells no text says nothing. -/
def ofBytes (bytes : Bytes) : Tag :=
  match Text.ofBytes? bytes with
  | some t => ofText t
  | none => if bytes.head? = some 0x21 then .implicit else .other

/-- The handles that stand for something in every document. -/
def standardHandles : List (Text × Bytes) :=
  [("!".toList, Text.toBytes "!".toList), ("!!".toList, Text.toBytes standardHead)]

/-- What a tag says that is written as a handle and a suffix.  A handle has to stand for something,
unless it is empty. -/
def expand? (handles : List (Text × Bytes)) (handle : Text) (suffix : Bytes) : Option Tag :=
  if handle.isEmpty then some (ofBytes suffix)
  else (entryAt? handle handles).map fun head => ofBytes (head ++ suffix)

/-- The value of a node with a tag, given what the node holds.  The parts of the name of a variant,
between its dots, are keys of dictionaries, one inside the other; the first empty part ends them. -/
def wrap (tag : Tag) (held : Datum) : Datum :=
  match tag with
  | .variant name => Datum.nest (Text.cutAt '.' name) held
  | _ => held

end Tag

end Sentential.Yaml
