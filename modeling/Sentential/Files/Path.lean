import Sentential.Text.Basic

/-!
# Paths

A path is a text whose parts are separated by slashes.  Empty parts and the part `.` mean nothing
and are left out; the part `..` is kept, since what it means depends on the files.
-/

namespace Sentential.Path

/-- The parts of a path. -/
def parts (p : Text) : List Text :=
  (Text.cutAt '/' p).filter fun part => !part.isEmpty && part ≠ ['.']

/-- Whether a path begins at the root. -/
def isAbsolute (p : Text) : Bool :=
  p.head? = some '/'

/-- A path that continues another one.  A path from the root stands for itself. -/
def join (base p : Text) : Text :=
  if isAbsolute p || base.isEmpty then p
  else if base.getLast? = some '/' then base ++ p
  else base ++ '/' :: p

/-- The absolute path with the given parts. -/
def ofParts (ps : List Text) : Text :=
  if ps.isEmpty then ['/'] else ps.flatMap fun part => '/' :: part

/-- The last part of a path, if it is a name. -/
def fileName? (p : Text) : Option Text :=
  (parts p).getLast?.filter (· ≠ ['.', '.'])

/-- What stands behind the last dot of a name, unless the dot begins the name. -/
def extension? (p : Text) : Option Text :=
  match fileName? p with
  | none => none
  | some name =>
    let after := (name.reverse.takeWhile (· ≠ '.')).reverse
    if after.length + 1 < name.length then some after else none

end Sentential.Path
