import Sentential.Settings.Layers

/-!
# The directory of a project's settings

Settings live in a directory named `.cpc`.  It is found by walking up from the working directory to
the nearest directory that has one.  The environment variable `CPC_DIR` wins over the walk where it
names a directory.
-/

namespace Sentential.Settings

/-- The name of the directory. -/
def directoryName : Text :=
  ".cpc".toList

/-- The environment variable that names the directory. -/
def directoryVariable : Text :=
  "CPC_DIR".toList

/-- The nearest place, among one given by its names from the last to the first and those above it,
that has a directory of settings. -/
def nearest? (t : FileTree) : List Text → Option Place
  | [] => if t.isDirectoryAt [directoryName] then some [directoryName] else none
  | name :: above =>
    let candidate := (name :: above).reverse ++ [directoryName]
    if t.isDirectoryAt candidate then some candidate else nearest? t above

/-- The directory that the environment names. -/
def namedDirectory? (t : FileTree) (cwd : Place) (env : Environment) : Option Text :=
  (env.get? directoryVariable).filter fun path => t.isDirectory cwd path

/-- Finds the directory of settings for the path `start`. -/
def findDirectory? (t : FileTree) (cwd : Place) (env : Environment) (start : Text) : Option Text :=
  match namedDirectory? t cwd env with
  | some path => some path
  | none =>
    match t.lookup cwd start with
    | .ok (p, _) => (nearest? t p.reverse).map Path.ofParts
    | .error _ => none

/-- The directory of settings that belongs to a path: the path itself if it has the name of such a
directory, or the one inside it. -/
def directoryAt (path : Text) : Text :=
  if (Path.parts path).getLast? = some directoryName then path else Path.join path directoryName

/-- Makes sure that an absolute path has a directory of settings. -/
def ensureDirectory (t : FileTree) (path : Text) : Except SettingsError Text × FileTree :=
  let directory := directoryAt path
  match t.makeDirectories (Path.parts directory).reverse with
  | (.ok (), t) => (.ok directory, t)
  | (.error e, t) => (.error (.unusable e), t)

end Sentential.Settings
