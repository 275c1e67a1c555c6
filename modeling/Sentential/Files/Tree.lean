import Sentential.Files.Path
import Sentential.Text.Bytes

/-!
# File trees

A file tree says what stands at each place of a file system: a directory or a file with its bytes.
A place is the list of names that lead to it from the root; the root is a directory.  There are no
links, so that every path leads to one place.

Paths are followed name by name: each name but the last has to be that of a directory, and so has
the last one where a slash or a dot follows it.
-/

namespace Sentential

/-- Why a file or directory cannot be used. -/
inductive FileError where
  /-- There is nothing at the place. -/
  | notFound
  /-- There is something at the place already. -/
  | alreadyExists
  /-- A directory is needed where a file stands. -/
  | notDirectory
  /-- A file is needed where a directory stands. -/
  | isDirectory
  /-- The bytes are not well-formed as text. -/
  | notText
deriving DecidableEq

/-- The wording of an error. -/
def FileError.message : FileError → Text
  | notFound => "No such file or directory (os error 2)".toList
  | alreadyExists => "File exists (os error 17)".toList
  | notDirectory => "Not a directory (os error 20)".toList
  | isDirectory => "Is a directory (os error 21)".toList
  | notText => "stream did not contain valid UTF-8".toList

/-- The names that lead from the root to a place. -/
abbrev Place := List Text

/-- What stands at a place. -/
inductive FileEntry where
  /-- A directory. -/
  | directory
  /-- A file with its bytes. -/
  | file (content : Bytes)
deriving DecidableEq

/-- What stands at the places of a file system. -/
structure FileTree where
  /-- The places apart from the root, each with what stands there. -/
  entries : List (Place × FileEntry) := []
deriving DecidableEq, Inhabited

namespace FileTree

/-- What stands at a place. -/
def get? (t : FileTree) (p : Place) : Option FileEntry :=
  if p.isEmpty then some .directory else (t.entries.find? fun e => e.1 = p).map (·.2)

/-- Replaces what stands at a place in a list of entries, or adds it at the end. -/
def putEntry (p : Place) (x : FileEntry) : List (Place × FileEntry) → List (Place × FileEntry)
  | [] => [(p, x)]
  | (q, y) :: rest => if q = p then (p, x) :: rest else (q, y) :: putEntry p x rest

/-- Puts something at a place. -/
def put (t : FileTree) (p : Place) (x : FileEntry) : FileTree :=
  ⟨putEntry p x t.entries⟩

/-- Whether there is a directory at a place. -/
def isDirectoryAt (t : FileTree) (p : Place) : Bool :=
  t.get? p = some .directory

/-- Follows the parts of a path from a place.  Empty parts and the part `.` stay in place. -/
def follow (t : FileTree) : Place → List Text → Except FileError Place
  | p, [] => .ok p
  | p, part :: rest =>
    match t.get? p with
    | none => .error .notFound
    | some (.file _) => .error .notDirectory
    | some .directory =>
      if part.isEmpty || part = ['.'] then follow t p rest
      else if part = ['.', '.'] then follow t p.dropLast rest
      else follow t (p ++ [part]) rest

/-- The place to which a path leads from the directory `cwd`.  There need not be anything there. -/
def resolve (t : FileTree) (cwd : Place) (path : Text) : Except FileError Place :=
  if path.isEmpty then .error .notFound
  else follow t (if Path.isAbsolute path then [] else cwd) (Text.cutAt '/' path)

/-- What stands where a path leads. -/
def lookup (t : FileTree) (cwd : Place) (path : Text) : Except FileError (Place × FileEntry) :=
  match t.resolve cwd path with
  | .error e => .error e
  | .ok p =>
    match t.get? p with
    | some x => .ok (p, x)
    | none => .error .notFound

/-- Whether a path leads to something. -/
def contains (t : FileTree) (cwd : Place) (path : Text) : Bool :=
  match t.lookup cwd path with
  | .ok _ => true
  | .error _ => false

/-- Whether a path leads to a directory. -/
def isDirectory (t : FileTree) (cwd : Place) (path : Text) : Bool :=
  match t.lookup cwd path with
  | .ok (_, .directory) => true
  | _ => false

/-- The text of the file to which a path leads. -/
def readText (t : FileTree) (cwd : Place) (path : Text) : Except FileError Text :=
  match t.lookup cwd path with
  | .error e => .error e
  | .ok (_, .directory) => .error .isDirectory
  | .ok (_, .file content) =>
    match Text.ofBytes? content with
    | some text => .ok text
    | none => .error .notText

/-- Writes a text to the file to which a path leads. -/
def writeText (t : FileTree) (cwd : Place) (path text : Text) : Except FileError FileTree :=
  match t.resolve cwd path with
  | .error e => .error e
  | .ok p =>
    if t.isDirectoryAt p then .error .isDirectory
    else if !t.isDirectoryAt p.dropLast then .error .notFound
    else .ok (t.put p (.file text.toBytes))

/-- Creates the directory to which a path leads, inside one that exists. -/
def makeDirectory (t : FileTree) (cwd : Place) (path : Text) : Except FileError FileTree :=
  match t.resolve cwd path with
  | .error e => .error e
  | .ok p =>
    if (t.get? p).isSome then .error .alreadyExists
    else
      match t.get? p.dropLast with
      | none => .error .notFound
      | some (.file _) => .error .notDirectory
      | some .directory => .ok (t.put p .directory)

/-- Creates the directory of an absolute path, whose parts are given from the last one to the first,
together with the directories above it. -/
def makeDirectories (t : FileTree) : List Text → Except FileError Unit × FileTree
  | [] => (.ok (), t)
  | part :: above =>
    let path := Path.ofParts (part :: above).reverse
    let settle (t : FileTree) (e : FileError) : Except FileError Unit × FileTree :=
      if t.isDirectory [] path then (.ok (), t) else (.error e, t)
    match t.makeDirectory [] path with
    | .ok t => (.ok (), t)
    | .error .notFound =>
      match makeDirectories t above with
      | (.error e, t) => (.error e, t)
      | (.ok (), t) =>
        match t.makeDirectory [] path with
        | .ok t => (.ok (), t)
        | .error e => settle t e
    | .error e => settle t e

end FileTree

end Sentential
