import Sentential.Command.Run

/-!
# The program

What surrounds the program is read from the system, the command line is run as a function of it, and
what the command line does is written back.  Of the files, only those are read at which a command
line may look.  Where a prompt is met by the end of what has been typed, the prompt is shown, a line
is read, and the command line is run again with that line.
-/

namespace Sentential.Main

/-! ### What is read -/

/-- The places through which a path leads from a place. -/
def placesOn : Place → List Text → List Place
  | p, [] => [p]
  | p, part :: rest =>
    p ::
      if part.isEmpty || part = ['.'] then placesOn p rest
      else if part = ['.', '.'] then placesOn p.dropLast rest
      else placesOn (p ++ [part]) rest

/-- The places at which a command line may look: directories of settings at the working directory
and above it, the directory that the environment names, and a file with meanings. -/
def placesOf (cwd : Place) (env : Environment) (args : List Text) : List Place :=
  let onPath (path : Text) : List Place :=
    placesOn (if Path.isAbsolute path then [] else cwd) (Text.cutAt '/' path)
  let above := (List.range (cwd.length + 1)).map cwd.take
  let walk := above.flatMap fun p =>
    placesOn p [Settings.directoryName, Settings.fileName]
  let named := (env.get? Settings.directoryVariable).toList.flatMap fun directory =>
    onPath (Path.join directory Settings.fileName)
  let file :=
    match Request.ofArguments args with
    | .run _ (.render request) => request.file.toList.flatMap onPath
    | _ => []
  walk ++ named ++ file

/-- The ways to write a name in upper and lower case. -/
def spellings : Text → List Text
  | [] => [[]]
  | c :: rest =>
    let more := spellings rest
    if c.isAlpha then more.map (c.toUpper :: ·) ++ more.map (c.toLower :: ·)
    else more.map (c :: ·)

/-- The names of the environment variables that matter. -/
def variableNames : List Text :=
  [Settings.directoryVariable, "NO_COLOR".toList, "CLICOLOR".toList, "TERM".toList,
    "CLICOLOR_FORCE".toList] ++
    spellings "CPC_JSON".toList ++ spellings "CPC_COLOR".toList

/-- The path of a place, as the system takes it. -/
def systemPath (p : Place) : String :=
  String.ofList (Path.ofParts p)

/-- Reads what stands at a place. -/
def readEntry (p : Place) : IO (Option FileEntry) := do
  try
    if ← (← IO.FS.realPath (systemPath p)).isDir then
      return some .directory
    else
      return some (.file (← IO.FS.readBinFile (systemPath p)).toList)
  catch _ => return none

/-- Reads what stands at some places. -/
def readFiles (places : List Place) : IO FileTree := do
  let mut files : FileTree := {}
  for p in places do
    if (files.get? p).isNone then
      if let some entry ← readEntry p then
        files := files.put p entry
  return files

/-- Reads the environment variables that matter. -/
def readEnvironment : IO Environment := do
  let mut env : Environment := []
  for name in variableNames do
    if let some value ← IO.getEnv (String.ofList name) then
      env := env ++ [(name, value.toList)]
  return env

/-- Reads what surrounds a command line, apart from the input. -/
def readSurroundings (args : List Text) : IO Surroundings := do
  let cwd := Path.parts (← IO.currentDir).toString.toList
  let env ← readEnvironment
  let files ← readFiles (placesOf cwd env args)
  let terminal ← (← IO.getStdout).isTty
  return ⟨files, cwd, env, [], terminal, "linux".toList, "x86_64".toList⟩

/-- Reads the rest of a line with its line feed; `line` holds, in reverse, what has been read. -/
partial def readLine (input : IO.FS.Stream) (line : Bytes) : IO Bytes := do
  match (← input.read 1).toList with
  | [] => return line.reverse
  | b :: _ => if b = 10 then return (b :: line).reverse else readLine input (b :: line)

/-! ### What is written -/

/-- Writes a text to a stream. -/
def write (stream : IO.FS.Stream) (t : Text) : IO Unit := do
  stream.putStr (String.ofList t)
  stream.flush

/-- Runs a command line, with a further line of the input whenever a prompt asks for one.  Of the
prompts, the first `shown` characters have been written. -/
partial def converse (w : Surroundings) (args : List Text) (shown : Nat) : IO Outcome := do
  let outcome := runLine w args
  write (← IO.getStderr) (outcome.prompts.drop shown)
  if outcome.inputEnded then
    let line ← readLine (← IO.getStdin) []
    if line.isEmpty then return outcome
    converse { w with input := w.input ++ line } args outcome.prompts.length
  else return outcome

/-- Writes what stands at a place, if it did not stand there before. -/
def writeEntry (before : FileTree) (p : Place) (entry : FileEntry) : IO Unit := do
  if before.get? p = some entry then return
  match entry with
  | .directory => IO.FS.createDir (systemPath p)
  | .file content => IO.FS.writeBinFile (systemPath p) ⟨content.toArray⟩

/-- Runs a command line in what surrounds the program, and returns its exit code. -/
def run (args : List Text) : IO UInt32 := do
  let w ← readSurroundings args
  let outcome ← converse w args 0
  for (p, entry) in outcome.files.entries do
    writeEntry w.files p entry
  write (← IO.getStdout) outcome.output
  write (← IO.getStderr) outcome.error
  return UInt32.ofNat outcome.code

end Sentential.Main

/-- Runs the command line of the program. -/
def main (arguments : List String) : IO UInt32 :=
  Sentential.Main.run (arguments.map String.toList)
