import Sentential.Command.Prompt
import Sentential.Command.Report
import Sentential.Command.Usage
import Sentential.Settings.Directory
import Sentential.Settings.Document

/-!
# Running a command line

The outcome of a command line is a function of what surrounds it: the files, the working directory,
the environment and the input.  It consists of an exit code, the output, prompts and an error, and
the files afterwards.  Where a prompt is met by the end of the input, the outcome says so, so that a
command line can be run again when a further line has been typed.

A command that fails exits with 1 and writes its error to the error output; a line that is malformed
exits with 2.  Errors are JSON where the flag asks for it, and styled text otherwise.
-/

namespace Sentential

/-- What surrounds a command line. -/
structure Surroundings where
  /-- The files. -/
  files : FileTree
  /-- The working directory. -/
  cwd : Place
  /-- The environment. -/
  env : Environment
  /-- The input. -/
  input : Bytes
  /-- Whether the output goes to a terminal. -/
  terminal : Bool
  /-- The name of the operating system. -/
  system : Text
  /-- The name of the machine's architecture. -/
  architecture : Text

/-- What a command line does. -/
structure Outcome where
  /-- The exit code. -/
  code : Nat
  /-- What is written to the output. -/
  output : Text := []
  /-- The prompts that are written to the error output. -/
  prompts : Text := []
  /-- The error that is written to the error output, behind the prompts. -/
  error : Text := []
  /-- Whether a prompt was met by the end of the input. -/
  inputEnded : Bool := false
  /-- The files afterwards. -/
  files : FileTree

/-- Why a command fails. -/
inductive CommandError where
  /-- The settings in a directory cannot be loaded. -/
  | unloadable (directory : Option Text) (e : SettingsError)
  /-- The settings cannot be used. -/
  | settings (e : SettingsError)
  /-- A sentence cannot be formalized, or a formula cannot be rendered. -/
  | sentence (e : SentenceError)
  /-- A file gives no meanings. -/
  | meanings (e : MeaningFileError)
  /-- A line of the input is not well-formed as text. -/
  | input
  /-- There are settings already. -/
  | alreadyInitialized (path : Text)
deriving DecidableEq

/-- The wording of an error. -/
def CommandError.message : CommandError → Text
  | unloadable (some directory) e =>
    "failed to load configuration from ".toList ++ directory ++ ": ".toList ++ e.fullMessage
  | unloadable none e => "failed to load configuration: ".toList ++ e.fullMessage
  | settings e => e.fullMessage
  | sentence e => e.message
  | meanings e => e.message
  | input => "failed to read meaning from stdin: ".toList ++ FileError.notText.message
  | alreadyInitialized path =>
    path ++ " already exists\nHint: use --force to overwrite it".toList

/-- What a command knows besides its arguments. -/
structure Context where
  /-- What surrounds the command line. -/
  around : Surroundings
  /-- Whether output is JSON. -/
  json : Bool
  /-- Whether only the essential is printed. -/
  quiet : Bool
  /-- Whether output is colored. -/
  color : Bool
  /-- The directory of settings. -/
  directory : Option Text
  /-- The settings. -/
  settings : Settings

/-- What a command that succeeds does. -/
structure Success where
  /-- What is written to the output. -/
  output : Text
  /-- The prompts that are written to the error output. -/
  prompts : Text := []
  /-- The files afterwards. -/
  files : FileTree

/-- What a command that fails does. -/
structure Failure where
  /-- Why it fails. -/
  error : CommandError
  /-- The prompts that are written to the error output. -/
  prompts : Text := []
  /-- Whether a prompt was met by the end of the input. -/
  inputEnded : Bool := false
  /-- The files afterwards. -/
  files : FileTree

namespace Context

/-- The verbs that settings add to the standard ones. -/
def verbs (c : Context) : VerbLexicon :=
  VerbLexicon.standard.extend c.settings.extraSuffixes c.settings.extraForms

/-- A success that changes no file. -/
def succeed (c : Context) (output : Text) : Except Failure Success :=
  .ok { output, files := c.around.files }

/-- A failure that changes no file. -/
def fail (c : Context) (e : CommandError) : Except Failure Success :=
  .error { error := e, files := c.around.files }

/-! ### The commands -/

/-- Formalizes a sentence. -/
def parse (c : Context) (sentence : List Text) : Except Failure Success :=
  match formalize (Text.unwords sentence) with
  | .error e => c.fail (.sentence e)
  | .ok t =>
    c.succeed (if c.json then Report.json (Report.formalizationJson t)
      else Report.formalization c.color c.quiet t)

/-- Formalizes a sentence and renders its formula. -/
def roundtrip (c : Context) (sentence : List Text) : Except Failure Success :=
  let input := Text.unwords sentence
  match formalize input with
  | .error e => c.fail (.sentence e)
  | .ok t =>
    match (render c.verbs.isVerb t.formula.display (.ofTable t.legend.get?) ()).1 with
    | .error e => c.fail (.sentence e)
    | .ok r =>
      c.succeed (if c.json then Report.json (Report.roundtripJson input.trim t r.sentence)
        else Report.roundtrip c.color c.quiet t r.sentence)

/-- The meanings that are known before any prompt. -/
def knownMeanings (c : Context) (r : RenderRequest) : Except CommandError Meanings :=
  match c.settings.meaningTable with
  | .error e => .error (.settings e)
  | .ok configured =>
    match r.file with
    | none => .ok (configured ++ r.meanings)
    | some path =>
      match loadMeanings c.around.files c.around.cwd path with
      | .error e => .error (.meanings e)
      | .ok filed => .ok (configured ++ filed ++ r.meanings)

/-- Renders a formula. -/
def render (c : Context) (r : RenderRequest) : Except Failure Success :=
  let formula := Text.unwords r.formula
  match c.knownMeanings r with
  | .error e => c.fail e
  | .ok known =>
    let ask := MeaningSource.interactive known r.noPrompt
    match Sentential.render c.verbs.isVerb formula ask { unread := c.around.input } with
    | (answer, d) =>
      let files := c.around.files
      if d.broken then .error { error := .input, prompts := d.prompts, files }
      else
        match answer with
        | .error e =>
          .error { error := .sentence e, prompts := d.prompts, inputEnded := d.ended, files }
        | .ok rendering =>
          let output :=
            if c.json then Report.json (Report.renderingJson formula rendering)
            else Report.line rendering.sentence
          .ok { output, prompts := d.prompts, files }

/-- Lists the connectives. -/
def symbols (c : Context) : Except Failure Success :=
  c.succeed (if c.json then Report.json Report.connectivesJson
    else Report.connectives c.color c.quiet)

/-- Shows the settings. -/
def configShow (c : Context) : Except Failure Success :=
  let path := c.directory.map fun d => Path.join d Settings.fileName
  if c.json then c.succeed (Report.json (Report.settingsJson path c.settings))
  else
    let heading :=
      if c.quiet then []
      else
        match path with
        | some p => Report.line ("# ".toList ++ p)
        | none => Report.line "# no .cpc directory found, showing defaults".toList
    c.succeed (heading ++ c.settings.document)

/-- Writes the default settings for the working directory. -/
def configInit (c : Context) (force : Bool) : Except Failure Success :=
  match Settings.ensureDirectory c.around.files (Path.ofParts c.around.cwd) with
  | (.error e, files) => .error { error := .settings e, files }
  | (.ok directory, files) =>
    let path := Path.join directory Settings.fileName
    if files.contains [] path && !force then .error { error := .alreadyInitialized path, files }
    else
      match Settings.save files directory {} with
      | (.error e, files) => .error { error := .settings e, files }
      | (.ok (), files) =>
        let output :=
          if c.json then Report.json (Report.object [("created", .text path)])
          else if c.quiet then []
          else Report.line ("Created ".toList ++ path)
        .ok { output, files }

/-- The version of the program. -/
def versionNumber : Text :=
  "0.1.0".toList

/-- Prints the version and the platform. -/
def version (c : Context) : Except Failure Success :=
  let build := "dev".toList
  c.succeed (if c.json then
      Report.json (Report.object [("arch", .text c.around.architecture), ("build", .text build),
        ("os", .text c.around.system), ("version", .text versionNumber)])
    else
      Report.line ("cpc version ".toList ++ versionNumber ++ " (".toList ++ build ++ ") ".toList ++
        c.around.system ++ "/".toList ++ c.around.architecture))

/-- Runs a command. -/
def run (c : Context) : Command → Except Failure Success
  | .parse sentence => c.parse sentence
  | .render request => c.render request
  | .roundtrip sentence => c.roundtrip sentence
  | .symbols => c.symbols
  | .configShow => c.configShow
  | .configInit force => c.configInit force
  | .completion shell => c.succeed (Usage.completion shell)
  | .version => c.version
  | .overview => c.succeed (Report.line (Usage.overview [Request.programName]))

end Context

/-! ### Command lines -/

/-- The choice of colors that the flag and the settings force. -/
def forcedColor (noColor : Bool) (mode : ColorMode) : Option Bool :=
  if noColor then some false
  else
    match mode with
    | .auto => none
    | .always => some true
    | .never => some false

/-- The context of a command, or why there is none. -/
def Context.ofFlags (w : Surroundings) (flags : GlobalFlags) : Except CommandError Context :=
  let directory := Settings.findDirectory? w.files w.cwd w.env (Path.ofParts w.cwd)
  match Settings.loadOrDefault w.files w.cwd directory w.env with
  | .error e => .error (.unloadable directory e)
  | .ok s =>
    .ok ⟨w, flags.json || s.json, flags.quiet,
      Style.isOn (forcedColor flags.noColor s.color) w.env w.terminal, directory, s⟩

/-- How an error is written. -/
def errorReport (json color : Bool) (e : CommandError) : Text :=
  if json then Report.json (Report.object [("error", .text e.message)])
  else Report.line (Style.failure color e.message)

/-- Runs a command with its global flags. -/
def runCommand (w : Surroundings) (flags : GlobalFlags) (command : Command) : Outcome :=
  match Context.ofFlags w flags with
  | .error e =>
    let color := Style.isOn none w.env w.terminal
    { code := 1, error := errorReport flags.json color e, files := w.files }
  | .ok c =>
    match c.run command with
    | .ok s => { code := 0, output := s.output, prompts := s.prompts, files := s.files }
    | .error f =>
      { code := 1, prompts := f.prompts, error := errorReport flags.json c.color f.error,
        inputEnded := f.inputEnded, files := f.files }

/-- Runs a command line. -/
def runLine (w : Surroundings) (args : List Text) : Outcome :=
  match Request.ofArguments args with
  | .run flags command => runCommand w flags command
  | .help names => { code := 0, output := Usage.overview names, files := w.files }
  | .version names =>
    { code := 0, files := w.files,
      output := Report.line (Text.join ['-'] names ++ ' ' :: Context.versionNumber) }
  | .misuse =>
    { code := 2, error := Report.line "error: the arguments are not understood".toList,
      files := w.files }

end Sentential
