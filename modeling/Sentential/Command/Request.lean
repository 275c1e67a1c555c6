import Sentential.Settings.Basic

/-!
# Requests

What a command line asks for.  Flags and options belong to the command before which or behind which
they stand; the global flags are accepted everywhere, but only once for each command on the line.
The word `--` ends flags and options, so that what follows are words of the sentence or formula.

A line that is malformed is a misuse.  A request for help or for the version takes effect where it
stands: nothing behind it is looked at.
-/

namespace Sentential

/-- The flags that every command accepts. -/
structure GlobalFlags where
  /-- Output is JSON. -/
  json : Bool := false
  /-- Details of the work are logged. -/
  verbose : Bool := false
  /-- Only the essential output is printed. -/
  quiet : Bool := false
  /-- Output is not colored. -/
  noColor : Bool := false
deriving DecidableEq, Inhabited

/-- A shell for which completions are printed. -/
inductive Shell where
  | bash
  | zsh
  | fish
  | powershell
deriving DecidableEq

/-- What `render` is asked for. -/
structure RenderRequest where
  /-- The words of the formula. -/
  formula : List Text
  /-- Meanings given on the line, in order. -/
  meanings : Meanings := []
  /-- A file with meanings. -/
  file : Option Text := none
  /-- Whether missing meanings are not asked for. -/
  noPrompt : Bool := false
deriving DecidableEq

/-- A command with its arguments. -/
inductive Command where
  /-- Formalizes a sentence. -/
  | parse (sentence : List Text)
  /-- Renders a formula. -/
  | render (request : RenderRequest)
  /-- Formalizes a sentence and renders its formula. -/
  | roundtrip (sentence : List Text)
  /-- Lists the connectives. -/
  | symbols
  /-- Shows the settings. -/
  | configShow
  /-- Writes the default settings. -/
  | configInit (force : Bool)
  /-- Prints completions for a shell. -/
  | completion (shell : Shell)
  /-- Prints the version and the platform. -/
  | version
  /-- Prints an overview, as no command is given. -/
  | overview
deriving DecidableEq

/-- What a command line asks for. -/
inductive Request where
  /-- A command is run. -/
  | run (flags : GlobalFlags) (command : Command)
  /-- Help is shown for the command with the given names. -/
  | help (names : List Text)
  /-- The version is shown, under the given names. -/
  | version (names : List Text)
  /-- The line is malformed. -/
  | misuse
deriving DecidableEq

namespace Request

/-! ### Arguments of one command -/

/-- Flags. -/
inductive Flag where
  | json
  | verbose
  | quiet
  | noColor
  | noPrompt
  | force
deriving DecidableEq

/-- Options that take a value. -/
inductive Opt where
  | meaning
  | meanings
deriving DecidableEq

/-- What a name that begins with a dash stands for. -/
inductive Switch where
  /-- A flag. -/
  | flag (f : Flag)
  /-- An option with a value. -/
  | option (o : Opt)
  /-- Help is asked for. -/
  | help
  /-- The version is asked for. -/
  | version
deriving DecidableEq

/-- What a command accepts besides the global flags. -/
structure Accepts where
  /-- Whether words are accepted; then at least one is required. -/
  words : Bool := false
  /-- The switches with long names. -/
  long : List (Text × Switch) := []
  /-- The switches with names of one letter. -/
  short : List (Char × Switch) := []

/-- The long names that every command accepts. -/
def globalLong : List (Text × Switch) :=
  [("json".toList, .flag .json), ("verbose".toList, .flag .verbose),
    ("quiet".toList, .flag .quiet), ("no-color".toList, .flag .noColor), ("help".toList, .help),
    ("version".toList, .version)]

/-- The letters that every command accepts. -/
def globalShort : List (Char × Switch) :=
  [('v', .flag .verbose), ('q', .flag .quiet), ('h', .help), ('V', .version)]

/-- The switch with a long name. -/
def Accepts.long? (a : Accepts) (name : Text) : Option Switch :=
  entryAt? name (globalLong ++ a.long)

/-- The switch with a name of one letter. -/
def Accepts.short? (a : Accepts) (letter : Char) : Option Switch :=
  ((globalShort ++ a.short).find? fun e => e.1 = letter).map (·.2)

/-- What has been read of the arguments of a command. -/
structure Arguments where
  /-- The flags, the last one first. -/
  flags : List Flag := []
  /-- The meanings, in order. -/
  meanings : Meanings := []
  /-- The file with meanings. -/
  file : Option Text := none
  /-- The words, in order. -/
  words : List Text := []

/-- Why reading arguments ends early. -/
inductive Halt where
  /-- Help is asked for. -/
  | help
  /-- The version is asked for. -/
  | version
  /-- The arguments are malformed. -/
  | misuse

/-- Reads the value of a meaning: a variable, the sign `=` and a clause that is not blank. -/
def readMeaningOption (value : Text) : Option (Variable × Text) :=
  match value.dropWhile (· ≠ '=') with
  | [] => none
  | _ :: clause => (readMeaning (value.takeWhile (· ≠ '=')) clause).toOption

/-- Notes a flag, which may be given once. -/
def Arguments.addFlag (args : Arguments) (f : Flag) : Except Halt Arguments :=
  if f ∈ args.flags then .error .misuse else .ok { args with flags := f :: args.flags }

/-- Notes an option with its value. -/
def Arguments.addOption (args : Arguments) (o : Opt) (value : Text) : Except Halt Arguments :=
  match o with
  | .meaning =>
    match readMeaningOption value with
    | some e => .ok { args with meanings := args.meanings ++ [e] }
    | none => .error .misuse
  | .meanings =>
    if value.isEmpty || args.file.isSome then .error .misuse
    else .ok { args with file := some value }

/-- Reads the letters behind a single dash.  An option takes the rest as its value, without a
leading `=`; if nothing is left, it waits for the next argument. -/
def readLetters (a : Accepts) (args : Arguments) : Text → Except Halt (Arguments × Option Opt)
  | [] => .ok (args, none)
  | letter :: rest =>
    match a.short? letter with
    | some (.flag f) =>
      match args.addFlag f with
      | .ok args => readLetters a args rest
      | .error e => .error e
    | some (.option o) =>
      match rest with
      | [] => .ok (args, some o)
      | c :: value =>
        (args.addOption o (if c = '=' then value else rest)).map fun args => (args, none)
    | some .help => .error .help
    | some .version => .error .version
    | none => .error .misuse

/-- Reads a name behind two dashes, with the value that may be attached to it. -/
def readName (a : Accepts) (args : Arguments) (t : Text) : Except Halt (Arguments × Option Opt) :=
  let name := t.takeWhile (· ≠ '=')
  let value : Option Text :=
    match t.drop name.length with
    | [] => none
    | _ :: value => some value
  match a.long? name, value with
  | some (.flag f), none => (args.addFlag f).map fun args => (args, none)
  | some (.option o), none => .ok (args, some o)
  | some (.option o), some value => (args.addOption o value).map fun args => (args, none)
  | some .help, none => .error .help
  | some .version, none => .error .version
  | _, _ => .error .misuse

/-- Reads a switch, whose first dash has been dropped. -/
def readSwitch (a : Accepts) (args : Arguments) : Text → Except Halt (Arguments × Option Opt)
  | '-' :: name => readName a args name
  | letters => readLetters a args letters

/-- Whether an argument is a switch. -/
def isSwitch : Text → Bool
  | '-' :: _ :: _ => true
  | _ => false

/-- Adds words, if they are accepted. -/
def Arguments.addWords (a : Accepts) (args : Arguments) (ws : List Text) : Except Halt Arguments :=
  if ws.isEmpty || a.words then .ok { args with words := args.words ++ ws } else .error .misuse

/-- Reads the arguments of a command; `waiting` is an option whose value comes next. -/
def readArguments (a : Accepts) (args : Arguments) :
    Option Opt → List Text → Except Halt Arguments
  | none, [] => .ok args
  | some _, [] => .error .misuse
  | waiting, arg :: rest =>
    if isSwitch arg then
      if waiting.isSome then .error .misuse
      else if arg = ['-', '-'] then args.addWords a rest
      else
        match readSwitch a args (arg.drop 1) with
        | .ok (args, waiting) => readArguments a args waiting rest
        | .error e => .error e
    else
      match waiting with
      | some o =>
        match args.addOption o arg with
        | .ok args => readArguments a args none rest
        | .error e => .error e
      | none =>
        match args.addWords a [arg] with
        | .ok args => readArguments a args none rest
        | .error e => .error e

/-! ### Commands -/

/-- The global flags among some flags. -/
def GlobalFlags.ofList (flags : List Flag) : GlobalFlags :=
  ⟨Flag.json ∈ flags, Flag.verbose ∈ flags, Flag.quiet ∈ flags, Flag.noColor ∈ flags⟩

/-- A command that takes no further command: its names, what it accepts, and the command that its
arguments make. -/
structure Leaf where
  /-- The names of the command, from the program on. -/
  names : List Text
  /-- What it accepts. -/
  accepts : Accepts := {}
  /-- The command that arguments make. -/
  make : Arguments → Command

/-- Reads the arguments of a command; `outer` are the flags before it. -/
def ofLeaf (leaf : Leaf) (outer : List Flag) (args : List Text) : Request :=
  match readArguments leaf.accepts {} none args with
  | .ok args =>
    if leaf.accepts.words && args.words.isEmpty then .misuse
    else .run (GlobalFlags.ofList (args.flags ++ outer)) (leaf.make args)
  | .error .help => .help leaf.names
  | .error .version => .version leaf.names
  | .error .misuse => .misuse

/-- Reads the arguments of a command that takes a further one.  Here `next` handles the name of the
further command together with the flags so far and what stands behind the name, and `bare` is the
request that no further command makes. -/
def ofGroup (names : List Text) (next : Text → List Flag → List Text → Request)
    (bare : List Flag → Request) (outer : List Flag) (args : Arguments) : List Text → Request
  | [] => bare (args.flags ++ outer)
  | arg :: rest =>
    if isSwitch arg then
      if arg = ['-', '-'] then if rest.isEmpty then bare (args.flags ++ outer) else .misuse
      else
        match readSwitch {} args (arg.drop 1) with
        | .ok (args, _) => ofGroup names next bare outer args rest
        | .error .help => .help names
        | .error .version => .version names
        | .error .misuse => .misuse
    else next arg (args.flags ++ outer) rest

/-- The name of the program. -/
def programName : Text :=
  "cpc".toList

/-- A command under the program. -/
def leaf (name : String) (accepts : Accepts) (make : Arguments → Command) : Leaf :=
  ⟨[programName, name.toList], accepts, make⟩

/-- A command under another one. -/
def subleaf (group name : String) (accepts : Accepts) (make : Arguments → Command) : Leaf :=
  ⟨[programName, group.toList, name.toList], accepts, make⟩

/-- What a command accepts that takes words only. -/
def wordsOnly : Accepts where
  words := true

/-- What `render` accepts. -/
def renderAccepts : Accepts where
  words := true
  long := [("meaning".toList, .option .meaning), ("meanings".toList, .option .meanings),
    ("no-prompt".toList, .flag .noPrompt)]
  short := [('m', .option .meaning)]

/-- What `config init` accepts. -/
def initAccepts : Accepts where
  long := [("force".toList, .flag .force)]

/-- The commands that take no further command, under their names and other names for them. -/
def leaves : List (Text × Leaf) :=
  let parse := leaf "parse" wordsOnly fun a => .parse a.words
  let render := leaf "render" renderAccepts fun a =>
    .render ⟨a.words, a.meanings, a.file, Flag.noPrompt ∈ a.flags⟩
  [("parse".toList, parse), ("nl".toList, parse), ("render".toList, render),
    ("cpc".toList, render),
    ("roundtrip".toList, leaf "roundtrip" wordsOnly fun a => .roundtrip a.words),
    ("symbols".toList, leaf "symbols" {} fun _ => .symbols),
    ("version".toList, leaf "version" {} fun _ => .version)]

/-- The commands under `config`. -/
def configLeaves : List (Text × Leaf) :=
  [("show".toList, subleaf "config" "show" {} fun _ => .configShow),
    ("init".toList, subleaf "config" "init" initAccepts fun a =>
      .configInit (Flag.force ∈ a.flags))]

/-- The commands under `completion`. -/
def completionLeaves : List (Text × Leaf) :=
  let under (name : String) (shell : Shell) : Text × Leaf :=
    (name.toList, subleaf "completion" name {} fun _ => .completion shell)
  [under "bash" .bash, under "zsh" .zsh, under "fish" .fish, under "powershell" .powershell]

/-- The commands that take a further command. -/
def groups : List (Text × List (Text × Leaf)) :=
  [("config".toList, configLeaves), ("completion".toList, completionLeaves)]

/-- The command that shows help for the commands named behind it. -/
def helpName : Text :=
  "help".toList

/-- Reads the names behind `help` among the commands of a group; there may be one. -/
def ofHelpIn (names : List Text) (commands : List (Text × Leaf)) : List Text → Request
  | [] => .help names
  | [name] =>
    if name = helpName then .help (names ++ [helpName])
    else
      match entryAt? name commands with
      | some leaf => .help leaf.names
      | none => .misuse
  | _ => .misuse

/-- Reads the names behind `help`. -/
def ofHelp : List Text → Request
  | [] => .help [programName]
  | name :: rest =>
    match entryAt? name groups with
    | some commands => ofHelpIn [programName, name] commands rest
    | none => if rest.isEmpty then ofHelpIn [programName] leaves [name] else .misuse

/-- Reads what stands behind the name of a group. -/
def ofGroupName (name : Text) (commands : List (Text × Leaf)) (outer : List Flag)
    (args : List Text) : Request :=
  ofGroup [programName, name]
    (fun sub flags rest =>
      if sub = helpName then ofHelpIn [programName, name] commands rest
      else
        match entryAt? sub commands with
        | some leaf => ofLeaf leaf flags rest
        | none => .misuse)
    (fun _ => .misuse) outer {} args

/-- Reads a command line. -/
def ofArguments (args : List Text) : Request :=
  ofGroup [programName]
    (fun name flags rest =>
      if name = helpName then ofHelp rest
      else
        match entryAt? name leaves with
        | some leaf => ofLeaf leaf flags rest
        | none =>
          match entryAt? name groups with
          | some commands => ofGroupName name commands flags rest
          | none => .misuse)
    (fun flags => .run (GlobalFlags.ofList flags) .overview) [] {} args

end Request

end Sentential
