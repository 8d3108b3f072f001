import ScriptEngine.Engine
import ScriptEngine.Settings
/-!
# The command line

* `Invocation.ofArguments?` : what the arguments ask for. Options may stand before and behind the
  command.
* `runFile`, `checkFile` : the two ways to treat a file (`run_file`, `check_file`).
* `Session.answer` : one line of an interactive session (`run_repl`).
* `Invocation.perform` : everything that is printed, and the exit code.

Files and what is typed are given as texts. Editing and recalling lines at a terminal, and what is
logged, are out of scope.
-/

namespace ScriptEngine.CommandLine

/-- What is done with the engine. -/
inductive Action
  /-- Executes a file. -/
  | run (file : String)
  /-- Reports what is wrong with a file. -/
  | check (file : String)
  /-- Executes one line after another. -/
  | interact
  /-- Prints the version. -/
  | version
  /-- Prints how the program is used. -/
  | help
  deriving DecidableEq, Repr

/-- An action and the file of settings for it. -/
structure Invocation where
  config : Option String
  verbose : Bool
  action : Action
  deriving DecidableEq, Repr

/-! ### Arguments -/

/-- Arguments read so far: what the options ask for, the options given since the last command, and
the words that are not options. -/
structure Arguments where
  config : Option String
  verbose : Bool
  asks : Option Action
  given : List String
  words : List String

/-- No arguments. -/
def Arguments.empty : Arguments := ⟨none, false, none, [], []⟩

/-- Notes that an option is given, which none may be twice for one command. -/
def Arguments.note (name : String) (a : Arguments) : Option Arguments :=
  if a.given.contains name then none else some { a with given := name :: a.given }

/-- Sets the file of settings, which needs a name. -/
def Arguments.setConfig (file : String) (a : Arguments) : Option Arguments :=
  if file.isEmpty then none
  else (a.note "config").map fun a => { a with config := some file }

/-- Asks for debugging output. -/
def Arguments.setVerbose (a : Arguments) : Option Arguments :=
  (a.note "verbose").map fun a => { a with verbose := true }

/-- Asks for the version, which has to come before any command. -/
def Arguments.askVersion (a : Arguments) : Option Arguments :=
  if a.words.isEmpty then some { a with asks := some .version } else none

/-- Asks how the program is used. -/
def Arguments.askHelp (a : Arguments) : Arguments := { a with asks := some .help }

/-- Adds a word. The first one is the command, and options may be given again after it. -/
def Arguments.addWord (word : String) (a : Arguments) : Arguments :=
  { a with words := a.words ++ [word], given := if a.words.isEmpty then [] else a.given }

/-- Whether an argument looks like an option. -/
def isOption (arg : String) : Bool := arg.startsWith "-" && arg != "-"

/-- Reads the letters of a group of short options. Of the letter that takes a value, the value is
the rest of the group or the next argument; what is left of the arguments is returned. -/
def readLetters (a : Arguments) (rest : List String) : List Char → Option (Arguments × List String)
  | [] => some (a, rest)
  | 'v' :: letters => do readLetters (← a.setVerbose) rest letters
  | 'h' :: _ => some (a.askHelp, rest)
  | 'V' :: _ => a.askVersion.map (·, rest)
  | 'c' :: '=' :: value => (a.setConfig (String.ofList value)).map (·, rest)
  | ['c'] =>
    match rest with
    | value :: rest => if isOption value then none else (a.setConfig value).map (·, rest)
    | [] => none
  | 'c' :: value => (a.setConfig (String.ofList value)).map (·, rest)
  | _ => none

/-- Reads one option and what it takes of the arguments after it. -/
def readOption (a : Arguments) (arg : String) (rest : List String) :
    Option (Arguments × List String) :=
  match arg.toList with
  | '-' :: '-' :: name =>
    match String.ofList name with
    | "verbose" => a.setVerbose.map (·, rest)
    | "help" => some (a.askHelp, rest)
    | "version" => a.askVersion.map (·, rest)
    | "config" =>
      match rest with
      | value :: rest => if isOption value then none else (a.setConfig value).map (·, rest)
      | [] => none
    | _ =>
      if "config=".toList.isPrefixOf name then
        (a.setConfig (String.ofList (name.drop 7))).map (·, rest)
      else none
  | '-' :: letters => readLetters a rest letters
  | _ => none

/-- Reads no more than `limit` arguments, up to a question. What follows two hyphens is neither a
command nor an option. -/
def readArguments : (limit : Nat) → Arguments → List String → Option Arguments
  | 0, a, _ => some a
  | _ + 1, a, [] => some a
  | limit + 1, a, arg :: rest => do
    if arg == "--" then
      if a.words.isEmpty && !rest.isEmpty then none
      else return { a with words := a.words ++ rest }
    else if isOption arg then
      let (a, rest) ← readOption a arg rest
      if a.asks.isSome then return a else readArguments limit a rest
    else readArguments limit (a.addWord arg) rest

/-- What words ask for that are not options. -/
def actionOf? : List String → Option Action
  | [] => some .interact
  | ["repl"] => some .interact
  | ["run", file] => if file.isEmpty then none else some (.run file)
  | ["check", file] => if file.isEmpty then none else some (.check file)
  | "help" :: _ => some .help
  | _ => none

/-- What the arguments ask for, if they make sense. -/
def Invocation.ofArguments? (args : List String) : Option Invocation := do
  let a ← readArguments args.length .empty args
  let action ← a.asks.or (actionOf? a.words)
  return ⟨a.config, a.verbose, action⟩

/-! ### Printing -/

/-- A line on one of the two streams. -/
inductive Printed
  | out (line : String)
  | err (line : String)
  deriving DecidableEq, Repr

/-- What is printed, and the exit code. -/
structure Report where
  printed : List Printed
  code : Nat

/-- What was printed on the first stream. -/
def stdout (lines : List Printed) : String :=
  String.join (lines.map fun
    | .out line => line ++ "\n"
    | .err _ => "")

/-- What was printed on the second stream. -/
def stderr (lines : List Printed) : String :=
  String.join (lines.map fun
    | .out _ => ""
    | .err line => line ++ "\n")

/-- What an engine wrote, as far as its settings let it through. -/
def echoed (settings : Settings) (output : List Output) : List Printed :=
  if !settings.echoPrint then [] else
    output.filterMap fun
      | .print line => some (.out line)
      | .error line => some (.err line)
      | .failedJob .. => none

/-! ### Files -/

/-- The version of the engine. -/
def version : String := "0.2.0"

/-- What the engine is. -/
def slogan : String := "An embeddable scripting language"

/-- A new engine for the given time of day. -/
def newEngine (settings : Settings) (clock : Float) : World :=
  Engine.create settings clock (UInt64.ofNat (Number.toWord clock))

/-- Executes a source text. The exit code says whether it ended with an error. -/
def runFile (settings : Settings) (clock : Float) (source : String) : Report :=
  match Engine.execute source (newEngine settings clock) with
  | .ok _ w => ⟨echoed settings w.output.toList, 0⟩
  | .error f w => ⟨echoed settings w.output.toList ++ [.err f.render], 1⟩
  | .stopped _ => ⟨[], 1⟩

/-- Reports everything that is wrong with a source text. -/
def checkFile (file source : String) : Report :=
  match Engine.check source with
  | [] => ⟨[.out ("ok " ++ file)], 0⟩
  | faults =>
    ⟨faults.map (fun f => .err f.render) ++
      [.err ("error: " ++ toString faults.length ++ " error(s) in " ++ file)], 1⟩

/-! ### Interactive sessions -/

/-- An interactive session. -/
structure Session where
  settings : Settings
  clock : Float
  world : World

/-- The beginning of a session. -/
def Session.start (settings : Settings) (clock : Float) : Session :=
  ⟨settings, clock, newEngine settings clock⟩

/-- The words that a session understands, and a few examples. -/
def sessionHelp : List Printed := [
  .out "REPL Commands:",
  .out "  exit, quit   Exit the REPL",
  .out "  clear        Forget every global definition",
  .out "  help         Show this help",
  .out "",
  .out "Language Examples:",
  .out "  var x = 10",
  .out "  val limit = 3",
  .out "  fun double(n) \x7b return n * 2 \x7d",
  .out "  print(f\"x is \x7bx\x7d\")"]

/-- The greeting of a session. -/
def greeting : List Printed := [
  .out ("Kestrel " ++ version ++ " - " ++ slogan),
  .out "Type exit to exit, help for help",
  .out ""]

/-- The end of a session. -/
def farewell : List Printed := [.out "Goodbye!"]

/-- Executes a line and prints its value unless it is null. -/
def Session.execute (s : Session) (line : String) : List Printed × Session :=
  match Engine.execute line s.world with
  | .ok v w =>
    let (output, w) := Engine.takeOutput w
    let shown : List Printed := if v == .null then [] else [.out ("=> " ++ w.heap.repr v)]
    (echoed s.settings output ++ shown, { s with world := w })
  | .error f w =>
    let (output, w) := Engine.takeOutput w
    (echoed s.settings output ++ [.err f.render], { s with world := w })
  | .stopped _ => ([], s)

/-- Answers one line; without a session after it, the session is over. -/
def Session.answer (s : Session) (line : String) : List Printed × Option Session :=
  let line := Text.trim line
  if line.isEmpty then ([], some s)
  else if line == "exit" || line == "quit" then (farewell, none)
  else if line == "help" then (sessionHelp, some s)
  else if line == "clear" then
    ([.out "Globals cleared."], some (Session.start s.settings s.clock))
  else
    let (printed, s) := s.execute line
    (printed, some s)

/-- Answers lines until the session is over. -/
def Session.answerAll (s : Session) : List String → List Printed
  | [] => farewell
  | line :: lines =>
    match s.answer line with
    | (printed, none) => printed
    | (printed, some s) => printed ++ s.answerAll lines

/-! ### Everything -/

/-- How the program is used. -/
def usage : List Printed := [
  .out slogan,
  .out "",
  .out "Usage: kestrel [OPTIONS] [COMMAND]",
  .out "",
  .out "Commands:",
  .out "  run    Execute a Kestrel file",
  .out "  check  Lex and parse a file, reporting every syntax error",
  .out "  repl   Start the interactive REPL",
  .out "",
  .out "Options:",
  .out "  -v, --verbose        Log at debug level",
  .out "  -c, --config <FILE>  Engine settings in TOML",
  .out "  -h, --help           Print help",
  .out "  -V, --version        Print version"]

/-- The text of a file, or the report that it cannot be read. -/
def textOf (read : String → Except String String) (file : String) : Except Report String :=
  match read file with
  | .ok text => .ok text
  | .error reason =>
    .error ⟨[.err ("error: cannot read file " ++ quoted file ++ ": " ++ reason)], 1⟩

namespace Invocation

/-- The files an invocation reads, in order. -/
def files (i : Invocation) : List String :=
  i.config.toList ++ match i.action with
    | .run file | .check file => [file]
    | _ => []

/-- The settings of an invocation, or the report that there are none. -/
def settings (i : Invocation) (read : String → Except String String) : Except Report Settings :=
  match i.config with
  | none => .ok .default
  | some file => do
    match Settings.ofText (← textOf read file) with
    | .ok settings => return settings
    | .error f => throw ⟨[.err ("error: " ++ f.render)], 1⟩

/-- What an invocation reports, or the report of what keeps it from it. -/
def attempt (i : Invocation) (read : String → Except String String) (clock : Float)
    (typed : String) : Except Report Report :=
  match i.action with
  | .version => .ok ⟨[.out ("kestrel " ++ version)], 0⟩
  | .help => .ok ⟨usage, 0⟩
  | .run file => do
    let settings ← i.settings read
    return runFile settings clock (← textOf read file)
  | .check file => do
    let _ ← i.settings read
    return checkFile file (← textOf read file)
  | .interact => do
    let s := Session.start (← i.settings read) clock
    return ⟨greeting ++ s.answerAll (Text.lines typed), 0⟩

/-- Everything that an invocation prints and its exit code, given the texts of files, the time of
day and what is typed. -/
def perform (i : Invocation) (read : String → Except String String) (clock : Float)
    (typed : String) : Report :=
  match i.attempt read clock typed with
  | .ok report | .error report => report

end Invocation

/-- The report that the arguments make no sense. -/
def misuse : Report :=
  ⟨[.err "error: invalid arguments", .err "", .err "Usage: kestrel [OPTIONS] [COMMAND]"], 2⟩

/-- Everything that the program prints and its exit code. -/
def perform (args : List String) (read : String → Except String String) (clock : Float)
    (typed : String) : Report :=
  match Invocation.ofArguments? args with
  | some i => i.perform read clock typed
  | none => misuse

end ScriptEngine.CommandLine
