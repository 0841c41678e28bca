import Scriptlet.Limits.Reading
import Scriptlet.Server
import Scriptlet.Session
import Scriptlet.Text.LineBreak

/-
  The command line.

  One command runs a script, from a file or from standard input, and one starts the server. Options
  begin with a hyphen and take the value behind an equals sign or the next argument; what follows two
  hyphens alone is no option. What goes wrong on the command line itself ends the program with the
  exit code two, and so does a file that cannot be read.
-/

namespace Scriptlet

namespace CommandLine

/-! ## Arguments -/

/-- The options of the commands. -/
inductive OptionName where
  | help
  | host
  | port
  | logLevel
  deriving DecidableEq

/-- Whether an option takes a value. -/
def OptionName.takesValue : OptionName → Bool
  | .help => false
  | _ => true

/-- Options by the names that begin with two hyphens. -/
abbrev LongNames := List (Text × OptionName)

/-- Options by the letters behind one hyphen. -/
abbrev Letters := List (CodePoint × OptionName)

/-- The options of the command that starts the server. -/
def serveNames : LongNames :=
  [("--help", .help), ("--host", .host), ("--port", .port), ("--log-level", .logLevel)]

def serveLetters : Letters := [(CodePoint.ofChar 'p', .port)]

/-- The options of the other commands. -/
def plainNames : LongNames := [("--help", .help)]

/-- What a command is given: options with their values, and other arguments. -/
structure Given where
  options : List (OptionName × Text)
  others : List Text

/-- What is given, with one more option in front. -/
def Given.withOption (name : OptionName) (value : Text) (given : Given) : Given :=
  { given with options := (name, value) :: given.options }

/-- The value of an option, the last one if there are several. -/
def Given.value? (given : Given) (name : OptionName) : Option Text :=
  (given.options.reverse.find? (·.1 == name)).map (·.2)

/-- The name of an option and the value behind an equals sign. -/
def splitOption (arg : Text) : Text × Option Text :=
  let name := arg.takeWhile fun c => c.val != 61
  match arg.drop name.length with
  | [] => (name, none)
  | _ :: value => (name, some value)

/-- Whether an argument is an option. -/
def isOption (arg : Text) : Bool := arg.length > 1 && arg.head? == some (CodePoint.ofChar '-')

/-- The option that an argument is, with the value that the argument holds. -/
def option? (names : LongNames) (letters : Letters) (arg : Text) :
    Option (OptionName × Option Text) :=
  let (name, value) := splitOption arg
  match names.lookup name with
  | some option => some (option, value)
  | none =>
    match arg.drop 1 with
    | [] => none
    | letter :: rest =>
      (letters.lookup letter).map fun option => (option, if rest.isEmpty then none else some rest)

/-- What the arguments of a command give it; `mixed` tells whether options may follow other arguments.
There is none if an option does not exist or does not have the value that it takes. -/
def read (names : LongNames) (letters : Letters) (mixed : Bool) : List Text → Option Given
  | [] => some ⟨[], []⟩
  | arg :: rest =>
    if arg == "--" then some ⟨[], rest⟩
    else if isOption arg then
      match option? names letters arg, rest with
      | none, _ => none
      | some (option, some value), rest =>
        if option.takesValue then (read names letters mixed rest).map (Given.withOption option value)
        else none
      | some (option, none), rest =>
        if !option.takesValue then (read names letters mixed rest).map (Given.withOption option [])
        else
          match rest with
          | [] => none
          | value :: rest => (read names letters mixed rest).map (Given.withOption option value)
    else if mixed then
      (read names letters mixed rest).map fun given => { given with others := arg :: given.others }
    else some ⟨[], arg :: rest⟩

/-- A command. -/
inductive Command where
  | help
  | run (file : Option Text)
  /-- Starts the server with some settings given. -/
  | serve (settings : List (Text × Json))

/-- The command that runs a script. -/
def runCommand (args : List Text) : Option Command := do
  let given ← read plainNames [] true args
  if (given.value? .help).isSome then return .help
  match given.others with
  | [] => return .run none
  | [file] => return .run (some file)
  | _ => none

/-- The command that starts the server. -/
def serveCommand (args : List Text) : Option Command := do
  let given ← read serveNames serveLetters true args
  if (given.value? .help).isSome then return .help
  if !given.others.isEmpty then none
  let host := (given.value? .host).map fun t => (("mcp_host" : Text), Json.text t)
  let port ← match given.value? .port with
    | none => some none
    | some t => (NumberText.readInt? t.trim).map fun n => some (("mcp_port" : Text), Json.int n)
  let level := (given.value? .logLevel).map fun t => (("mcp_log_level" : Text), Json.text t)
  return .serve ([host, port, level].filterMap id)

/-- The command that the arguments of the program are. -/
def command (args : List Text) : Option Command := do
  let given ← read plainNames [] false args
  if (given.value? .help).isSome then return .help
  match given.others with
  | [] => none
  | name :: rest =>
    if name == "run" then runCommand rest
    else if name == "serve" then serveCommand rest
    else none

/-! ## Running -/

/-- What a program is run in. -/
structure Surroundings where
  environ : Environ
  clock : Moment
  seed : Nat
  /-- The text of standard input. -/
  input : Text
  /-- The text of a file that can be read. -/
  file? : Text → Option Text
  /-- Why listening to the network fails, if it does. -/
  networkFailure : Option Text

/-- What ends a program besides its exit code. -/
inductive Escape where
  | fault (f : Fault)
  | issues (issues : List Issue)
  | network (text : Text)

/-- How a program has ended. -/
structure Outcome where
  exitCode : Int
  output : Text
  errors : Text
  served : List Server.Listening
  escape : Option Escape
  /-- Whether the command line itself was wrong. -/
  isMisuse : Bool

namespace Outcome

def ok (output : Text) : Outcome := ⟨0, output ++ "\n", [], [], none, false⟩

/-- A program that ends with a report. -/
def failed (exitCode : Int) (report : Text) : Outcome := ⟨exitCode, [], report ++ "\n", [], none, false⟩

/-- A program that something ends from outside. -/
def escaped (served : List Server.Listening) (escape : Escape) : Outcome :=
  ⟨1, [], [], served, some escape, false⟩

def misuse : Outcome := ⟨2, [], [], [], none, true⟩

end Outcome

/-- How the program is used. -/
def usage : Text :=
  "Usage: minipy COMMAND [ARGS]...\n\n" ++
  "  run [FILE]  Run a script and print its output.\n" ++
  "  serve [--host TEXT] [--port INTEGER] [--log-level TEXT]\n" ++
  "              Start the server of the tools."

/-- Runs a script and prints its output. -/
def runScript (s : Surroundings) (source : Text) : Outcome :=
  match Limits.read [] s.environ with
  | .error issues => .escaped [] (.issues issues)
  | .ok limits =>
    match ((Session.initial limits s.clock s.seed).execute source).1 with
    | .ok output => .ok output
    | .error (.error e) =>
      match e.kind with
      | .aborted code => .failed code e.message
      | _ => .failed 1 e.message
    | .error fault => .escaped [] (.fault fault)

/-- Starts the server. -/
def serve (s : Surroundings) (given : List (Text × Json)) : Outcome :=
  match Server.Settings.read given s.environ with
  | .error issues => .escaped [] (.issues issues)
  | .ok settings =>
    match (Server.start settings s.environ none).listening with
    | .error text => .escaped [] (.fault (.of .badValue text))
    | .ok listening =>
      match s.networkFailure with
      | some text => .escaped [listening] (.network text)
      | none => ⟨0, [], [], [listening], none, false⟩

/-- Runs the program with some arguments. -/
def run (s : Surroundings) (args : List Text) : Outcome :=
  match command args with
  | none => .misuse
  | some .help => .ok usage
  | some (.run none) => runScript s s.input.unifyLineFeeds
  | some (.run (some file)) =>
    if file == "-" then runScript s s.input.unifyLineFeeds
    else
      match s.file? file with
      | some source => runScript s source.unifyLineFeeds
      | none => .misuse
  | some (.serve given) => serve s given

end CommandLine

end Scriptlet
