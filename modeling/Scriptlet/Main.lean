import Scriptlet.CommandLine
import Scriptlet.Numeric.Power
import Scriptlet.Tool
import Std.Time.DateTime.Timestamp

/-
  The program.

  The command line is read, standard input or a file if the command needs one, and the outcome is
  printed. Where the server would listen to the network, what it would listen to is printed instead.
-/

namespace Scriptlet

namespace Program

/-- The variables that the program looks at. -/
def variableNames : List Text :=
  (Limits.names.map fun name => Limits.variableStart ++ name.toUpper) ++
    Server.Settings.names.map Text.toUpper ++
    [Telemetry.serviceVariable, Telemetry.endpointVariable, Telemetry.switchVariable,
     Telemetry.levelVariable]

/-- The variables that are set. -/
def environ : IO Environ := do
  let entries ← variableNames.mapM fun name => do
    let value ← IO.getEnv name.toString
    return value.map fun text => (name, Text.ofString text)
  return entries.filterMap id

/-- The moment that the clock of the machine shows. -/
def clock : IO Moment := do
  let now ← Std.Time.Timestamp.now
  return ⟨now.toNanosecondsSinceUnixEpoch.val.toNat / 1000⟩

/-- What is left of a stream, behind what has been read. -/
partial def readAll (stream : IO.FS.Stream) (done : String) : IO String := do
  let line ← stream.getLine
  if line.isEmpty then return done else readAll stream (done ++ line)

/-- The text of a file, if it can be read. -/
def readFile (path : Text) : IO (Option Text) := do
  try
    let text ← IO.FS.readFile path.toString
    return some (Text.ofString text)
  catch _ => return none

/-- What a command reads from the machine. -/
def surroundings (args : List Text) : IO CommandLine.Surroundings := do
  let (input, file) ← match CommandLine.command args with
    | some (.run none) => do pure (← readAll (← IO.getStdin) "", none)
    | some (.run (some path)) => do
      if path == "-" then pure (← readAll (← IO.getStdin) "", none)
      else pure ("", ← readFile path)
    | _ => pure ("", none)
  let seed ← IO.rand 0 (twoTo 62)
  return ⟨← environ, ← clock, seed, input, fun _ => file, none⟩

/-- A line that tells what a server would listen to. -/
def listeningText (l : Server.Listening) : Text :=
  "Serving " ++ Text.join " " l.routes ++ " on " ++ l.host ++ ":" ++ Text.ofInt l.port

/-- The report of what ended a program from outside. -/
def escapeText (escape : CommandLine.Escape) : Text :=
  match escape with
  | .fault fault => (Tool.exceptionOf fault).text
  | .issues issues =>
    Text.join "\n" (issues.map fun issue => issue.setting ++ ": " ++ (issue.problem.label : Text))
  | .network text => text

/-- Prints how a program has ended. -/
def report (outcome : CommandLine.Outcome) : IO UInt32 := do
  for listening in outcome.served do
    IO.println (listeningText listening).toString
  IO.print outcome.output.toString
  IO.eprint outcome.errors.toString
  if outcome.isMisuse then IO.eprintln CommandLine.usage.toString
  match outcome.escape with
  | some escape => IO.eprintln (escapeText escape).toString
  | none => pure ()
  return UInt32.ofNat (outcome.exitCode % 256).toNat

end Program

end Scriptlet

open Scriptlet in
def main (args : List String) : IO UInt32 := do
  let args := args.map Text.ofString
  Program.report (CommandLine.run (← Program.surroundings args) args)
