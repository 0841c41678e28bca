import Scriptlet.Execution

/-
  Runs of scripts.

  The engines of a run are stacked: each one is built on those with less room, and the lowest one has
  none. A session is a state together with limits; scripts, expressions and bindings can be run in it
  one after the other, and one script of its own.
-/

namespace Scriptlet

namespace Engine

/-- The engine that is built on engines with less room. -/
def step (limits : Limits) (room : Room) : Engine where
  evaluate := Evaluation.evaluate room
  evaluateNode := Evaluation.node limits room
  runLines := Execution.block limits room
  call := Call.function limits room

/-- The engine with room for so many levels, less the levels further down. -/
def tower (limits : Limits) : Nat → Nat → Engine
  | 0, _ => exhausted
  | levels + 1, 0 => step limits ⟨tower limits levels, levels⟩
  | levels + 1, further + 1 => tower limits levels further

/-- The levels of nesting that a run begins with. -/
def startLevels : Nat := 960

/-- The engine that a run begins with. -/
def start (limits : Limits) : Engine := tower limits startLevels 0

end Engine

/-- A state that is run in under limits. -/
structure Session where
  limits : Limits
  state : State
  /-- Whether the session has run its script. -/
  isUsed : Bool

namespace Session

/-- What a script without output gives. -/
def noOutput : Text := "Code executed successfully (no output)"

/-- The session at the start. -/
def initial (limits : Limits) (clock : Moment) (seed : Nat) : Session :=
  ⟨limits, .initial clock seed, false⟩

/-- The result of a step and the session after it. -/
def run {α : Type} (s : Session) (step : Run α) : Except Fault α × Session :=
  match step s.state with
  | .ok a state => (.ok a, { s with state := state })
  | .error fault state => (.error fault, { s with state := state })

/-- Executes a text in the session. -/
def runSource (s : Session) (source : Text) : Except Fault Unit × Session :=
  s.run ((Engine.start s.limits).runLines (Source.cleanLines source))

/-- The value of an expression in the session. -/
def evaluate (s : Session) (expression : Text) : Except Fault Value × Session :=
  s.run ((Engine.start s.limits).evaluate expression)

/-- Binds the value of an expression to a target. -/
def bind (s : Session) (target expression : Text) : Except Fault Unit × Session :=
  s.run do
    let v ← (Engine.start s.limits).evaluate expression
    Execution.bindTarget ⟨Engine.tower s.limits Engine.startLevels, Engine.startLevels⟩ target v false

/-- Refuses a source that is too long. -/
def requireLength (limits : Limits) (source : Text) : Except Fault Unit := do
  if source.length > limits.maxSourceLength then
    throw (.limit ("source is " ++ Text.ofNat source.length ++ " characters, the limit is " ++
      Text.ofInt limits.maxSourceLength))

/-- A fault as it leaves a whole script. -/
def leavingScript (fault : Fault) : Fault :=
  match fault with
  | .tooDeep => .limit "script recursion is too deep"
  | fault => fault

/-- Executes a script and gives all output of the session. -/
def script (limits : Limits) (source : Text) : Run Text := do
  requireLength limits source
  let lines := Source.cleanLines source
  if lines.isEmpty then return noOutput
  Run.mapFault leavingScript ((Engine.start limits).runLines lines)
  let output := (← get).output
  return if output.lines.isEmpty then noOutput else output.text

/-- Runs the script of the session, of which there is only one. -/
def execute (s : Session) (source : Text) : Except Fault Text × Session :=
  if s.isUsed then
    (.error (.of .misuse
      "PythonInterpreter instances run a single script; create a new one per call"), s)
  else { s with isUsed := true }.run (script s.limits source)

end Session

end Scriptlet
