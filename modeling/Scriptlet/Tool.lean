import Scriptlet.Session
import Scriptlet.Telemetry.Span

/-
  The tools that are offered to callers.

  Two tools reckon and one runs a script. Each call is a span that tells how it went; division by zero
  and errors of scripts are answers and not failures of the call. A number that is whole is written
  without a point.
-/

namespace Scriptlet

/-- What the tools work on: values, and a record of the calls. -/
structure Workbench (sdk : Telemetry.Sdk) where
  recorder : Telemetry.Recording sdk
  state : State

/-- A call of a tool that is recorded with what there is to record with. -/
abbrev RecordedCall (sdk : Telemetry.Sdk) := EStateM Fault (Workbench sdk)

/-- A call of a tool. -/
abbrev ToolCall := RecordedCall Telemetry.Tracer.sdk

namespace Tool

variable {sdk : Telemetry.Sdk}

/-- The name of the tools together. -/
def serverName : Text := "calculator"

/-- The names of the tools. -/
def names : List Text := ["add", "calculate", "execute_python"]

/-- A fault as a span records it. Of levels of nesting that have run out the host also says what it was at. -/
def exceptionOf (fault : Fault) : Telemetry.Exception :=
  match fault with
  | .error e => ⟨e.kind.label, e.message⟩
  | .failure f | .unreported f => ⟨f.kind.label, f.text⟩
  | .tooDeep => ⟨"RecursionError", "maximum recursion depth exceeded"⟩

/-- Changes the record of the calls. -/
def record (change : Telemetry.Recording sdk → Telemetry.Recording sdk) : RecordedCall sdk Unit :=
  modify fun w => { w with recorder := change w.recorder }

/-- A step on values as part of a call. -/
def onValues {α : Type} (step : Run α) : RecordedCall sdk α := fun w =>
  match step w.state with
  | .ok a state => .ok a { w with state := state }
  | .error fault state => .error fault { w with state := state }

/-- Does the body of a call in a span of its own, which tells how the body went. -/
def inSpan {α : Type} (name tool : Text) (attributes : Telemetry.Attributes) (body : Run α) :
    RecordedCall sdk α := do
  record fun r => r.begin name (some tool) attributes
  try
    let a ← onValues body
    record fun r => r.finish none
    return a
  catch fault =>
    record fun r => r.finish (some (exceptionOf fault))
    throw fault

/-- The text of a number, whole ones without a point; other values as they are printed. -/
def formatNumber (v : Value) : Run Text := do
  match v with
  | .float x =>
    match Binary64.floor? x with
    | some n => if Binary64.isIntegral x then integerText n else return FloatText.plain x
    | none => return FloatText.plain x
  | .text t => return t
  | v => Run.look fun h => h.plainRepr Engine.startLevels v

/-- What an operator makes of two operands, without limits. -/
def operate (op : BinaryOp) (a b : Value) : Run Value :=
  Operation.apply Limits.standard Engine.startLevels op a b

/-- The sum of two numbers. -/
def add (a b : Value) : RecordedCall sdk Text :=
  inSpan "tool.add" "add" [] do formatNumber (← operate .add a b)

/-- The operations that a caller can name. -/
def operations : List (Text × BinaryOp) :=
  [("add", .add), ("subtract", .sub), ("multiply", .mul), ("divide", .div)]

/-- The answer to a division by zero. -/
def divisionByZero : Text := "Error: Cannot divide by zero"

/-- The result of an operation on two numbers, nothing for a division by zero. -/
def reckon (operation : Text) (a b : Value) : Run (Option Value) := do
  match operations.lookup operation with
  | none => throw (.of .badValue ("Unknown operation: " ++ operation))
  | some op =>
    if op == .div then
      if ← Run.look fun h => h.equal Engine.startLevels b (.int 0) then return none
    return some (← operate op a b)

/-- An operation on two numbers that is named. -/
def calculate (operation : Text) (a b : Value) : RecordedCall sdk Text := do
  let result ← inSpan "tool.calculate" "calculate" [("tool.operation", .text operation)]
    (reckon operation a b)
  match result with
  | none => return divisionByZero
  | some v => onValues (formatNumber v)

/-- The answer to a script that has run. -/
def outputReply (output : Text) : Text := "Python execution result:\n```\n" ++ output ++ "\n```"

/-- The answer to a script that has failed. -/
def failureReply (fault : Fault) : Text := "Execution error: " ++ (exceptionOf fault).text

/-- A step in a state of its own; only the clock and the source of chance are shared. -/
def apart {α : Type} (step : Run α) : Run α := fun s =>
  match step { State.initial s.clock 0 with chance := s.chance } with
  | .ok a t => .ok a { s with chance := t.chance }
  | .error fault t => .error fault { s with chance := t.chance }

/-- Runs a script in a state of its own and answers with what it prints. -/
def executeScript (limits : Limits) (code : Text) : RecordedCall sdk Text := do
  let length : Json := .int code.length
  try
    let output ← inSpan "tool.execute_python" "execute_python" [("tool.code.length", length)]
      (apart (Session.script limits code))
    return outputReply output
  catch fault => return failureReply fault

end Tool

end Scriptlet
