import Scriptlet.Limits
import Scriptlet.Value

/-
  The state of a run.

  A run reads and writes variables, objects, lines of output and the count of blocks that are being
  executed. What comes from outside, the clock and the source of chance, is part of the state too.
  An operation that stops with a fault keeps the state it has reached, so effects before a failure
  stay.
-/

namespace Scriptlet

/-- The variables of a run, each with its value. -/
structure Variables where
  bindings : List (Text × Value)

namespace Variables

def empty : Variables := ⟨[]⟩

/-- The value of a variable, if it is bound. -/
def find? (vars : Variables) (name : Text) : Option Value := vars.bindings.lookup name

/-- The bindings with a variable bound to a value, at its old place if it has one. -/
def bind (name : Text) (value : Value) : List (Text × Value) → List (Text × Value)
  | [] => [(name, value)]
  | (other, old) :: rest =>
    if other = name then (name, value) :: rest else (other, old) :: bind name value rest

/-- The variables with one of them bound to a value. -/
def set (vars : Variables) (name : Text) (value : Value) : Variables :=
  ⟨bind name value vars.bindings⟩

/-- The names of the variables, sorted. -/
def names (vars : Variables) : List Text := Text.sorted (vars.bindings.map (·.1))

end Variables

/-- The lines written so far. -/
structure Output where
  lines : Array Text
  /-- The budget used: a refused line uses it up as well. -/
  used : Nat

namespace Output

def empty : Output := ⟨#[], 0⟩

/-- The lines with line feeds between them. -/
def text (output : Output) : Text := Text.join "\n" output.lines.toList

/-- The output with the budget for one more line taken. -/
def charge (output : Output) (line : Text) : Output :=
  { output with used := output.used + line.length + 1 }

/-- The output with one more line. -/
def push (output : Output) (line : Text) : Output :=
  { output with lines := output.lines.push line }

end Output

/-- What a run reads and writes. -/
structure State where
  vars : Variables
  heap : Heap
  output : Output
  /-- The number of blocks that are being executed, one inside the other. -/
  depth : Nat
  /-- The moment that the clock shows. -/
  clock : Moment
  chance : StdGen

/-- The state at the start of a run. -/
def State.initial (clock : Moment) (seed : Nat) : State where
  vars := .empty
  heap := .initial
  output := .empty
  depth := 0
  clock := clock
  chance := mkStdGen seed

/-- A step of a run. -/
abbrev Run := EStateM Fault State

namespace Run

/-- A computation without a state as a step of a run. -/
def lift {α : Type} : Except Fault α → Run α
  | .ok a => pure a
  | .error fault => throw fault

instance : MonadLift (Except Fault) Run := ⟨lift⟩

/-- What a computation that only reads objects finds. -/
def look {α : Type} (read : Heap → Except Fault α) : Run α := do lift (read (← get).heap)

/-- Makes an object. -/
def make (new : Heap → Value × Heap) : Run Value :=
  modifyGet fun s =>
    let (v, heap) := new s.heap
    (v, { s with heap := heap })

/-- Changes objects. -/
def change (update : Heap → Heap) : Run Unit := modify fun s => { s with heap := update s.heap }

def newList (items : List Value) : Run Value := make (·.newList items.toArray)

def newTuple (items : List Value) : Run Value := make (·.newTuple items.toArray)

/-- The value of a double. -/
def newFloat (x : Float) : Run Value := make (·.newFloat x)

/-- Binds a variable. -/
def bind (name : Text) (value : Value) : Run Unit :=
  modify fun s => { s with vars := s.vars.set name value }

/-- Writes a line of output, unless it would exceed the budget. -/
def write (limits : Limits) (line : Text) : Run Unit := do
  modify fun s => { s with output := s.output.charge line }
  if (← get).output.used > limits.maxOutputSize then
    throw (.limit ("output exceeds the limit of " ++ Text.ofInt limits.maxOutputSize ++ " characters"))
  modify fun s => { s with output := s.output.push line }

/-- Refuses a collection that is too large. -/
def requireSize (limits : Limits) (size : Nat) : Except Fault Unit := do
  if size > limits.maxCollectionSize then
    throw (.limit ("collection size " ++ Text.ofNat size ++ " exceeds the limit of " ++
      Text.ofInt limits.maxCollectionSize))

/-- Refuses an integer that is estimated at too many bits. -/
def requireBits (limits : Limits) (bits : Nat) : Except Fault Unit := do
  if bits > limits.maxIntBits then
    throw (.limit ("integer result would exceed " ++ Text.ofInt limits.maxIntBits ++ " bits"))

/-- Runs `body` and then `cleanUp`, also if the body fails. -/
def thenAlways {α : Type} (body : Run α) (cleanUp : State → State) : Run α := fun s =>
  match body s with
  | .ok a s => .ok a (cleanUp s)
  | .error fault s => .error fault (cleanUp s)

/-- Runs `body` and tests what it gives. What does not pass is given up, and with it what making it has
done to the state: nothing refers to it. -/
def tested {α : Type} (body : Run α) (test : Heap → α → Except Fault Unit) : Run α := fun s =>
  match body s with
  | .ok a t =>
    match test t.heap a with
    | .ok () => .ok a t
    | .error fault => .error fault s
  | .error fault t => .error fault t

/-- Runs `body` and maps the fault that it stops with. -/
def mapFault {α : Type} (f : Fault → Fault) (body : Run α) : Run α := fun s =>
  match body s with
  | .ok a s => .ok a s
  | .error fault s => .error (f fault) s

end Run

end Scriptlet
