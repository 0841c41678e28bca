import Scriptlet.Evaluation
import Scriptlet.Statement

/-
  Execution of lines.

  Lines are executed one after the other; a header takes the block below it with it. All blocks share
  the variables of the run. The state counts the blocks that are being executed, and the count is
  restored however a block ends.
-/

namespace Scriptlet

namespace Execution

/-- The values for several targets, or the value itself for one. -/
def distribute (levels count : Nat) (v : Value) : Run (List Value) := do
  if count > 1 then Run.look fun h => h.unpack levels v count else return [v]

/-! ## Statements -/

/-- The module that can be imported under a name. -/
def importable (name : Text) : Except Fault Library :=
  match Library.ofName? name with
  | some l => .ok l
  | none => .error (.badImport ("No module named '" ++ name ++ "'"))

/-- Binds what one name of an import stands for: a star stands for all members. -/
def importName (line : Text) (l : Library) (name : Text) : Run Unit := do
  let module := l.toModule
  if name == "*" then
    for member in module.names do
      Run.bind member (← module.member member)
  else if !name.isIdentifier then throw (.badSyntax ("invalid import syntax: " ++ line))
  else
    match module.find? name with
    | some v => Run.bind name v
    | none =>
      throw (.badImport ("cannot import name '" ++ name ++ "' from '" ++ module.name ++ "'"))

/-- Binds a value to a target, or its elements to the targets of a tuple. -/
def bindTarget (room : Room) (target : Text) (value : Value) (isAugmented : Bool) : Run Unit := do
  let e ← match Evaluation.read room.levels target with
    | .ok e => pure e
    | .error (.error _) => throw (.badSyntax ("cannot assign to " ++ target))
    | .error fault => throw fault
  let text := target.trim
  match e with
  | .tuple _ items =>
    if isAugmented then
      throw (.badSyntax ("illegal target for augmented assignment: " ++ target))
    let values ← Run.look fun h => h.unpack room.printing value items.length
    for (item, v) in items.zip values do
      Evaluation.assign (room.below 4) text item v
  | e => Evaluation.assign (room.below 4) text e value

/-- The text of the operation that an augmented assignment stands for. -/
def augmented (target operator expression : Text) : Text :=
  "(" ++ target ++ ") " ++ operator.dropLast ++ " (" ++ expression ++ ")"

/-- Assigns the value of an expression. -/
def assignment (room : Room) (target operator expression : Text) : Run Unit := do
  if target.isEmpty || expression.isEmpty then
    throw (.badSyntax
      ("invalid assignment: " ++ target ++ " " ++ operator ++ " " ++ expression))
  let isAugmented := operator != "="
  let source := if isAugmented then augmented target operator expression else expression
  let value ← (room.below 2).evaluate source
  bindTarget room target value isAugmented

/-- Whether a line begins with a call of the function that prints. -/
def beginsWithPrint (line : Text) : Bool :=
  match Text.dropStart? "print" line with
  | some rest => rest.trimLeft.head? == some (CodePoint.ofChar '(')
  | none => false

/-- Writes the value of an expression as a line, unless there is nothing to show. -/
def echo (limits : Limits) (room : Room) (line : Text) : Run Unit := do
  let v ← (room.below 1).evaluate line
  let isShown := v != .none && v != .text "" && !beginsWithPrint line
  if isShown then Run.write limits (← Run.look fun h => h.format room.printing v)

/-- Executes a statement; `line` is its text. -/
def statement (limits : Limits) (room : Room) (line : Text) (s : Statement) : Run Unit := do
  match s with
  | .pass => return ()
  | .importModule module => Run.bind module (.library (← importable module))
  | .importNames module names =>
    let l ← importable module
    for name in names do
      importName line l name
  | .assign target operator expression => assignment room target operator expression
  | .expression text => echo limits room text

/-! ## Blocks -/

/-- The elements that a loop runs through. -/
def loopItems (items : Text) (v : Value) : Run (List Value) := do
  let h := (← get).heap
  let k ← v.kind
  match v with
  | .list r => return (h.list r).toList
  | .tuple r => return (h.tuple r).toList
  | _ => throw (.badType ("'" ++ k.name ++ "' object is not iterable in for loop: " ++ items))

/-- Executes a body once for every element, with the targets bound to it. -/
def forEach (room : Room) (targets : List Text) (items : Text) (body : List Text) : Run Unit := do
  let v ← (room.below 1).evaluate items
  for item in ← loopItems items v do
    let values ← distribute room.printing targets.length item
    for (name, v) in targets.zip values do
      Run.bind name v
    (room.below 1).runLines body

/-- Whether a condition holds. -/
def holds (room : Room) (condition : Text) : Run Bool := do
  let v ← (room.below 1).evaluate condition
  Run.look fun h => h.truthy v

/-- Executes a body while a condition holds, at most so many times. -/
def whileTrue (room : Room) (condition : Text) (body : List Text) : Nat → Run Unit
  | 0 => do
    if ← holds room condition then
      throw (.runtime ("while loop exceeded " ++ Text.ofNat maxWhileIterations ++
        " iterations, possible infinite loop"))
  | left + 1 => do
    if ← holds room condition then
      (room.below 1).runLines body
      whileTrue room condition body left

/-- Executes a header with its body. -/
def header (room : Room) (h : Header) (body : List Text) : Run Unit := do
  match h with
  | .forEach targets items => forEach room targets items body
  | .onlyIf condition => if ← holds room condition then (room.below 1).runLines body
  | .whileTrue condition => whileTrue room condition body maxWhileIterations

/-- Executes lines one after the other. -/
def sequence (limits : Limits) (room : Room) : List Text → Run Unit
  | [] => return ()
  | line :: rest => do
    let line := line.trim
    match ← Line.read line with
    | .statement s =>
      statement limits room line s
      sequence limits room rest
    | .header h =>
      let (body, taken) := Source.block rest
      header room h body
      sequence limits room (rest.drop taken)
  termination_by lines => lines.length

/-- Executes the lines of a block. -/
def block (limits : Limits) (room : Room) (lines : List Text) : Run Unit := do
  modify fun s => { s with depth := s.depth + 1 }
  Run.thenAlways (do
    if (← get).depth > limits.maxNestingDepth then
      throw (.limit ("blocks nested deeper than " ++ Text.ofInt limits.maxNestingDepth ++ " levels"))
    sequence limits room lines) fun s => { s with depth := s.depth - 1 }

end Execution

end Scriptlet
