import Scriptlet.Call
import Scriptlet.Expr.Parser

/-
  Evaluation of expressions.

  Operands are evaluated from left to right, and only as far as the result needs them. A name is a
  variable or else a built-in function. An error is attached to the innermost sub-expression that it
  arises in, and an error that belongs to none of them to the whole expression.
-/

namespace Scriptlet

namespace Evaluation

/-- The levels that reading an expression takes at its start. -/
def readingLevels : Nat := 3

/-- The expression that a text is. -/
def read (levels : Nat) (text : Text) : Except Fault Expr :=
  match Expr.parse (levels - readingLevels) text with
  | .ok e => .ok e
  | .error (.longInteger digits) => .error (.of .badValue (longDigitsText digits))
  | .error fault =>
    match fault.message? with
    | some message => .error (.error ⟨.badSyntax, message, text.trim⟩)
    | none => .error .tooDeep

/-- The value of a constant. -/
def constant (c : Literal) : Value :=
  match c with
  | .none => .none
  | .bool b => .bool b
  | .int n => .int n
  | .float x => .float x
  | .text t => .text t

/-- What a name stands for. -/
def lookUp (name : Text) : Run Value := do
  match (← get).vars.find? name with
  | some v => return v
  | none =>
    match Builtin.ofName? name with
    | some f => return .function (.builtin f)
    | none => throw (.badName ("name '" ++ name ++ "' is not defined"))

/-- The fault of an attribute that a value does not have. -/
def noAttribute (v : Value) (name : Text) : Except Fault Fault := do
  return .badAttribute ("'" ++ (← v.kind).name ++ "' object has no attribute '" ++ name ++ "'")

/-- The member of a module under a name. -/
def attributeOf (v : Value) (name : Text) : Run Value := do
  match (← get).heap.module? v with
  | some m => m.member name
  | none => throw (← noAttribute v name)

/-- What a call of a method gives; of values only lists have one, which takes one more element. -/
def callMethod (limits : Limits) (target : Value) (name : Text) (arguments : Arguments) :
    Run Value := do
  let _ ← target.kind
  match target with
  | .list r =>
    if name == "append" then
      match arguments.positional, arguments.keywords with
      | [v], [] =>
        Run.requireSize limits (((← get).heap.list r).size + 1)
        Run.change (·.pushList r v)
        return .none
      | positional, keywords =>
        throw (.badType ("list.append() takes exactly one argument (" ++
          Text.ofNat (positional.length + keywords.length) ++ " given)"))
    else throw (← noAttribute target name)
  | target => throw (← noAttribute target name)

/-- The function that is called. -/
def requireCallable (v : Value) : Except Fault Function := do
  match v with
  | .function f => return f
  | v => throw (.badType ("'" ++ (← v.kind).name ++ "' object is not callable"))

/-- The arguments by name with one more, at its old place if the name is there already. -/
def putKeyword (name : Text) (v : Value) : List (Text × Value) → List (Text × Value)
  | [] => [(name, v)]
  | (other, old) :: rest =>
    if other == name then (name, v) :: rest else (other, old) :: putKeyword name v rest

/-- The values of expressions, from left to right. -/
def values (engine : Engine) (text : Text) (items : List Expr) : Run (List Value) :=
  items.mapM (engine.evaluateNode text)

/-- The values of arguments. -/
def arguments (room : Room) (text : Text) (args : List Expr) (keywords : List (Span × Text × Expr)) :
    Run Arguments := do
  let positional ← values (room.below 3) text args
  let keywords ← keywords.foldlM (fun done (_, name, e) => do
    let v ← (room.below 2).evaluateNode text e
    return putKeyword name v done) []
  return ⟨positional, keywords⟩

/-- The value of a call. -/
def call (limits : Limits) (room : Room) (text : Text) (callee : Expr) (args : List Expr)
    (keywords : List (Span × Text × Expr)) : Run Value := do
  if args.length + keywords.length > limits.maxCallArguments then
    throw (.limit ("call has more than " ++ Text.ofInt limits.maxCallArguments ++ " arguments"))
  match callee with
  | .attribute _ target name =>
    let target ← (room.below 1).evaluateNode text target
    let given ← arguments room text args keywords
    match (← get).heap.module? target with
    | some m =>
      let f ← requireCallable (← m.member name)
      (room.below 0).call f given
    | none => callMethod limits target name given
  | callee =>
    let v ← (room.below 1).evaluateNode text callee
    let given ← arguments room text args keywords
    let f ← requireCallable v
    (room.below 0).call f given

/-- The value of a bound of a slice; one that is left out is nothing. -/
def bound (engine : Engine) (text : Text) (e : Option Expr) : Run Value :=
  match e with
  | none => return .none
  | some e => engine.evaluateNode text e

/-- Whether each of a chain of comparisons holds; the first one that does not ends it. -/
def comparisons (engine : Engine) (room : Room) (text : Text) :
    Value → List (CompareOp × Expr) → Run Bool
  | _, [] => return true
  | left, (op, e) :: rest => do
    let right ← engine.evaluateNode text e
    if ← Run.look fun h => Operation.compare h room.levels op left right then
      comparisons engine room text right rest
    else return false

/-- The value of an operand, and of a second one if the first does not decide. -/
def boolean (engine : Engine) (text : Text) (op : BoolOp) (left right : Expr) : Run Value := do
  let v ← engine.evaluateNode text left
  let holds ← Run.look fun h => h.truthy v
  if holds == (op == .and) then engine.evaluateNode text right else return v

/-- The value of an expression that has been read from `text`, where errors are not yet attached. -/
def nodeValue (limits : Limits) (room : Room) (text : Text) (e : Expr) : Run Found := do
  let inner := room.below 1
  match e with
  | .literal _ c => return .ok (constant c)
  | .name _ id => return .ok (← lookUp id)
  | .list _ items => return .ok (← Run.newList (← values (room.below 3) text items))
  | .tuple _ items => return .ok (← Run.newTuple (← values (room.below 3) text items))
  | .set _ items =>
    let all ← values (room.below 3) text items
    let members ← Run.look fun h => h.membersOf all "set display"
    return .ok (← Run.make (·.newSet members))
  | .dict _ entries =>
    let keys ← values (room.below 3) text (entries.map (·.1))
    let values ← values (room.below 3) text (entries.map (·.2))
    let entries ← Run.look fun h => (keys.zip values).foldlM (fun done (key, value) => do
      return Entry.put done (← h.keyIn key "dict display") key value) #[]
    return .ok (← Run.make (·.newDict entries))
  | .attribute _ target name => return .ok (← attributeOf (← inner.evaluateNode text target) name)
  | .subscript _ target index =>
    let target ← inner.evaluateNode text target
    let index ← inner.evaluateNode text index
    Run.look fun h => h.lookUp room.levels target index
  | .sliced _ target _ lower upper step =>
    let target ← inner.evaluateNode text target
    Operation.requireSliceable target
    let lower ← bound inner text lower
    let upper ← bound inner text upper
    let step ← bound inner text step
    return .ok (← Operation.slice target lower upper step)
  | .call _ callee args keywords => return .ok (← call limits room text callee args keywords)
  | .unary _ op operand => return .ok (← Operation.unary op (← inner.evaluateNode text operand))
  | .binary _ op left right =>
    let left ← inner.evaluateNode text left
    let right ← inner.evaluateNode text right
    return .ok (← Operation.binary limits room.levels op left right)
  | .boolean _ op left right => return .ok (← boolean inner text op left right)
  | .compare _ left rest =>
    let left ← inner.evaluateNode text left
    return .ok (.bool (← comparisons inner room text left rest))

/-- The value of an expression that has been read from `text`. -/
def node (limits : Limits) (room : Room) (text : Text) (e : Expr) : Run Value := do
  match ← Run.mapFault (Fault.within (e.source text)) (nodeValue limits room text e) with
  | .ok v => return v
  | .error f => throw (.unreported f)

/-- The value of the expression that a text is. -/
def evaluate (room : Room) (text : Text) : Run Value :=
  let text := text.trim
  Run.mapFault (Fault.leaving text) do
    let e ← read room.levels text
    (room.below 0).evaluateNode text e

/-- Stores a value under a name, or under the index or key of a container. -/
def assign (engine : Engine) (text : Text) (target : Expr) (value : Value) : Run Unit := do
  match target with
  | .name _ id => Run.bind id value
  | .subscript _ container key =>
    let container ← engine.evaluateNode text container
    let key ← engine.evaluateNode text key
    Operation.store (target.source text) container key value
  | target => throw (.error ⟨.badSyntax, "cannot assign to " ++ target.source text, text⟩)

end Evaluation

end Scriptlet
