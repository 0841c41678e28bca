import Scriptlet.Engine

/-
  How functions take their arguments.

  A function has parameters, which take arguments by position or by name, and perhaps a rest, which
  takes all positional arguments that are left; parameters behind a rest take arguments by name only.
  Where several things are wrong with a call, a keyword that does not fit is reported first, then
  arguments too many, then arguments missing. A function of an object counts the object as its first
  argument.
-/

namespace Scriptlet

/-- A parameter, and whether a call may leave it out. -/
structure Parameter where
  name : Text
  isOptional : Bool

/-- How a function takes its arguments. -/
structure Signature where
  /-- The name of the function in reports. -/
  title : Text
  /-- Whether an object counts as the first argument. -/
  countsOwner : Bool
  parameters : List Parameter
  hasRest : Bool
  /-- Parameters that take arguments by name only, all of them optional. -/
  named : List Text

/-- The arguments of a call by the parameters they go to. -/
structure Bound where
  values : List (Option Value)
  rest : List Value
  named : List (Option Value)

namespace Bound

/-- The argument for a parameter, if the call gives one. -/
def value? (bound : Bound) (i : Nat) : Option Value := (bound.values[i]?).join

/-- The argument for a parameter that no call leaves out. -/
def value (bound : Bound) (i : Nat) : Value := (bound.value? i).getD .none

/-- The argument for a parameter that takes it by name only. -/
def named? (bound : Bound) (i : Nat) : Option Value := (bound.named[i]?).join

end Bound

namespace Signature

def report {α : Type} (s : Signature) (text : Text) : Except Fault α :=
  throw (.of .badType (s.title ++ "() " ++ text))

def inQuotes (name : Text) : Text := "'" ++ name ++ "'"

/-- Names in quotes with commas and an `and` between them. -/
def enumerated (names : List Text) : Text :=
  match names.map inQuotes with
  | [] => []
  | [a] => a
  | [a, b] => a ++ " and " ++ b
  | quoted => Text.join ", " quoted.dropLast ++ ", and " ++ (quoted.getLast?.getD [])

/-- The plural ending for a count. -/
def plural (count : Nat) : Text := if count = 1 then "" else "s"

/-- The arguments by name put to the parameters that have no argument yet. -/
def bindKeyword (s : Signature) (slots : List (Text × Option Value)) (keyword : Text × Value) :
    Except Fault (List (Text × Option Value)) := do
  let (name, value) := keyword
  match slots.find? (·.1 == name) with
  | none => s.report ("got an unexpected keyword argument " ++ inQuotes name)
  | some (_, some _) => s.report ("got multiple values for argument " ++ inQuotes name)
  | some (_, none) =>
    return slots.map fun slot => if slot.1 == name then (slot.1, some value) else slot

/-- The report of positional arguments too many. -/
def tooMany {α : Type} (s : Signature) (given : Nat) : Except Fault α :=
  let owner := if s.countsOwner then 1 else 0
  let most := s.parameters.length + owner
  let least := (s.parameters.filter (!·.isOptional)).length + owner
  let range : Text :=
    if least = most then Text.ofNat most ++ " positional argument" ++ plural most
    else "from " ++ Text.ofNat least ++ " to " ++ Text.ofNat most ++ " positional arguments"
  let given := given + owner
  let verb : Text := if given = 1 then "was" else "were"
  s.report ("takes " ++ range ++ " but " ++ Text.ofNat given ++ " " ++ verb ++ " given")

/-- The arguments of a call by the parameters of the function. -/
def bind (s : Signature) (arguments : Arguments) : Except Fault Bound := do
  if arguments.keywords.any fun keyword => keyword.1 == "self" then
    throw (.of .badType "NativeFunction.__call__() got multiple values for argument 'self'")
  let count := s.parameters.length
  let given := arguments.positional
  let placed : List (Text × Option Value) :=
    (s.parameters.mapIdx fun i p => (p.name, given[i]?)) ++ s.named.map fun name => (name, none)
  let slots ← arguments.keywords.foldlM s.bindKeyword placed
  if given.length > count && !s.hasRest then s.tooMany given.length
  let missing := (s.parameters.zip slots).filterMap fun (p, slot) =>
    if !p.isOptional && slot.2.isNone then some p.name else none
  if !missing.isEmpty then
    let n := missing.length
    s.report ("missing " ++ Text.ofNat n ++ " required positional argument" ++ plural n ++ ": " ++
      enumerated missing)
  return ⟨(slots.take count).map (·.2), given.drop count, (slots.drop count).map (·.2)⟩

end Signature

end Scriptlet
