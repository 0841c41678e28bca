import Scriptlet.Operation
import Scriptlet.Signature.Table

/-
  Functions of the library of dates and times.

  All of them show the clock of the run. The text of a moment takes a separator and a precision, by
  position or by name.
-/

namespace Scriptlet

namespace Clock

/-- The moment that the clock shows, as a record. -/
def now : Run Value := do
  let clock := (← get).clock
  Run.make (·.newRecord (.moment clock))

/-- The date that the clock shows. -/
def today : Run Value := do return .text (← get).clock.calendar.dateText

/-- The seconds that the clock shows. -/
def seconds : Run Value := do return .int (← get).clock.seconds

/-- The name of the type of an argument in the reports of this library. -/
def argumentName (v : Value) : Text :=
  match v with
  | .none => "None"
  | v => v.typeName

/-- The separator that a value is. -/
def separatorOf (v : Value) : Except Fault CodePoint :=
  match v with
  | .text [c] => .ok c
  | v =>
    .error (.of .badType
      ("isoformat() argument 1 must be a unicode character, not " ++ argumentName v))

/-- The failure of a text that holds half of a pair by itself. -/
def unencodable (t : Text) : Fault :=
  let front := t.takeWhile (!·.isSurrogate)
  let halves := (t.drop front.length).takeWhile (·.isSurrogate)
  let first := front.length
  let what : Text := match halves with
    | [c] => "character '" ++ c.numberEscape ++ "' in position " ++ Text.ofNat first
    | halves =>
      "characters in position " ++ Text.ofNat first ++ "-" ++ Text.ofNat (first + halves.length - 1)
  .of .badValue ("'utf-8' codec can't encode " ++ what ++ ": surrogates not allowed")

/-- The precision that a value names. -/
def precisionOf (v : Value) : Except Fault Calendar.Precision := do
  match v with
  | .text t =>
    if t.any CodePoint.isSurrogate then throw (unencodable t)
    if t.any fun c => c.val == 0 then throw (.of .badValue "embedded null character")
    match Calendar.Precision.ofName? t with
    | some precision => return precision
    | none => throw (.of .badValue "Unknown timespec value")
  | v =>
    throw (.of .badType ("isoformat() argument 2 must be str, not " ++ argumentName v))

/-- The names of the arguments. -/
def argumentNames : List Text := ["sep", "timespec"]

/-- Refuses arguments that are too many. -/
def requireFew (arguments : Arguments) : Except Fault Unit := do
  let given := arguments.positional.length + arguments.keywords.length
  if given > argumentNames.length then
    let kind : Text := if arguments.positional.isEmpty then "keyword arguments" else "arguments"
    throw (.of .badType
      ("isoformat() takes at most 2 " ++ kind ++ " (" ++ Text.ofNat given ++ " given)"))

/-- Refuses arguments by name that are given by position too, or that have no parameter. -/
def requireKnown (arguments : Arguments) : Except Fault Unit := do
  for i in List.range arguments.positional.length do
    match argumentNames[i]? with
    | some name =>
      if arguments.keywords.any (·.1 == name) then
        throw (.of .badType ("argument for isoformat() given by name ('" ++ name ++
          "') and position (" ++ Text.ofNat (i + 1) ++ ")"))
    | none => pure ()
  match arguments.keywords.find? fun keyword => !argumentNames.contains keyword.1 with
  | some (name, _) =>
    throw (.of .badType ("'" ++ name ++ "' is an invalid keyword argument for isoformat()"))
  | none => return ()

/-- The text of a moment. -/
def isoText (moment : Moment) (arguments : Arguments) : Except Fault Text := do
  arguments.requireNoOwner
  requireFew arguments
  let argument? (i : Nat) (name : Text) : Option Value :=
    arguments.positional[i]? <|> arguments.keywords.lookup name
  let separator ← match argument? 0 "sep" with
    | some v => separatorOf v
    | none => pure (CodePoint.ofChar 'T')
  match argument? 1 "timespec" with
  | some v =>
    -- a text is looked up only when all arguments have been accepted
    if v.kind? != some .text then let _ ← precisionOf v
    requireKnown arguments
    return moment.calendar.isoText separator (← precisionOf v)
  | none =>
    requireKnown arguments
    return moment.calendar.isoText separator .auto

end Clock

end Scriptlet
