import Scriptlet.Operation
import Scriptlet.Pattern.Replacement

/-
  Functions of the library of regular expressions.

  The pattern is read for every call. A match is a record of the text that was searched and of the
  places of its groups.
-/

namespace Scriptlet

namespace Searching

/-- The name of a way to repeat in reports. -/
def modeName : Pattern.RepeatMode → Text
  | .greedy => "MAX_REPEAT"
  | .lazy => "MIN_REPEAT"
  | .possessive => "POSSESSIVE_REPEAT"

/-- The fault of a text that is no pattern. -/
def patternFault (t : Text) (fault : Pattern.ParseFault) : Fault :=
  let invalid (report : Text) : Fault :=
    .badValue ("invalid regular expression " ++ t.quoted ++ ": " ++ report)
  match fault with
  | .at complaint offset => invalid (Pattern.report complaint t offset)
  | .lookbehindWidth => invalid "look-behind requires fixed-width pattern"
  | .lookbehindLength => invalid "looks too much behind"
  | .templateRepeat mode => invalid ("internal: unsupported template operator " ++ modeName mode)
  | .characterFlags => .of .badValue "ASCII and UNICODE flags are incompatible"
  | .repeatTooLarge => .of .overflow "the repetition number is too large"
  | .longInteger digits => .of .badValue (longDigitsText digits)
  | .tooDeep => .tooDeep

/-- The pattern that a value is. -/
def compiled (room : Nat) (v : Value) : Except Fault Pattern.Whole := do
  let _ ← v.kind
  match v with
  | .text t =>
    match Pattern.parse (room / 2) t with
    | .ok pattern => return pattern
    | .error fault => throw (patternFault t fault)
  | _ => throw (.badType "regular expression pattern must be a string")

/-- The groups of a match, the whole match first. -/
def groupsOf (found : Pattern.Found) : List (Option Group) :=
  some ⟨found.start, found.stop⟩ ::
    found.groups.map fun group => group.map fun (start, stop) => ⟨start, stop⟩

/-- The record of a match, or nothing. -/
def record (pattern : Pattern.Whole) (subject : Text) (found : Option Pattern.Found) : Run Value :=
  match found with
  | none => return .none
  | some found => Run.make (·.newRecord (.found subject (groupsOf found) pattern.names))

/-- A pattern and the text that it is looked for in. -/
def subjects (room : Nat) (pattern text : Value) : Run (Pattern.Whole × Text) := do
  let pattern ← compiled room pattern
  let subject ← Run.look fun h => h.format (room / 2) text
  return (pattern, subject)

/-- The first match in a text. -/
def search (room : Nat) (pattern text : Value) : Run Value := do
  let (pattern, subject) ← subjects room pattern text
  record pattern subject (Pattern.search pattern subject.toArray 0 false)

/-- The match at the start of a text. -/
def matchStart (room : Nat) (pattern text : Value) : Run Value := do
  let (pattern, subject) ← subjects room pattern text
  record pattern subject (Pattern.matchAt? pattern subject.toArray 0 false)

/-- What a match shows in a list of all: its groups, or the whole of it if it has none. -/
def shown (subject : Array CodePoint) (found : Pattern.Found) : Run Value := do
  let text (group : Option (Nat × Nat)) : Value :=
    .text ((group.map fun (start, stop) => Pattern.between subject start stop).getD [])
  match found.groups with
  | [] => return text (some (found.start, found.stop))
  | [group] => return text group
  | groups => Run.newTuple (groups.map text)

/-- All matches in a text. -/
def findAll (room : Nat) (pattern text : Value) : Run Value := do
  let (pattern, subject) ← subjects room pattern text
  let subject := subject.toArray
  let values ← (Pattern.all pattern subject).mapM (shown subject)
  Run.newList values

/-- The fault of a text that is no replacement. -/
def replacementFault (t : Text) (fault : Pattern.ReplacementFault) : Fault :=
  match fault with
  | .unknownGroup name => .of .badIndex ("unknown group name " ++ name.quoted)
  | .pattern (.at complaint offset) => .of .pattern (Pattern.report complaint t offset)
  | .pattern fault => patternFault t fault

/-- A text with all matches replaced. -/
def substitute (room : Nat) (pattern replacement text : Value) : Run Value := do
  let pattern ← compiled room pattern
  let replacement ← Run.look fun h => h.format (room / 2) replacement
  let subject ← Run.look fun h => h.format (room / 2) text
  match Pattern.parseReplacement pattern replacement with
  | .error fault => throw (replacementFault replacement fault)
  | .ok parts => return .text (Pattern.replaceAll pattern parts subject.toArray)

/-! ## Matches -/

def noGroup : Fault := .of .badIndex "no such group"

/-- The group with a number. -/
def groupAt (groups : List (Option Group)) (n : Int) : Except Fault (Option Group) :=
  match if n < 0 then none else groups[n.toNat]? with
  | some group => .ok group
  | none => .error noGroup

/-- The text of a group, or nothing. -/
def groupText (subject : Text) (group : Option Group) : Value :=
  match group with
  | some group => .text (group.of subject)
  | none => .none

/-- The text of the group with a number. -/
def group (subject : Text) (groups : List (Option Group)) (index : Value) : Except Fault Value := do
  let n ← index.toInteger
  return groupText subject (← groupAt groups n)

/-- The number of a group by its number or name. -/
def groupNumber (h : Heap) (names : List (Text × Nat)) (index : Value) : Except Fault Int := do
  match index.integer? with
  | some n => return n
  | none =>
    let _ ← h.key index
    match index with
    | .text name => return ((names.lookup name).map Int.ofNat).getD (-1)
    | _ => throw noGroup

/-- Where a group begins or ends, or less than zero if it has not matched. -/
def bound (h : Heap) (groups : List (Option Group)) (names : List (Text × Nat))
    (side : Group → Nat) (index : Option Value) : Except Fault Int := do
  let n ← match index with
    | none => pure 0
    | some v => groupNumber h names v
  match ← groupAt groups n with
  | some group => return side group
  | none => return -1

end Searching

end Scriptlet
