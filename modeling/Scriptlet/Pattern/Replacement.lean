import Scriptlet.Numeric.Power
import Scriptlet.Pattern.Matching
import Scriptlet.Pattern.Parser

/-
  Replacement of matches.

  A replacement without a backslash is written for every match as it is. With one it is a list of
  parts: text, and groups of the match, named by number or by name. A group that has not matched
  gives nothing.
-/

namespace Scriptlet

namespace Pattern

/-- A part of a replacement. -/
inductive ReplacementPart where
  | text (t : Text)
  | group (n : Nat)
  deriving DecidableEq

/-- Why a text is no replacement. -/
inductive ReplacementFault where
  | pattern (fault : ParseFault)
  | unknownGroup (name : Text)
  deriving DecidableEq

abbrev ParseReplacement := StateT Known (Except ReplacementFault)

namespace ParseReplacement

/-- A step of reading a pattern as a step of reading a replacement. -/
def lift {α : Type} (step : Parse α) : ParseReplacement α := fun known =>
  match step.run known with
  | .ok result => .ok result
  | .error fault => .error (.pattern fault)

instance : MonadLift Parse ParseReplacement := ⟨lift⟩

/-- A group by its number, which stands `back` before the next token. -/
def groupPart (pattern : Whole) (group back : Nat) : ParseReplacement ReplacementPart := do
  if group > pattern.groups then lift (Parse.refuse (.invalidGroup group) back)
  else return .group group

/-- A group by its name or number, behind `\g`. -/
def namedGroup (pattern : Whole) : ParseReplacement ReplacementPart := do
  if !(← lift (Parse.accept "<")) then lift (Parse.refuse (.missing "<") 0)
  else
    let name ← lift do Parse.takeUntil ">" "group name" (← Parse.budget) []
    let back := name.length + 1
    if name.isIdentifier then
      match pattern.names.lookup name with
      | some group => groupPart pattern group back
      | none => throw (.unknownGroup name)
    else
      match NumberText.readInt? name.trim with
      | some (.ofNat group) =>
        if group ≥ twoTo 30 - 1 then lift (Parse.refuse (.invalidGroup group) back)
        else groupPart pattern group back
      | _ => lift (Parse.refuse (.badName name) back)

/-- A group or an octal number, behind a backslash and the digit `c`. -/
def numbered (pattern : Whole) (c : CodePoint) : ParseReplacement ReplacementPart := do
  let second ← lift (Parse.takeWhile CodePoint.isAsciiDigit 1)
  let third ←
    if Parse.isOctal c && second.any Parse.isOctal then lift (Parse.takeWhile Parse.isOctal 1)
    else pure []
  if !third.isEmpty then
    return .text [← lift (Parse.octalEscape (c :: (second ++ third)))]
  else
    let digits := c :: second
    groupPart pattern (Parse.valueIn 10 digits) digits.length

/-- The part that a backslash and `c` begin. -/
def escaped (pattern : Whole) (c : CodePoint) : ParseReplacement ReplacementPart := do
  if c.val == 103 then namedGroup pattern
  else if c.val == 48 then
    let more ← lift (Parse.takeWhile Parse.isOctal 2)
    return .text [CodePoint.ofNat (Parse.valueIn 8 more % 256)]
  else if c.isAsciiDigit then numbered pattern c
  else
    match Parse.control? c with
    | some d => return .text [d]
    | none =>
      if c.isAsciiLetter then lift (Parse.refuse (.badEscape ['\\', c]) 2)
      else return .text ['\\', c]

/-- The parts up to the end, behind those in `done`, which is backwards. -/
def parts (pattern : Whole) : Nat → List ReplacementPart → ParseReplacement (List ReplacementPart)
  | 0, done => return done.reverse
  | steps + 1, done => do
    match ← lift Parse.take with
    | none => return done.reverse
    | some [_, c] => parts pattern steps ((← escaped pattern c) :: done)
    | some token => parts pattern steps (.text token :: done)

end ParseReplacement

/-- The parts that a replacement consists of. -/
def parseReplacement (pattern : Whole) (t : Text) :
    Except ReplacementFault (List ReplacementPart) := do
  if t.any fun c => c.val == 92 then
    match Source.load t 0 with
    | .error fault => throw (.pattern fault)
    | .ok source =>
      let start : Known := ⟨source, [], [], [], none, []⟩
      let (parts, _) ← (ParseReplacement.parts pattern (t.length + 1) []).run start
      return parts
  else return [.text t]

/-- The text between two places. -/
def between (subject : Array CodePoint) (start stop : Nat) : Text :=
  (subject.extract start stop).toList

/-- What a part of a replacement stands for in a match. -/
def ReplacementPart.fill (subject : Array CodePoint) (found : Found) : ReplacementPart → Text
  | .text t => t
  | .group 0 => between subject found.start found.stop
  | .group (n + 1) =>
    match found.groups[n]?.join with
    | some (start, stop) => between subject start stop
    | none => []

/-- The text from `place` on, with each match replaced by the parts. -/
def replaceFrom (subject : Array CodePoint) (parts : List ReplacementPart) (place : Nat) :
    List Found → Text
  | [] => between subject place subject.size
  | found :: rest =>
    between subject place found.start ++ parts.flatMap (·.fill subject found) ++
      replaceFrom subject parts found.stop rest

/-- The text with every match replaced by the parts. -/
def replaceAll (pattern : Whole) (parts : List ReplacementPart) (subject : Array CodePoint) : Text :=
  replaceFrom subject parts 0 (all pattern subject)

end Pattern

end Scriptlet
