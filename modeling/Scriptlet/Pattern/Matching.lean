import Scriptlet.Pattern
import Scriptlet.Text.Blank
import Scriptlet.Text.Case
import Scriptlet.Text.Digit
import Scriptlet.Text.Word

/-
  Matching patterns.

  What a node means is a function that, given what has to match after it, looks for the first way to
  match both: alternatives are tried in order, and a repetition tries the count it prefers first. A
  repetition that has matched nothing in one round does not begin another one from the same place.
-/

namespace Scriptlet

namespace Pattern

/-- How far matching has come: the place in the text, and where groups begin and end. -/
structure Progress where
  place : Nat
  starts : Array (Option Nat)
  stops : Array (Option Nat)

/-- A search for what comes next. -/
abbrev Goal := Progress → Option Progress

/-- A way to match something before a goal. -/
abbrev Matcher := Goal → Goal

/-! ## Classes and cases -/

/-- Code points that fall together when case does not count, apart from lower case. -/
def caseGroups : List (List Nat) :=
  [[105, 305], [115, 383], [181, 956], [837, 953, 8126], [912, 8147], [944, 8163], [946, 976],
   [949, 1013], [952, 977], [954, 1008], [960, 982], [961, 1009], [962, 963], [966, 981],
   [1074, 7296], [1076, 7297], [1086, 7298], [1089, 7299], [1090, 7300, 7301], [1098, 7302],
   [1123, 7303], [7304, 42571], [7777, 7835], [64261, 64262]]

/-- The lower case code points that fall together with a lower case one. -/
def fellows (n : Nat) : List Nat :=
  match caseGroups.find? (·.contains n) with
  | some group => group
  | none => [n]

def lowerAscii (c : CodePoint) : CodePoint :=
  if 65 ≤ c.val && c.val ≤ 90 then CodePoint.ofNat (c.val + 32) else c

/-- The lower case that the flags ask for. -/
def lowerBy (flags : List Flag) (c : CodePoint) : CodePoint :=
  if flags.contains .ascii then lowerAscii c else c.toLower

/-- The code points whose lower case is `n`. -/
def sourcesOf (n : Nat) : List Nat :=
  let moved := Text.lowerRuns.toList.filterMap fun run =>
    let source := (n : Int) - run.shift
    if run.first ≤ source && source ≤ run.last && (source - run.first) % run.step == 0 then
      some source.toNat
    else none
  if (CodePoint.ofNat n).toLower.val = n then n :: moved else moved

/-- The code points that fall together with a lower case one. -/
def variants (flags : List Flag) (n : Nat) : List Nat :=
  if flags.contains .ascii then
    if 97 ≤ n && n ≤ 122 then [n, n - 32] else [n]
  else (fellows n).flatMap sourcesOf

/-- Whether two code points are the same when case does not count. -/
def sameIgnoringCase (flags : List Flag) (pattern c : CodePoint) : Bool :=
  let low := lowerBy flags pattern
  let other := lowerBy flags c
  if flags.contains .ascii then other = low else (fellows low.val).contains other.val

/-- Whether a code point is the one that a pattern names. -/
def isLiteral (flags : List Flag) (pattern c : CodePoint) : Bool :=
  if flags.contains .ignoreCase then sameIgnoringCase flags pattern c else c = pattern

/-- Whether a code point belongs to a class with a letter of its own. -/
def Category.contains (flags : List Flag) (category : Category) (c : CodePoint) : Bool :=
  let ascii := flags.contains .ascii
  match category with
  | .digit => if ascii then c.isAsciiDigit else c.isDigit
  | .space => if ascii then c.val == 32 || (9 ≤ c.val && c.val ≤ 13) else c.isBlank
  | .word =>
    if ascii then c.isAsciiLetter || c.isAsciiDigit || c.val == 95 else c.isWord

/-- The end of the basic plane. Beyond it a set that ignores case has only what it names in lower case,
but for its ranges. -/
def planeEnd : Nat := 0x10000

/-- Whether a code point is an item of a set. -/
def ClassItem.contains (flags : List Flag) (c : CodePoint) : ClassItem → Bool
  | .one d =>
    if flags.contains .ignoreCase && d.val ≥ planeEnd then lowerBy flags c = d
    else isLiteral flags d c
  | .range low high =>
    (low.val ≤ c.val && c.val ≤ high.val) ||
      (flags.contains .ignoreCase &&
        (variants flags (lowerBy flags c).val).any fun n => low.val ≤ n && n ≤ high.val)
  | ClassItem.category negated letter => letter.contains flags c != negated

/-- Whether a set has a code point. -/
def CharClass.contains (flags : List Flag) (cls : CharClass) (c : CodePoint) : Bool :=
  let found := match cls.items with
    | [.one d] => isLiteral flags d c
    | items => items.any (·.contains flags c)
  found != cls.negated

/-! ## Places -/

def isLineFeed (c : CodePoint) : Bool := c.val == 10

/-- Whether a condition on a place holds at `n`. -/
def Place.holds (flags : List Flag) (subject : Array CodePoint) (n : Nat) (place : Place) : Bool :=
  let before (test : CodePoint → Bool) : Bool := n > 0 && (subject[n - 1]?).any test
  let behind (test : CodePoint → Bool) : Bool := (subject[n]?).any test
  let word := Category.word.contains flags
  match place with
  | .textStart => n == 0
  | .textStop => n == subject.size
  | .start => n == 0 || (flags.contains .multiline && before isLineFeed)
  | .stop =>
    n == subject.size ||
      (behind isLineFeed && (flags.contains .multiline || n + 1 == subject.size))
  | .wordEdge => !subject.isEmpty && before word != behind word
  | .notWordEdge => !subject.isEmpty && before word == behind word

/-! ## Nodes -/

/-- Whether a node that takes one code point takes `c`; `none` for any other node. -/
def Node.takes? (flags : List Flag) : Node → Option (CodePoint → Bool)
  | .literal d => some (isLiteral flags d)
  | .any => some fun c => flags.contains .dotAll || !isLineFeed c
  | .among cls => some (cls.contains flags)
  | _ => none

/-- The flags in a group that turns some on and some off. -/
def flagsWithin (flags on off : List Flag) : List Flag :=
  let kept := if on.any Flag.choosesCharacters then
      flags.filter fun flag => !flag.choosesCharacters
    else flags
  (on ++ kept).filter fun flag => !off.contains flag

/-- The test of a sequence that always takes exactly one code point. -/
def simpleTest? (flags : List Flag) : List Node → Option (CodePoint → Bool)
  | [.group none on off [node]] => node.takes? (flagsWithin flags on off)
  | [node] => node.takes? flags
  | _ => none

/-- The number of code points from `place` on that pass a test, at most `most`. -/
def countFrom (subject : Array CodePoint) (test : CodePoint → Bool) (place : Nat) :
    Nat → Nat → Nat
  | 0, count => count
  | most + 1, count =>
    if (subject[place + count]?).any test then countFrom subject test place most (count + 1)
    else count

/-- Reaches the goal from the greatest of the counts between `least` and `least + extra`. -/
def fromMost (goal : Goal) (progress : Progress) (least : Nat) : Nat → Option Progress
  | 0 => goal { progress with place := progress.place + least }
  | extra + 1 =>
    match goal { progress with place := progress.place + least + (extra + 1) } with
    | some reached => some reached
    | none => fromMost goal progress least extra

/-- Reaches the goal from the least of `extra` counts from `least` on. -/
def fromLeast (goal : Goal) (progress : Progress) : Nat → Nat → Option Progress
  | least, 0 => goal { progress with place := progress.place + least }
  | least, extra + 1 =>
    match goal { progress with place := progress.place + least } with
    | some reached => some reached
    | none => fromLeast goal progress (least + 1) extra

/-- A repetition of something that always takes one code point. -/
def repeatSimple (subject : Array CodePoint) (mode : RepeatMode) (least : Nat) (most : Option Nat)
    (test : CodePoint → Bool) : Matcher := fun goal progress =>
  let left := subject.size - progress.place
  let count := countFrom subject test progress.place (min left (most.getD left)) 0
  if count < least then none
  else
    match mode with
    | .greedy => fromMost goal progress least (count - least)
    | .lazy => fromLeast goal progress least (count - least)
    | .possessive => goal { progress with place := progress.place + count }

/-- Whether one more round is allowed after `count`. -/
def allowsMore (most : Option Nat) (count : Nat) : Bool := most.all (count < ·)

/-- Rounds of a repetition as many as possible; `last` is where the last optional round began. -/
def greedyRounds (round : Matcher) (least : Nat) (most : Option Nat) (goal : Goal) :
    Nat → Nat → Option Nat → Goal
  | 0, _, _ => goal
  | fuel + 1, count, last => fun progress =>
    if count < least then round (greedyRounds round least most goal fuel (count + 1) last) progress
    else if allowsMore most count && last != some progress.place then
      let again := greedyRounds round least most goal fuel (count + 1) (some progress.place)
      match round again progress with
      | some reached => some reached
      | none => goal progress
    else goal progress

/-- Rounds of a repetition as few as possible. -/
def lazyRounds (round : Matcher) (least : Nat) (most : Option Nat) (goal : Goal) :
    Nat → Nat → Option Nat → Goal
  | 0, _, _ => goal
  | fuel + 1, count, last => fun progress =>
    if count < least then round (lazyRounds round least most goal fuel (count + 1) last) progress
    else
      match goal progress with
      | some reached => some reached
      | none =>
        if allowsMore most count && last != some progress.place then
          round (lazyRounds round least most goal fuel (count + 1) (some progress.place)) progress
        else none

/-- The end of as many rounds as possible, each taken in its first way. -/
def possessiveRounds (round : Matcher) (least : Nat) (most : Option Nat) :
    Nat → Nat → Option Nat → Goal
  | 0, _, _ => some
  | fuel + 1, count, last => fun progress =>
    if count < least then
      match round some progress with
      | some reached => possessiveRounds round least most fuel (count + 1) last reached
      | none => none
    else if allowsMore most count && last != some progress.place then
      match round some progress with
      | some reached =>
        possessiveRounds round least most fuel (count + 1) (some progress.place) reached
      | none => some progress
    else some progress

/-- A repetition of anything. -/
def repeatRounds (subject : Array CodePoint) (mode : RepeatMode) (least : Nat) (most : Option Nat)
    (round : Matcher) : Matcher := fun goal progress =>
  -- every optional round but one moves on
  let fuel := least + (subject.size - progress.place) + 3
  match mode with
  | .greedy => greedyRounds round least most goal fuel 0 none progress
  | .lazy => lazyRounds round least most goal fuel 0 none progress
  | .possessive =>
    match possessiveRounds round least most fuel 0 none progress with
    | some reached => goal reached
    | none => none

/-- What a group has matched, if it has. -/
def Progress.group? (progress : Progress) (group : Nat) : Option (Nat × Nat) :=
  match progress.starts[group]?.join, progress.stops[group]?.join with
  | some start, some stop => if start ≤ stop then some (start, stop) else none
  | _, _ => none

/-- The same code points as between `start` and `stop` again. -/
def matchAgain (flags : List Flag) (subject : Array CodePoint) (start stop : Nat) : Matcher :=
  fun goal progress =>
    let same (a b : CodePoint) : Bool :=
      if flags.contains .ignoreCase then lowerBy flags a = lowerBy flags b else a = b
    let length := stop - start
    if progress.place + length ≤ subject.size &&
        (List.range length).all fun i =>
          match subject[start + i]?, subject[progress.place + i]? with
          | some a, some b => same a b
          | _, _ => false
    then goal { progress with place := progress.place + length }
    else none

mutual

/-- What a node means in a text, under some flags and with known widths of groups. -/
def Node.matcher (subject : Array CodePoint) (groups : Nat → Width) (flags : List Flag) :
    Node → Matcher
  | .literal d => fun goal progress =>
    match subject[progress.place]? with
    | some c =>
      if isLiteral flags d c then
        goal { progress with place := progress.place + 1 }
      else none
    | none => none
  | .any => fun goal progress =>
    match subject[progress.place]? with
    | some c =>
      if flags.contains .dotAll || !isLineFeed c then
        goal { progress with place := progress.place + 1 }
      else none
    | none => none
  | .among cls => fun goal progress =>
    match subject[progress.place]? with
    | some c =>
      if cls.contains flags c then goal { progress with place := progress.place + 1 } else none
    | none => none
  | .at place => fun goal progress =>
    if place.holds flags subject progress.place then goal progress else none
  | .group index on off body => fun goal progress =>
    let flags := flagsWithin flags on off
    match index with
    | none => matchAll subject groups flags body goal progress
    | some group =>
      let close : Goal := fun reached =>
        goal { reached with stops := reached.stops.setIfInBounds group (some reached.place) }
      matchAll subject groups flags body close
        { progress with starts := progress.starts.setIfInBounds group (some progress.place) }
  | .atomic body => fun goal progress =>
    match matchAll subject groups flags body some progress with
    | some reached => goal reached
    | none => none
  | .choice alternatives => fun goal progress =>
    matchFirst subject groups flags alternatives goal progress
  | .repeated mode least most body =>
    match simpleTest? flags body with
    | some test => repeatSimple subject mode least most test
    | none => repeatRounds subject mode least most (matchAll subject groups flags body)
  | .look behind negated body => fun goal progress =>
    let back := if behind then (widthOf groups body).low else 0
    let found : Option Progress :=
      if back ≤ progress.place then
        matchAll subject groups flags body some { progress with place := progress.place - back }
      else none
    if negated then (if found.isNone then goal progress else none)
    else
      match found with
      | some reached => goal { reached with place := progress.place }
      | none => none
  | .sameAs group => fun goal progress =>
    match progress.group? group with
    | some (start, stop) => matchAgain flags subject start stop goal progress
    | none => none
  | .conditional group yes no => fun goal progress =>
    match progress.group? group with
    | some _ => matchAll subject groups flags yes goal progress
    | none => matchAll subject groups flags no goal progress

/-- What a sequence means. -/
def matchAll (subject : Array CodePoint) (groups : Nat → Width) (flags : List Flag) :
    List Node → Matcher
  | [] => fun goal => goal
  | node :: rest => fun goal =>
    node.matcher subject groups flags (matchAll subject groups flags rest goal)

/-- What a choice means. -/
def matchFirst (subject : Array CodePoint) (groups : Nat → Width) (flags : List Flag) :
    List (List Node) → Matcher
  | [] => fun _ _ => none
  | nodes :: rest => fun goal progress =>
    match matchAll subject groups flags nodes goal progress with
    | some reached => some reached
    | none => matchFirst subject groups flags rest goal progress

end

/-! ## Searching -/

/-- A match: where it begins and ends, and where the groups do. -/
structure Found where
  start : Nat
  stop : Nat
  /-- The groups behind the whole match. -/
  groups : List (Option (Nat × Nat))
  deriving DecidableEq

/-- The match that begins at `start`; if `moves`, it must not be empty. -/
def matchAt? (pattern : Whole) (subject : Array CodePoint) (start : Nat) (moves : Bool) :
    Option Found :=
  let none' : Array (Option Nat) := Array.replicate (pattern.groups + 1) none
  let goal : Goal := fun progress =>
    if moves && progress.place == start then none else some progress
  let reached := matchAll subject pattern.widths pattern.flags pattern.nodes goal
    ⟨start, none', none'⟩
  reached.map fun progress =>
    ⟨start, progress.place,
      (List.range pattern.groups).map fun i => progress.group? (i + 1)⟩

/-- The first match that begins at `start` or at one of the next `more` places; if `moves`, a match at
`start` itself must not be empty. -/
def searchFrom (pattern : Whole) (subject : Array CodePoint) (moves : Bool) :
    Nat → Nat → Option Found
  | start, 0 => matchAt? pattern subject start moves
  | start, more + 1 =>
    match matchAt? pattern subject start moves with
    | some found => some found
    | none => searchFrom pattern subject false (start + 1) more

/-- The first match in a text from `start` on. -/
def search (pattern : Whole) (subject : Array CodePoint) (start : Nat) (moves : Bool) :
    Option Found :=
  searchFrom pattern subject moves start (subject.size - start)

/-- The matches one after the other; behind an empty match at a place the next one is not empty there. -/
def searchAll (pattern : Whole) (subject : Array CodePoint) : Nat → Nat → Bool → List Found
  | 0, _, _ => []
  | fuel + 1, start, moves =>
    match search pattern subject start moves with
    | none => []
    | some found =>
      found :: searchAll pattern subject fuel found.stop (found.start == found.stop)

/-- All matches in a text. -/
def all (pattern : Whole) (subject : Array CodePoint) : List Found :=
  searchAll pattern subject (2 * subject.size + 2) 0 false

end Pattern

end Scriptlet
