import Scriptlet.Numeric.Power
import Scriptlet.Text

/-
  Patterns.

  A pattern is a sequence of nodes that match one after the other. Groups are numbered from one in
  the order of their opening parentheses; group zero is the whole match. Flags change how the nodes
  in their reach match.
-/

namespace Scriptlet

namespace Pattern

/-- What changes how nodes match. -/
inductive Flag where
  | ignoreCase
  | multiline
  /-- The dot matches line feeds. -/
  | dotAll
  /-- Blanks and comments in the pattern do not count. -/
  | verbose
  /-- Classes and cases are those of ASCII. -/
  | ascii
  | unicode
  /-- Repetition is refused. -/
  | template
  deriving DecidableEq

/-- Whether the flag chooses the characters that classes are about. -/
def Flag.choosesCharacters : Flag → Bool
  | .ascii | .unicode => true
  | _ => false

/-- A class of code points with a letter of its own. -/
inductive Category where
  | digit
  | space
  | word
  deriving DecidableEq

/-- An item of a set of code points. -/
inductive ClassItem where
  | one (c : CodePoint)
  | range (low high : CodePoint)
  | category (negated : Bool) (category : Category)
  deriving DecidableEq

/-- A set of code points, or all the others. -/
structure CharClass where
  negated : Bool
  items : List ClassItem
  deriving DecidableEq

/-- A condition on a place in the text. -/
inductive Place where
  /-- The start of the text, or of a line if lines count. -/
  | start
  /-- The end of the text or the place before a line feed at its end, or the end of a line. -/
  | stop
  | textStart
  | textStop
  | wordEdge
  | notWordEdge
  deriving DecidableEq

/-- How often a repetition tries to match. -/
inductive RepeatMode where
  | greedy
  | lazy
  /-- Greedy, and never less once it has matched. -/
  | possessive
  deriving DecidableEq

/-- A part of a pattern. -/
inductive Node where
  | literal (c : CodePoint)
  | any
  | among (cls : CharClass)
  | at (place : Place)
  /-- A group with its number, if it has one, and the flags that it turns on and off. -/
  | group (index : Option Nat) (on off : List Flag) (body : List Node)
  /-- A group that never matches in another way once it has matched. -/
  | atomic (body : List Node)
  | choice (alternatives : List (List Node))
  | repeated (mode : RepeatMode) (least : Nat) (most : Option Nat) (body : List Node)
  /-- A condition on what follows or what comes before. -/
  | look (behind negated : Bool) (body : List Node)
  /-- What a group has matched. -/
  | sameAs (group : Nat)
  /-- One of two sequences, by whether a group has matched. -/
  | conditional (group : Nat) (yes no : List Node)
  deriving Inhabited

/-- The least and the greatest length of what a node matches. -/
structure Width where
  low : Nat
  high : Nat
  deriving DecidableEq

namespace Width

/-- A length that stands for any number from there on. -/
def bound : Nat := twoTo 64

def capped (w : Width) : Width := ⟨min w.low bound, min w.high bound⟩

def add (v w : Width) : Width := ⟨v.low + w.low, v.high + w.high⟩

def either (v w : Width) : Width := ⟨min v.low w.low, max v.high w.high⟩

/-- The width of a number of repetitions. -/
def times (w : Width) (least : Nat) (most : Option Nat) : Width :=
  ⟨w.low * least,
   match most with
   | some n => w.high * n
   | none => if w.high = 0 then 0 else bound⟩

end Width

mutual

/-- The width of a node, given the widths of the groups. -/
def Node.width (groups : Nat → Width) : Node → Width
  | .literal _ | .any | .among _ => ⟨1, 1⟩
  | .at _ | .look _ _ _ => ⟨0, 0⟩
  | .group _ _ _ body | .atomic body => widthOf groups body
  | .choice alternatives => (widthAmong groups alternatives)
  | .repeated _ least most body => (widthOf groups body).times least most
  | .sameAs group => groups group
  | .conditional _ yes no => (widthOf groups yes).either (widthOf groups no)

/-- The width of a sequence. -/
def widthOf (groups : Nat → Width) (nodes : List Node) : Width :=
  (widthSum groups nodes).capped

def widthSum (groups : Nat → Width) : List Node → Width
  | [] => ⟨0, 0⟩
  | node :: rest => (node.width groups).add (widthSum groups rest)

def widthAmong (groups : Nat → Width) : List (List Node) → Width
  | [] => ⟨Width.bound, 0⟩
  | nodes :: rest => (widthOf groups nodes).either (widthAmong groups rest)

end

/-- A pattern that has been read. -/
structure Whole where
  nodes : List Node
  /-- The flags of the whole pattern. -/
  flags : List Flag
  /-- The number of groups, not counting the whole match. -/
  groups : Nat
  widths : Nat → Width
  /-- The names of groups with their numbers, in order. -/
  names : List (Text × Nat)

end Pattern

end Scriptlet
