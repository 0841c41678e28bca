import Scriptlet.Text.Blank
import Scriptlet.Text.LineBreak

/-
  Lines of a script and their blocks.

  A comment runs from the first `#` that no backslash precedes to the end of its line, also inside
  quotes; a `#` is written as `\#`. Blanks at the end of a line are dropped, and lines that are left
  without anything are dropped whole. The body of a header is the lines below it that begin with a
  unit of indentation, four spaces or a tab; blank lines between them belong to it too.
-/

namespace Scriptlet

namespace Source

/-- The line up to its comment; `escaped` tells whether a backslash stands just before. -/
def dropComment (escaped : Bool) : Text → Text
  | [] => []
  | c :: rest =>
    if c.val == 35 && !escaped then [] else c :: dropComment (c.val == 92) rest

/-- The line with each `\#` made a `#`. -/
def unescapeHashes : Text → Text
  | [] => []
  | [c] => [c]
  | c :: d :: rest =>
    if c.val == 92 && d.val == 35 then d :: unescapeHashes rest
    else c :: unescapeHashes (d :: rest)

/-- What is left of a line when its comment and the blanks at its end are dropped. -/
def cleanLine (line : Text) : Text := (unescapeHashes (dropComment false line)).trimRight

/-- The lines of a script that hold anything, cleaned. -/
def cleanLines (source : Text) : List Text :=
  (source.lines.map cleanLine).filter (!·.isEmpty)

/-- The line without its first unit of indentation, if it has one. -/
def dedent? (line : Text) : Option Text :=
  match Text.dropStart? "    " line with
  | some rest => some rest
  | none => Text.dropStart? "\t" line

/-- The body at the start of some lines, with one unit of indentation removed, behind the body lines
in `done`, which is backwards, and the number of lines that it takes up. -/
def blockFrom (done : List Text) (taken : Nat) : List Text → List Text × Nat
  | [] => (done.reverse, taken)
  | line :: rest =>
    if line.isBlank then blockFrom done (taken + 1) rest
    else
      match dedent? line with
      | some body => blockFrom (body :: done) (taken + 1) rest
      | none => (done.reverse, taken)

/-- The body at the start of some lines, and the number of lines that it takes up. -/
def block (lines : List Text) : List Text × Nat := blockFrom [] 0 lines

end Source

end Scriptlet
