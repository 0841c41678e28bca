import Scriptlet.Expr
import Scriptlet.State

/-
  What the parts of a run ask of each other.

  Evaluation calls functions, some functions evaluate and execute text, and execution evaluates. The
  parts are tied together by the record `Engine`: each is written against engines with less room for
  nesting, so every run ends, and a run that finds no room left is too deep.
-/

namespace Scriptlet

/-- The arguments of a call, as they are written. -/
structure Arguments where
  positional : List Value
  keywords : List (Text × Value)

/-- Evaluation and execution with a certain room for nesting. -/
structure Engine where
  /-- The value of an expression. -/
  evaluate : Text → Run Value
  /-- The value of an expression that has been read from the text. -/
  evaluateNode : Text → Expr → Run Value
  /-- Executes the lines of a block. -/
  runLines : List Text → Run Unit
  /-- What a function gives for some arguments. -/
  call : Function → Arguments → Run Value

namespace Engine

/-- The engine without room. -/
def exhausted : Engine where
  evaluate _ := throw .tooDeep
  evaluateNode _ _ := throw .tooDeep
  runLines _ := throw .tooDeep
  call _ _ := throw .tooDeep

end Engine

/-- What is below a place of a run: engines with ever less room, and the levels that are left. -/
structure Room where
  /-- The engine so many levels further down. -/
  below : Nat → Engine
  levels : Nat

namespace Room

/-- The levels of containers whose text there is room for. -/
def printing (room : Room) : Nat := room.levels / 2

end Room

end Scriptlet
