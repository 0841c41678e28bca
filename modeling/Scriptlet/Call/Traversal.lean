import Scriptlet.Call.Sorting
import Scriptlet.Engine
import Scriptlet.Value.Conversion
import Scriptlet.Value.Equality

/-
  Functions that run through collections.

  The elements are taken out first; functions that are given as arguments are then called with them
  one after the other.
-/

namespace Scriptlet

namespace Traversal

/-- The function that a value is. -/
def requireFunction (v : Value) (context : Text) : Except Fault Function := do
  match v with
  | .function f => return f
  | v =>
    let k ← v.kind
    throw (.badType (context ++ " expects a function, not '" ++ k.name ++ "'"))

/-- Numbers and elements in pairs. -/
def enumerate (items start : Value) : Run Value := do
  let offset ← start.requireInteger "enumerate()"
  let values ← Run.look fun h => h.iterate items "enumerate()"
  let pairs ← values.mapIdxM fun i v => Run.newTuple [.int (i + offset), v]
  Run.newList pairs

/-- The elements that stand at the same places of several collections, up to the end of the shortest;
the number is a bound on their count. -/
def rows : Nat → List (List Value) → List (List Value)
  | 0, _ => []
  | count + 1, columns =>
    match columns.mapM List.head? with
    | none => []
    | some row => if row.isEmpty then [] else row :: rows count (columns.map List.tail)

/-- The rows of several collections. -/
def rowsOf (columns : List (List Value)) : List (List Value) :=
  rows ((columns.head?.map List.length).getD 0) columns

/-- The elements of several values. -/
def columnsOf (values : List Value) (context : Text) : Run (List (List Value)) :=
  Run.look fun h => values.mapM fun v => h.iterate v context

/-- The tuples of the elements of several values. -/
def zip (values : List Value) : Run Value := do
  let tuples ← (rowsOf (← columnsOf values "zip()")).mapM Run.newTuple
  Run.newList tuples

/-- The elements from the last to the first. -/
def reversed (items : Value) : Run Value := do
  let values ← Run.look fun h => h.iterate items "reversed()"
  Run.newList values.reverse

/-- The elements in the order of what `key` gives for them, or of themselves. -/
def sorted (room : Room) (items reverse key : Value) : Run Value := do
  let chosen ← match key with
    | .none => pure none
    | key => do pure (some (← requireFunction key "sorted() key"))
  let values ← Run.look fun h => h.iterate items "sorted()"
  let backwards ← Run.look fun h => h.truthy reverse
  let keyed ← values.mapM fun v => do
    match chosen with
    | none => return (v, v)
    | some f => return (← (room.below 1).call f ⟨[v], []⟩, v)
  let pairs ← Run.look fun h =>
    let less (a b : Value × Value) : Except Fault Bool := h.ordered .lt room.levels a.1 b.1
    if backwards then return (← Sorting.sort less keyed.reverse).reverse
    else Sorting.sort less keyed
  Run.newList (pairs.map (·.2))

/-- The elements that a function gives something true for, or that are true themselves. -/
def filter (room : Room) (f items : Value) : Run Value := do
  let values ← Run.look fun h => h.iterate items "filter()"
  match f with
  | .none =>
    let kept ← values.filterM fun v => Run.look fun h => h.truthy v
    Run.newList kept
  | f =>
    let f ← requireFunction f "filter()"
    let kept ← values.filterM fun v => do
      let result ← (room.below 2).call f ⟨[v], []⟩
      Run.look fun h => h.truthy result
    Run.newList kept

/-- What a function gives for the elements of several values. -/
def map (room : Room) (f : Value) (collections : List Value) : Run Value := do
  let f ← requireFunction f "map()"
  if collections.isEmpty then throw (.badType "map() must have at least two arguments")
  let columns ← columnsOf collections "map()"
  let results ← (rowsOf columns).mapM fun row => (room.below 2).call f ⟨row, []⟩
  Run.newList results

/-- Whether some element is true. -/
def any (h : Heap) (items : Value) : Except Fault Bool := do
  someHolds h.truthy (← h.iterate items "any()")

/-- Whether all elements are true. -/
def all (h : Heap) (items : Value) : Except Fault Bool := do
  allHold h.truthy (← h.iterate items "all()")

end Traversal

end Scriptlet
