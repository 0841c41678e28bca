import Scriptlet.Numeric.Power
import Scriptlet.Operation

/-
  Functions of the library of chance.

  Numbers come from the source of chance of the run. A choice is uniform over the places of a
  collection, a sample takes elements of different places, and shuffling puts the elements of a list
  in a new order.
-/

namespace Scriptlet

namespace Chance

/-- A number below a bound that is not zero. -/
def below (bound : Nat) : Run Nat := do
  let (n, rest) := randNat (← get).chance 0 (bound - 1)
  modify fun s => { s with chance := rest }
  return n

/-- A double from zero up to one. -/
def unit : Run Value := do
  let n ← below (twoTo 53)
  Run.newFloat (Binary64.ofRatio false n (twoTo 53))

/-- An integer between two others, both included. -/
def between (low high : Value) : Run Value := do
  let a ← low.toInteger
  let b ← high.toInteger
  let width := b + 1 - a
  if width > 0 then return .int (a + (← below width.toNat))
  else
    let numbers ← [a, b + 1, width].mapM fun n => Run.lift (integerText n)
    throw (.of .badValue ("empty range for randrange() (" ++ Text.join ", " numbers ++ ")"))

/-- An element of a collection. -/
def choice (items : Value) : Run Value := do
  let values ← Run.look fun h => h.iterate items "choice()"
  if values.isEmpty then throw (.of .badIndex "Cannot choose from an empty sequence")
  return (values[← below values.length]?).getD .none

/-- `count` elements of different places, in an order of chance. -/
def draw : Nat → Array Value → List Value → Run (List Value)
  | 0, _, drawn => return drawn
  | count + 1, items, drawn => do
    if items.isEmpty then return drawn
    let i ← below items.size
    let last := items.size - 1
    draw count ((items.swapIfInBounds i last).pop) ((items[i]?).getD .none :: drawn)

/-- The elements of a list in a new order. -/
def shuffle (items : Value) : Run Unit := do
  match items with
  | .list r =>
    let values := (← get).heap.list r
    let drawn ← draw values.size values []
    Run.change (·.replaceList r drawn.toArray)
  | v =>
    let _ ← v.kind
    throw (.badType "shuffle() requires a list")

/-- So many elements of different places of a collection. -/
def sample (items count : Value) : Run Value := do
  let values ← Run.look fun h => h.iterate items "sample()"
  let n ← count.toInteger
  if n < 0 || n > values.length then
    throw (.of .badValue "Sample larger than population or is negative")
  let drawn ← draw n.toNat values.toArray []
  Run.newList drawn

end Chance

end Scriptlet
