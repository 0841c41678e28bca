import Scriptlet.Fault
import Scriptlet.Numeric.Power

/-
  Sorting with a comparison that can fail.

  The elements are cut into runs that are in order already; a run that strictly falls is reversed,
  and a short one is made longer by putting the elements behind it in their places one by one. Runs
  are then merged with their neighbours. Elements that are not less than each other keep their order.
-/

namespace Scriptlet

namespace Sorting

variable {α : Type} (less : α → α → Except Fault Bool)

/-- How far the elements go on as they began: each less than the one before it if `falling`, and else
none of them. -/
def runLength (falling : Bool) (previous : α) : List α → Nat → Except Fault Nat
  | [], length => return length
  | next :: rest, length => do
    if (← less next previous) == falling then runLength falling next rest (length + 1)
    else return length

/-- The run at the start of some elements, in order, and the elements behind it. -/
def firstRun (items : List α) : Except Fault (List α × List α) :=
  match items with
  | first :: second :: rest => do
    let falling ← less second first
    let length ← runLength less falling second rest 2
    let run := items.take length
    return (if falling then run.reverse else run, items.drop length)
  | items => return (items, [])

/-- The place for an element among sorted ones, behind those that it is not less than, from `low` up
to `high`. -/
def placeFor (sorted : Array α) (item : α) : Nat → Nat → Nat → Except Fault Nat
  | 0, low, _ => return low
  | steps + 1, low, high => do
    if low < high then
      let middle := low + (high - low) / 2
      match sorted[middle]? with
      | none => return low
      | some other =>
        if ← less item other then placeFor sorted item steps low middle
        else placeFor sorted item steps (middle + 1) high
    else return low

/-- Sorted elements with further ones put in their places. -/
def insertAll (sorted : Array α) (items : List α) : Except Fault (Array α) :=
  items.foldlM (fun sorted item => do
    let place ← placeFor less sorted item (sorted.size + 1) 0 sorted.size
    return sorted.insertIdxIfInBounds place item) sorted

/-- The least length of a run when there are so many elements: all of them if they are few, or else a
number between 32 and 64 that divides them well. -/
def leastRun (count : Nat) : Nat :=
  if count < 64 then count
  else
    let shift := count.log2 - 5
    count / twoTo shift + (if count % twoTo shift = 0 then 0 else 1)

/-- The runs of some elements, each at least `least` long but for the last one. -/
def runs (least : Nat) : Nat → List α → Except Fault (List (List α))
  | 0, _ => return []
  | steps + 1, items => do
    if items.isEmpty then return []
    let (run, rest) ← firstRun less items
    let missing := least - run.length
    let run ← insertAll less run.toArray (rest.take missing)
    return run.toList :: (← runs least steps (rest.drop missing))

/-- Two runs as one behind the elements `done`, which are backwards. -/
def mergeOnto (done : List α) : List α → List α → Except Fault (List α)
  | [], ys => return done.reverse ++ ys
  | xs, [] => return done.reverse ++ xs
  | x :: xs, y :: ys => do
    if ← less y x then mergeOnto (y :: done) (x :: xs) ys
    else mergeOnto (x :: done) xs (y :: ys)
  termination_by xs ys => xs.length + ys.length

/-- Neighbouring runs merged. -/
def mergePairs : List (List α) → Except Fault (List (List α))
  | xs :: ys :: rest => do
    let merged ← mergeOnto less [] xs ys
    return merged :: (← mergePairs rest)
  | runs => return runs

/-- Runs merged into one. -/
def mergeAll : Nat → List (List α) → Except Fault (List α)
  | 0, runs => return runs.flatten
  | steps + 1, runs => do
    match runs with
    | [] => return []
    | [run] => return run
    | runs => mergeAll steps (← mergePairs less runs)

/-- Some elements in order. -/
def sort (items : List α) : Except Fault (List α) := do
  let all ← runs less (leastRun items.length) (items.length + 1) items
  mergeAll less all.length all

end Sorting

end Scriptlet
