import Scriptlet.Numeric.Power
import Scriptlet.Value.Equality
import Scriptlet.Value.Printing

/-
  Elements of sequences, slices, entries of mappings and membership.

  An index counts from the front, or from the end if it is negative. A slice runs from its lower to
  its upper bound in steps; bounds outside of the sequence are moved to its ends.
-/

namespace Scriptlet

/-- The places that a slice takes: the first one, the step and their number. -/
structure Places where
  first : Int
  step : Int
  count : Nat
  deriving DecidableEq

namespace Places

/-- A bound counted from the front and moved between `low` and `high`. -/
def clamp (length low high : Int) (bound : Int) : Int :=
  let n := if bound < 0 then bound + length else bound
  max low (min high n)

/-- The places of a slice of a sequence; the step is not zero. -/
def of (length : Nat) (lower upper : Option Int) (step : Int) : Places :=
  let n : Int := length
  if step > 0 then
    let first := (lower.map (clamp n 0 n)).getD 0
    let last := (upper.map (clamp n 0 n)).getD n
    ⟨first, step, if first < last then ((last - first - 1) / step + 1).toNat else 0⟩
  else
    let first := (lower.map (clamp n (-1) (n - 1))).getD (n - 1)
    let last := (upper.map (clamp n (-1) (n - 1))).getD (-1)
    ⟨first, step, if last < first then ((first - last - 1) / (-step) + 1).toNat else 0⟩

/-- The elements at some places. -/
def pick {α : Type} (places : Places) (items : Array α) : List α :=
  (List.range places.count).filterMap fun (i : Nat) =>
    items[(places.first + (i : Int) * places.step).toNat]?

/-- Whether the places are those of all elements in their order. -/
def isWhole (places : Places) (length : Nat) : Bool :=
  places.first == 0 && places.step == 1 && places.count == length

end Places

/-- The place of an index in a sequence. -/
def placeOf (length : Nat) (index : Int) : Option Nat :=
  let n := if index < 0 then index + length else index
  if 0 ≤ n && n < length then some n.toNat else none

/-- The least power of two that is no index any more. -/
def indexBound : Int := twoTo 63

/-- The failure of an index that is not in a sequence. -/
def outOfRange (context : Text) (index : Int) : Fault :=
  if index ≥ indexBound || index < -indexBound then
    .of .badIndex "cannot fit 'int' into an index-sized integer"
  else .of .badIndex (context ++ " index out of range")

namespace Value

/-- A bound of a slice; nothing stands for the default. -/
def sliceBound (v : Value) : Except Fault (Option Int) :=
  match v with
  | .none => .ok Option.none
  | v =>
    match v.integer? with
    | some n => .ok (some n)
    | Option.none =>
      .error (.of .badType "slice indices must be integers or None or have an __index__ method")

/-- The index that a value is in a sequence of kind `k`. -/
def sequenceIndex (v : Value) (refusal : Text) : Except Fault Int := do
  let k ← v.kind
  match v.integer? with
  | some n => return n
  | Option.none => throw (.badType (refusal ++ ", not '" ++ k.name ++ "'"))

end Value

/-- What looking for something comes to: a value, or the failure to report that there is none. -/
abbrev Found := Except Failure Value

namespace Heap

/-- Looking for a key that a mapping does not have: a failure, unless the report of it fails. -/
def missingKey (h : Heap) (levels : Nat) (key : Value) : Except Fault Found :=
  match h.plainRepr levels key with
  | .ok t => .error (.of .missingKey t)
  | .error (.failure f) => .ok (.error f)
  | .error fault => .error fault

/-- The element of a sequence at an index. -/
def itemAt (h : Heap) (target : Value) (index : Int) : Except Fault Value :=
  let pick (name : String) (items : Array Value) : Except Fault Value :=
    match (placeOf items.size index).bind (items[·]?) with
    | some v => .ok v
    | none => .error (outOfRange name index)
  match target with
  | .text t =>
    match (placeOf t.length index).bind (t[·]?) with
    | some c => .ok (.text [c])
    | none => .error (outOfRange "string" index)
  | .list r => pick "list" (h.list r)
  | .tuple r => pick "tuple" (h.tuple r)
  | _ => .ok .none

/-- What stands under an index or a key. -/
def lookUp (h : Heap) (levels : Nat) (target index : Value) : Except Fault Found := do
  let k ← target.kind
  if k.isSequence then
    return .ok (← h.itemAt target (← index.sequenceIndex (k.name ++ " indices must be integers")))
  else
    match target with
    | .dict r =>
      let key ← h.keyIn index "subscript"
      match Entry.find? (h.dict r) key with
      | some v => return .ok v
      | Option.none => h.missingKey levels index
    | _ => throw (.badType ("'" ++ k.name ++ "' object is not subscriptable"))

/-- Whether one value is an element, a key or a part of another one; `word` names the test. -/
def isIn (h : Heap) (levels : Nat) (word : Text) (v container : Value) : Except Fault Bool := do
  let k ← container.kind
  let among (items : Array Value) : Except Fault Bool := do
    someHolds (fun item => h.same levels item v) items.toList
  match container with
  | .text t =>
    match v with
    | .text part => return Text.occursIn part t
    | v =>
      throw (.of .badType
        ("'in <string>' requires string as left operand, not " ++ (v.typeName : Text)))
  | .list r => among (h.list r)
  | .tuple r => among (h.tuple r)
  | .dict r =>
    let key ← h.keyIn v ("'" ++ word ++ "' test")
    return (h.dict r).any (·.key == key)
  | .set r =>
    let key ← h.keyIn v ("'" ++ word ++ "' test")
    return (h.set r).any (·.key == key)
  | _ => throw (.badType ("argument of type '" ++ k.name ++ "' is not iterable"))

end Heap

end Scriptlet
