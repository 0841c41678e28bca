import Scriptlet.Numeric.Power
import Scriptlet.Operation

/-
  Functions that make values of other values.

  Texts and numbers of any value, and collections of the elements of another one: a value that is no
  collection becomes the only element.
-/

namespace Scriptlet

namespace Building

/-- The elements of a container, or the value itself. -/
def elements (h : Heap) (v : Value) : Except Fault (List Value) := do
  let _ ← v.kind
  return (h.elements? v).getD [v]

/-- The double of a value; NaN stays the same object. -/
def float (v : Value) : Run Value := do
  match v with
  | .nan mark => return .nan mark
  | v => Run.newFloat (← v.toFloat)

/-- The list of the elements of a value. -/
def list (v : Value) : Run Value := do
  let items ← Run.look fun h => elements h v
  Run.newList items

/-- The tuple of the elements of a value. -/
def tuple (v : Value) : Run Value := do
  let items ← Run.look fun h => elements h v
  Run.newTuple items

/-- The set of the elements of a value. -/
def set (v : Value) : Run Value := do
  let members ← Run.look fun h => do h.membersOf (← elements h v) "set()"
  Run.make (·.newSet members)

/-- The entries of pairs, later ones over earlier ones. -/
def entriesOf (h : Heap) (levels : Nat) (pairs : List Value) : Except Fault (Array Entry) :=
  pairs.foldlM (fun entries pair => do
    match ← h.unpack levels pair 2 with
    | [key, value] => return Entry.put entries (← h.keyIn key "dict()") key value
    | _ => return entries) #[]

/-- The mapping of the entries or pairs of a value; one that has none gives none. -/
def dict (levels : Nat) (v : Value) : Run Value := do
  let entries ← Run.look fun h => do
    let _ ← v.kind
    match v with
    | .dict r => return h.dict r
    | .list r => entriesOf h levels (h.list r).toList
    | .tuple r => entriesOf h levels (h.tuple r).toList
    | _ => return #[]
  Run.make (·.newDict entries)

/-- The number of the only code point of a text. -/
def codeOf (h : Heap) (levels : Nat) (v : Value) : Except Fault Int := do
  let _ ← v.kind
  match v with
  | .text [c] => return c.val
  | v => throw (.badType ("ord() expected a character, got " ++ (← h.repr levels v)))

/-- The text of one code point with a number. -/
def codePoint (v : Value) : Except Fault Text := do
  let n ← v.requireInteger "chr()"
  if n ≥ twoTo 31 || n < -(twoTo 31) then
    throw (.of .overflow "Python int too large to convert to C int")
  else
    match if n < 0 then none else CodePoint.ofNat? n.toNat with
    | some c => return [c]
    | none => throw (.of .badValue "chr() arg not in range(0x110000)")

end Building

end Scriptlet
