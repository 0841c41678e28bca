import Scriptlet.Numeric.Binary64
import Scriptlet.Value

/-
  Keys of mappings and sets.

  Two values are the same key when they are equal: an integer, a truth value, a double and a complex
  number of the same value are one key, tuples go by their elements, and libraries, records and
  functions by identity. A list, mapping or set is no key, and neither is a tuple that holds one at
  some depth.
-/

namespace Scriptlet

/-- The key part of a double. -/
def KeyPart.ofFloat (x : Float) : KeyPart :=
  if Binary64.isIntegral x then
    match Binary64.floor? x with
    | some n => .int n
    | Option.none => .float x
  else .float x

/-- The key part of a complex number: one on the real axis is the double there. -/
def KeyPart.ofComplex (re im : Float) : KeyPart :=
  if im == 0 then .ofFloat re else .complex (if re == 0 then 0 else re) im

/-- The failure of using a value that can change as a key. -/
def unhashable (v : Value) : Fault := .of .badType ("unhashable type: '" ++ v.typeName ++ "'")

namespace Heap

/-- The key that a value is, if it and what it holds cannot change. A tuple is younger than the tuples
in it, so a count of levels above its place suffices. -/
def keyWithin (h : Heap) : Nat → Value → Except Fault Key
  | 0, v => .error (unhashable v)
  | levels + 1, v =>
    match v with
    | .none => .ok [.none]
    | .bool b => .ok [.int (if b then 1 else 0)]
    | .int n => .ok [.int n]
    | .float x => .ok [KeyPart.ofFloat x]
    | .nan mark => .ok [.nan mark]
    | .complex re im => .ok [KeyPart.ofComplex re im]
    | .text t => .ok [.text t]
    | .tuple r =>
      match h.tuples[r]? with
      | some items => do
        let parts ← items.toList.mapM (h.keyWithin levels)
        return .tuple items.size :: parts.flatten
      | Option.none => .error (unhashable v)
    | .library l => .ok [.library l]
    | .record r => .ok [.record r]
    | .function f => .ok [.function f]
    | .list _ | .dict _ | .set _ => .error (unhashable v)

/-- The key that a value is, if it and what it holds cannot change. -/
def key (h : Heap) (v : Value) : Except Fault Key := h.keyWithin (h.tuples.size + 1) v

/-- Refuses lists, mappings and sets where a key is wanted. -/
def requireHashable (v : Value) (context : Text) : Except Fault Unit := do
  let k ← v.kind
  if k.isUnhashable then
    throw (.badType ("unhashable type: '" ++ k.name ++ "' in " ++ context))

/-- The key that a value is where a key is wanted. -/
def keyIn (h : Heap) (v : Value) (context : Text) : Except Fault Key := do
  requireHashable v context
  h.key v

/-- The members of the set of some values. -/
def membersOf (h : Heap) (values : List Value) (context : Text) : Except Fault (Array Member) :=
  values.foldlM (fun members v => do return Member.insert members (← h.keyIn v context) v) #[]

end Heap

end Scriptlet
