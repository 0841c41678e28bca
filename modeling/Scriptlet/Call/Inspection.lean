import Scriptlet.Member
import Scriptlet.State
import Scriptlet.Text.Hash
import Scriptlet.Value.Conversion
import Scriptlet.Value.Equality
import Scriptlet.Value.Key

/-
  Functions that look at values.

  Lengths, types, attributes and hashes. The attributes of a mapping are its entries, those of a
  module its members; nothing else has attributes to look up by name. The hash of a value is that of
  its text.
-/

namespace Scriptlet

namespace Inspection

/-- The number of elements of a container, or of members of a module. -/
def length (h : Heap) (v : Value) : Except Fault Nat := do
  let k ← v.kind
  if k.isContainer then return h.size v
  else
    match h.module? v with
    | some m => return m.members.length
    | none => throw (.badType ("object of type '" ++ k.name ++ "' has no len()"))

/-- Whether a value is of a type that `types` names, or of one of several. -/
def isInstance (h : Heap) (v : Value) : Nat → Value → Except Fault Bool
  | 0, _ => throw .tooDeep
  | levels + 1, types => do
    let isOf (name : Text) : Except Fault Bool := do
      let k ← v.kind
      return (k.name : Text) == name || (k == .bool && name == "int")
    let _ ← types.kind
    match types with
    | .tuple r => someHolds (isInstance h v levels) (h.tuple r).toList
    | .text name => isOf name
    | .function (.builtin f) =>
      if f.namesType then isOf f.name
      else throw (.badType "isinstance() arg 2 must be a type name or a tuple of types")
    | _ => throw (.badType "isinstance() arg 2 must be a type name or a tuple of types")

/-- The entry or member of a value under a name. -/
def attribute? (h : Heap) (v name : Value) : Except Fault (Option Value) := do
  let _ ← v.kind
  match v with
  | .dict r => return Entry.find? (h.dict r) (← h.key name)
  | v =>
    match h.module? v with
    | none => return none
    | some m =>
      let _ ← h.key name
      match name with
      | .text t => return m.find? t
      | _ => return none

/-- The report of an attribute that is not there. -/
def noAttribute (h : Heap) (levels : Nat) (v name : Value) : Except Fault Fault := do
  let k ← v.kind
  return .badAttribute
    ("'" ++ k.name ++ "' object has no attribute '" ++ (← h.format levels name) ++ "'")

/-- The attribute of a value, or what stands in for it. -/
def attributeOr (h : Heap) (levels : Nat) (v name : Value) (standIn : Option Value) :
    Except Fault Value := do
  match ← attribute? h v name with
  | some found => return found
  | none =>
    match standIn with
    | some other => return other
    | none => throw (← noAttribute h levels v name)

/-- Sets the entry of a mapping under a name. -/
def setAttribute (levels : Nat) (v name value : Value) : Run Unit := do
  let h := (← get).heap
  let _ ← v.kind
  match v with
  | .dict r =>
    let key ← h.keyIn name "setattr()"
    Run.change (·.putEntry r key name value)
  | v =>
    match h.module? v with
    | some m => throw (.badAttribute ("module '" ++ m.name ++ "' is read-only"))
    | none => throw (← noAttribute h levels v name)

/-- The names of the attributes of a value, sorted. -/
def attributeNames (h : Heap) (levels : Nat) (v : Value) : Except Fault (List Text) := do
  let _ ← v.kind
  match v with
  | .dict r =>
    return Text.sorted (← (h.dict r).toList.mapM fun e => h.format levels e.keyValue)
  | v => return ((h.module? v).map Module.names).getD []

/-- The hash of the text of a value. -/
def hash (h : Heap) (levels : Nat) (v : Value) : Except Fault Nat := do
  return (← h.repr levels v).hash

end Inspection

end Scriptlet
