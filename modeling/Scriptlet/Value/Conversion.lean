import Scriptlet.Value.Printing

/-
  Implicit conversions of values.

  One rule each for truth, for integers and doubles made from any value, for the elements that a
  value runs through, and for taking a sequence apart into a fixed number of values.
-/

namespace Scriptlet

/-- The failure of an integer that no double is near to. -/
def integerTooLarge : Fault := .of .overflow "int too large to convert to float"

/-- The double nearest to an integer. -/
def floatOfInt (n : Int) : Except Fault Float :=
  match Binary64.ofInt? n with
  | some x => .ok x
  | none => .error integerTooLarge

/-- The integer part of a double towards zero. -/
def truncate (x : Float) : Except Fault Int :=
  match Binary64.parts x with
  | .nan => .error (.of .badValue "cannot convert float NaN to integer")
  | .infinite _ => .error (.of .overflow "cannot convert float infinity to integer")
  | .finite _ _ _ => .ok ((Binary64.truncate? x).getD 0)

/-- The greatest integer that is at most a double. -/
def floorOf (x : Float) : Except Fault Int :=
  match Binary64.parts x with
  | .nan => .error (.of .badValue "cannot convert float NaN to integer")
  | .infinite _ => .error (.of .overflow "cannot convert float infinity to integer")
  | .finite _ _ _ => .ok ((Binary64.floor? x).getD 0)

namespace Heap

/-- Whether a value counts as true. -/
def truthy (h : Heap) (v : Value) : Except Fault Bool :=
  match v with
  | .none => .ok false
  | .bool b => .ok b
  | .int n => .ok (n != 0)
  | .float x => .ok (x != 0)
  | .text t => .ok (!t.isEmpty)
  | .list r => .ok (!(h.list r).isEmpty)
  | .tuple r => .ok (!(h.tuple r).isEmpty)
  | .dict r => .ok (!(h.dict r).isEmpty)
  | .set r => .ok (!(h.set r).isEmpty)
  | .nan _ | .library _ | .record _ | .function _ => .ok true
  | .complex _ _ => .error Value.unsupported

/-- The number of elements of a container. -/
def size (h : Heap) (v : Value) : Nat :=
  match v with
  | .text t => t.length
  | .list r => (h.list r).size
  | .tuple r => (h.tuple r).size
  | .dict r => (h.dict r).size
  | .set r => (h.set r).size
  | _ => 0

/-- The elements that a container runs through, if the value is one. The order in which the members of a
set were put in stands for the order in which a host runs through them, which depends on their hashes and on
the table that they are kept in. -/
def elements? (h : Heap) (v : Value) : Option (List Value) :=
  match v with
  | .text t => some (t.map fun c => .text [c])
  | .list r => some (h.list r).toList
  | .tuple r => some (h.tuple r).toList
  | .dict r => some ((h.dict r).toList.map Entry.keyValue)
  | .set r => some ((h.set r).toList.map Member.value)
  | _ => Option.none

/-- The elements that a value runs through. -/
def iterate (h : Heap) (v : Value) (context : Text) : Except Fault (List Value) := do
  let k ← v.kind
  match h.elements? v with
  | some items => return items
  | Option.none => throw (.badType ("'" ++ k.name ++ "' object is not iterable in " ++ context))

/-- The elements of a list or tuple of exactly `count` elements. -/
def unpack (h : Heap) (levels : Nat) (v : Value) (count : Nat) : Except Fault (List Value) := do
  let refuse : Except Fault (List Value) := do
    throw (.badValue ("unpacking count mismatch: expected " ++ Text.ofNat count ++ " values from " ++
      (← h.repr levels v)))
  let _ ← v.kind
  match v with
  | .list r => if (h.list r).size = count then return (h.list r).toList else refuse
  | .tuple r => if (h.tuple r).size = count then return (h.tuple r).toList else refuse
  | _ => refuse

end Heap

namespace Value

/-- The integer that a value is converted to. -/
def toInteger (v : Value) : Except Fault Int :=
  match v with
  | .bool b => .ok (if b then 1 else 0)
  | .int n => .ok n
  | .float x =>
    match Binary64.truncate? x with
    | some n => .ok n
    | Option.none =>
      .error (.badValue ("cannot convert float " ++ FloatText.plain x ++ " to integer"))
  | .nan _ => .error (.badValue "cannot convert float nan to integer")
  | .text t =>
    match NumberText.readInt? t.trim with
    | some n => .ok n
    | Option.none => .error (.badValue ("invalid literal for int() with base 10: " ++ t.quoted))
  | v => do
    let k ← v.kind
    throw (.badType ("int() argument must be a string or a number, not '" ++ k.name ++ "'"))

/-- The double that a value is converted to. -/
def toFloat (v : Value) : Except Fault Float :=
  match v with
  | .bool b => .ok (if b then 1 else 0)
  | .int n => floatOfInt n
  | .float x => .ok x
  | .nan _ => .ok Binary64.nan
  | .text t =>
    match NumberText.readFloat? t.trim with
    | some x => .ok x
    | Option.none => .error (.badValue ("could not convert string to float: " ++ t.quoted))
  | v => do
    let k ← v.kind
    throw (.badType ("float() argument must be a string or a number, not '" ++ k.name ++ "'"))

/-- The double that a value is where a real number is wanted. -/
def toReal (v : Value) : Except Fault Float :=
  match v with
  | .float x => .ok x
  | .nan _ => .ok Binary64.nan
  | v =>
    match v.integer? with
    | some n => floatOfInt n
    | Option.none => .error (.of .badType ("must be real number, not " ++ v.typeName))

/-- Refuses what is no number. -/
def requireNumber (v : Value) (context : Text) : Except Fault Unit := do
  let k ← v.kind
  if !k.isNumeric then
    throw (.badType (context ++ " requires a number, not '" ++ k.name ++ "'"))

/-- The integer that a value is where an integer is wanted. -/
def requireInteger (v : Value) (context : Text) : Except Fault Int := do
  let k ← v.kind
  match v.integer? with
  | some n => return n
  | Option.none =>
    throw (.badType ("'" ++ k.name ++ "' object cannot be interpreted as an integer in " ++ context))

end Value

end Scriptlet
