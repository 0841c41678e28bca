import Scriptlet.Value.Key

/-
  Equality and order of values.

  Numbers are compared by their exact values, whatever their types. Texts are ordered by code point,
  lists and tuples by their first elements that differ, and sets by inclusion. Inside containers an
  object always equals itself. Comparing takes the levels of nesting that there is room for.
-/

namespace Scriptlet

namespace Number

/-- The order of an integer and a double; a NaN has none. -/
def compareIntFloat (n : Int) (x : Float) : Option Ordering :=
  match Binary64.parts x with
  | .nan => none
  | .infinite negative => some (if negative then .gt else .lt)
  | .finite negative m e => some (Binary64.compareInt n negative m e)

/-- The order of two doubles; a NaN has none. -/
def compareFloats (x y : Float) : Option Ordering :=
  if x < y then some .lt else if x > y then some .gt else if x == y then some .eq else none

end Number

namespace Value

/-- The order of two numbers, `none` if one of them is NaN; the outer `none` if they are not both real
numbers. -/
def compareNumbers? (a b : Value) : Option (Option Ordering) :=
  match a, b with
  | .nan _, .nan _ | .nan _, .float _ | .nan _, .int _ | .nan _, .bool _ => some Option.none
  | .float _, .nan _ | .int _, .nan _ | .bool _, .nan _ => some Option.none
  | .float x, .float y => some (Number.compareFloats x y)
  | .float x, b => b.integer?.map fun n => (Number.compareIntFloat n x).map Ordering.swap
  | a, .float y => a.integer?.map fun n => Number.compareIntFloat n y
  | a, b =>
    match a.integer?, b.integer? with
    | some m, some n => some (some (compare m n))
    | _, _ => Option.none

/-- Whether a complex number equals another number. -/
def complexEquals (re im : Float) (v : Value) : Bool :=
  match v with
  | .complex re' im' => re == re' && im == im'
  | v => im == 0 && (compareNumbers? (.float re) v == some (some .eq))

end Value

/-- Whether `test` holds of every element; the first one that it fails of ends the search. -/
def allHold {α : Type} (test : α → Except Fault Bool) : List α → Except Fault Bool
  | [] => return true
  | a :: as => do
    if ← test a then allHold test as else return false

/-- Whether `test` holds of some element; the first one that it holds of ends the search. -/
def someHolds {α : Type} (test : α → Except Fault Bool) : List α → Except Fault Bool
  | [] => return false
  | a :: as => do
    if ← test a then return true else someHolds test as

/-- The first pair of elements that differ. -/
def firstDifference (same : Value → Value → Except Fault Bool) :
    List Value → List Value → Except Fault (Option (Value × Value))
  | a :: as, b :: bs => do
    if ← same a b then firstDifference same as bs else return some (a, b)
  | _, _ => return none

namespace Heap

/-- Whether two values are equal. -/
def equal (h : Heap) : Nat → Value → Value → Except Fault Bool
  | 0, _, _ => .error .tooDeep
  | levels + 1, a, b =>
    let same (x y : Value) : Except Fault Bool := if x = y then .ok true else h.equal levels x y
    match a, b with
    | .complex re im, b => .ok (b.complexEquals re im)
    | a, .complex re im => .ok (a.complexEquals re im)
    | .list r, .list s =>
      let xs := h.list r
      let ys := h.list s
      if xs.size = ys.size then allHold (fun p => same p.1 p.2) (xs.toList.zip ys.toList)
      else .ok false
    | .tuple r, .tuple s =>
      let xs := h.tuple r
      let ys := h.tuple s
      if xs.size = ys.size then allHold (fun p => same p.1 p.2) (xs.toList.zip ys.toList)
      else .ok false
    | .dict r, .dict s =>
      let xs := h.dict r
      let ys := h.dict s
      if xs.size = ys.size then
        allHold (fun (e : Entry) =>
          match Entry.find? ys e.key with
          | some v => same e.value v
          | Option.none => .ok false) xs.toList
      else .ok false
    | .set r, .set s =>
      let xs := h.set r
      let ys := h.set s
      .ok (xs.size == ys.size && xs.all fun m => ys.any fun n => n.key == m.key)
    | a, b =>
      match a.compareNumbers? b with
      | some order => .ok (order == some .eq)
      | Option.none => .ok (a == b)

/-- Whether two values are the same object or equal. -/
def same (h : Heap) (levels : Nat) (a b : Value) : Except Fault Bool :=
  if a = b then .ok true else h.equal levels a b

end Heap

/-- The comparisons that put values in an order. -/
inductive OrderOp where
  | lt
  | gt
  | le
  | ge
  deriving DecidableEq

namespace OrderOp

def symbol : OrderOp → String
  | .lt => "<"
  | .gt => ">"
  | .le => "<="
  | .ge => ">="

/-- Whether an order of two values is what the comparison asks for. -/
def holds : OrderOp → Ordering → Bool
  | .lt, o => o == .lt
  | .gt, o => o == .gt
  | .le, o => o != .gt
  | .ge, o => o != .lt

end OrderOp

/-- The order of two texts by code point. -/
def Text.order (s t : Text) : Ordering :=
  if Text.before s t then .lt else if Text.before t s then .gt else .eq

/-- The failure of comparing two values that have no order. -/
def unordered (op : OrderOp) (a b : Value) : Fault :=
  .of .badType <|
    "'" ++ op.symbol ++ "' not supported between instances of '" ++ a.typeName ++ "' and '" ++
      b.typeName ++ "'"

/-- Whether every member of the first set is in the second one. -/
def Member.subset (xs ys : Array Member) : Bool := xs.all fun m => ys.any fun n => n.key == m.key

namespace Heap

/-- Whether two values are in the order that `op` asks for. -/
def ordered (h : Heap) (op : OrderOp) : Nat → Value → Value → Except Fault Bool
  | 0, _, _ => .error .tooDeep
  | levels + 1, a, b => do
    let sequences (xs ys : Array Value) : Except Fault Bool := do
      match ← firstDifference (h.same levels) xs.toList ys.toList with
      | some (x, y) => h.ordered op levels x y
      | Option.none => return op.holds (compare xs.size ys.size)
    match a, b with
    | .text s, .text t => return op.holds (Text.order s t)
    | .list r, .list s => sequences (h.list r) (h.list s)
    | .tuple r, .tuple s => sequences (h.tuple r) (h.tuple s)
    | .set r, .set s =>
      let xs := h.set r
      let ys := h.set s
      return match op with
        | .le => Member.subset xs ys
        | .ge => Member.subset ys xs
        | .lt => xs.size < ys.size && Member.subset xs ys
        | .gt => ys.size < xs.size && Member.subset ys xs
    | a, b =>
      match a.compareNumbers? b with
      | some order => return (order.map op.holds).getD false
      | Option.none => throw (unordered op a b)

end Heap

end Scriptlet
