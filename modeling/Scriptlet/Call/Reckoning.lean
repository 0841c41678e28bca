import Scriptlet.Numeric.Power
import Scriptlet.Operation

/-
  Functions of numbers that need no import.

  The greatest and the least of some values are the first ones that no other one exceeds. Halves are
  rounded up. Powers with a modulus are computed modulo it and so are not limited in their bits.
-/

namespace Scriptlet

namespace Reckoning

/-- The values that are given, those of lists, tuples and sets taken out of them. -/
def flattened (h : Heap) (args : List Value) (context : Text) : Except Fault (List Value) := do
  let parts ← args.mapM fun v => do
    let k ← v.kind
    return if k == .list || k == .tuple || k == .set then (h.elements? v).getD [] else [v]
  match parts.flatten with
  | [] => throw (.badValue (context ++ " arg is an empty sequence"))
  | values => return values

/-- The first value that is before no other one in the order of `op`. -/
def extreme (h : Heap) (op : OrderOp) (levels : Nat) (values : List Value) : Except Fault Value :=
  match values with
  | [] => .ok .none
  | first :: rest =>
    rest.foldlM (fun best v => do return if ← h.ordered op levels v best then v else best) first

/-- The number that a value is. -/
def number (v : Value) (context : Text) : Except Fault Number := do
  v.requireNumber context
  return v.number?.getD (.int 0)

/-- A computed number that is not complex. -/
def real (c : Computed) : Number :=
  match c with
  | .int n => .int n
  | .float x => .float x
  | .complex re _ => .float re

/-- The real result of an operation. -/
def compute (op : BinaryOp) (a b : Number) : Except Fault Number := do
  return real (← Number.compute op a b)

/-- The number without its sign. -/
def absolute (v : Value) : Run Value := do
  let n ← number v "abs()"
  Operation.ofNumber n.absolute

/-- A start value and numbers summed up. -/
def sum (items start : Value) : Run Value := do
  start.requireNumber "sum()"
  let values ← Run.look fun h => h.iterate items "sum()"
  values.foldlM (fun total v => do
    let n ← number v "sum()"
    Operation.ofComputed (← Number.compute .add (total.number?.getD (.int 0)) n)) start

/-- The greatest integer up to a number. -/
def floor (n : Number) : Except Fault Int :=
  match n with
  | .int n => .ok n
  | .float x => floorOf x

/-- The integer part of a number. -/
def whole (n : Number) : Except Fault Int :=
  match n with
  | .int n => .ok n
  | .float x => truncate x

/-- A number rounded to `digits` places, an integer unless they are behind the point. -/
def round (v digits : Value) : Run Value := do
  v.requireNumber "round()"
  let places ← digits.requireInteger "round()"
  let n ← number v "round()"
  let factor ← compute .pow (.int 10) (.int places)
  let shifted ← compute .add (← compute .mul n factor) (.float 0.5)
  let result ← compute .div (.int (← floor shifted)) factor
  if places ≤ 0 then return .int (← whole result)
  else Operation.ofNumber result

/-- The remainder of a power, which may be complex. -/
def powerRemainder (c : Computed) (modulus : Value) : Run Value := do
  modulus.requireNumber "pow()"
  match c with
  | .complex re im => throw (Operation.mismatch .mod (.complex re im) modulus)
  | c => Operation.ofNumber (← compute .mod (real c) (← number modulus "pow()"))

/-- A power of numbers within the limit on bits, or its remainder by a modulus. -/
def plainPower (limits : Limits) (x y modulus : Value) : Run Value := do
  Run.requireBits limits (Operation.bitEstimate .pow x y)
  let result ← Number.compute .pow (← number x "pow()") (← number y "pow()")
  match modulus with
  | .none => Operation.ofComputed result
  | modulus => powerRemainder result modulus

/-- A power, or its remainder by a modulus. -/
def power (limits : Limits) (x y modulus : Value) : Run Value := do
  x.requireNumber "pow()"
  y.requireNumber "pow()"
  match modulus, x.integer?, y.integer? with
  | .none, _, _ => plainPower limits x y .none
  | modulus, some m, some n =>
    return .int (← Number.powerMod m n (← modulus.requireInteger "pow()"))
  | modulus, _, _ => plainPower limits x y modulus

/-- Floor quotient and remainder. -/
def quotientAndRest (a b : Value) : Run Value := do
  let m ← number a "divmod()"
  let n ← number b "divmod()"
  let (quotient, rest) ← Number.divMod m n
  Run.newTuple [← Operation.ofNumber quotient, ← Operation.ofNumber rest]

/-- The number of terms from `start` in steps of `step` before `stop`. -/
def rangeCount (start stop step : Int) : Nat :=
  if step > 0 then if start < stop then ((stop - start - 1) / step + 1).toNat else 0
  else if stop < start then ((start - stop - 1) / (-step) + 1).toNat else 0

/-- The terms of an arithmetic progression. -/
def progression (start step : Int) (count : Nat) : List Int :=
  (List.range count).map fun (i : Nat) => start + (i : Int) * step

/-- The list of an arithmetic progression. -/
def range (limits : Limits) (args : List Value) : Run Value := do
  if args.isEmpty || args.length > 3 then
    throw (.badType ("range expected 1 to 3 arguments, got " ++ Text.ofNat args.length))
  let bounds ← args.mapM fun v => Run.lift (v.requireInteger "range()")
  let (start, stop, step) := match bounds with
    | [stop] => (0, stop, 1)
    | [start, stop] => (start, stop, 1)
    | [start, stop, step] => (start, stop, step)
    | _ => (0, 0, 1)
  if step = 0 then throw (.badValue "range() arg 3 must not be zero")
  let count := rangeCount start stop step
  if count ≥ twoTo 63 then throw (.of .overflow "Python int too large to convert to C ssize_t")
  Run.requireSize limits count
  Run.newList ((progression start step count).map .int)

end Reckoning

end Scriptlet
