import Scriptlet.Numeric.Binary64
import Scriptlet.Numeric.Power

/-
  The shortest decimal of a double.

  Of all decimals that read back as a given double, the shortest one has the fewest digits, and of
  those with that many digits it is the nearest to the double, the even one if two are. It is found by trying one digit, two
  digits and so on: if any decimal of a given length reads back, then one of the two neighbours of
  the double on that decimal grid does.
-/

namespace Scriptlet

namespace Shortest

/-- A decimal `0.d₁d₂… * 10 ^ point`, its digits as one number `digits` of `count` places. -/
structure Decimal where
  digits : Nat
  count : Nat
  point : Int
  deriving DecidableEq

/-- The double `m * 2 ^ e` over the common denominator `den`, with the bounds of the interval of
reals that round to it. -/
structure Interval where
  low : Nat
  value : Nat
  high : Nat
  den : Nat
  /-- Whether the bounds themselves round to the double. -/
  closed : Bool

/-- The interval of the reals that round to `m * 2 ^ e`. -/
def Interval.of (m : Nat) (e : Int) : Interval :=
  -- below a power of two the neighbour is half as far away
  let step := if m = twoTo 52 && e > -1074 then 1 else 2
  let scale := e - 2
  let factor := if scale ≥ 0 then twoTo scale.toNat else 1
  { low := (4 * m - step) * factor
    value := 4 * m * factor
    high := (4 * m + 2) * factor
    den := if scale ≥ 0 then 1 else twoTo (-scale).toNat
    closed := m % 2 == 0 }

/-- Whether `c * 10 ^ s` lies in the interval. -/
def Interval.contains (i : Interval) (c : Nat) (s : Int) : Bool :=
  let (a, b) := if s ≥ 0 then (c * tenTo s.toNat * i.den, 1) else (c * i.den, tenTo (-s).toNat)
  if i.closed then i.low * b ≤ a && a ≤ i.high * b else i.low * b < a && a < i.high * b

/-- The number of digits before the decimal point of the value, or minus the number of zeros behind
it: the `p` with `10 ^ (p - 1) ≤ value < 10 ^ p`. -/
def Interval.magnitude (i : Interval) : Int :=
  let guess : Int := ((i.value.log2 : Int) - i.den.log2 - 1) * 30103 / 100000
  let atLeast := fun (p : Int) =>
    if p ≥ 0 then tenTo p.toNat * i.den ≤ i.value else i.den ≤ i.value * tenTo (-p).toNat
  if atLeast (guess + 2) then guess + 3
  else if atLeast (guess + 1) then guess + 2
  else if atLeast guess then guess + 1
  else guess

/-- The neighbour of the value on the grid of `count` digits that lies in the interval, the nearer
one if both do. -/
def Interval.onGrid? (i : Interval) (magnitude : Int) (count : Nat) : Option Decimal :=
  let s := magnitude - count
  let (num, den) :=
    if s ≥ 0 then (i.value, i.den * tenTo s.toNat) else (i.value * tenTo (-s).toNat, i.den)
  let below := num / den
  let nearer := Binary64.roundDiv num den
  let farther := if nearer = below then below + 1 else below
  let decimal := fun c =>
    if c = tenTo count then (⟨c / 10, count, magnitude + 1⟩ : Decimal) else ⟨c, count, magnitude⟩
  if i.contains nearer s then some (decimal nearer)
  else if i.contains farther s then some (decimal farther)
  else none

/-- The first grid of at least `count` digits with a decimal in the interval. -/
def Interval.shortest (i : Interval) (magnitude : Int) : Nat → Nat → Decimal
  | 0, _ => ⟨0, 1, 1⟩
  | tries + 1, count =>
    match i.onGrid? magnitude count with
    | some d => d
    | none => i.shortest magnitude tries (count + 1)

/-- The shortest decimal of `m * 2 ^ e`; seventeen digits always suffice. -/
def decimal (m : Nat) (e : Int) : Decimal :=
  if m = 0 then ⟨0, 1, 1⟩
  else
    let i := Interval.of m e
    i.shortest i.magnitude 17 1

end Shortest

end Scriptlet
