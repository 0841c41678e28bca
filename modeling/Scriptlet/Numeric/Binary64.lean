import Scriptlet.Numeric.Power

/-
  Exact values of double precision numbers.

  A finite double is a sign, a natural number `m` and an integer `e`, and its value is `m * 2 ^ e`.
  Every conversion of this module goes through that form and exact natural number arithmetic:
  rounding a quotient of natural numbers to the nearest double (an exact half goes to the even
  neighbour), the integer part of a double, and the remainder of two doubles.
-/

namespace Scriptlet

namespace Binary64

/-- What the bits of a double say. -/
inductive Parts where
  /-- Not a number. -/
  | nan
  | infinite (negative : Bool)
  /-- The value `m * 2 ^ e`, with its sign. -/
  | finite (negative : Bool) (m : Nat) (e : Int)
  deriving DecidableEq

/-- The sign and value of a double. -/
def parts (x : Float) : Parts :=
  let bits := x.toBits.toNat
  let negative := bits / twoTo 63 == 1
  let exponent : Nat := bits / twoTo 52 % twoTo 11
  let fraction := bits % twoTo 52
  if exponent = 2047 then (if fraction = 0 then .infinite negative else .nan)
  else if exponent = 0 then .finite negative fraction (-1074)
  else .finite negative (twoTo 52 + fraction) (exponent - 1075)

def infinity : Float := Float.ofBits 0x7FF0000000000000

def nan : Float := Float.ofBits 0x7FF8000000000000

/-- Whether the sign bit is set, also that of zero. -/
def isNegative (x : Float) : Bool := x.toBits.toNat / twoTo 63 == 1

def isNaN (x : Float) : Bool :=
  match parts x with
  | .nan => true
  | _ => false

def isFinite (x : Float) : Bool :=
  match parts x with
  | .finite _ _ _ => true
  | _ => false

/-- The absolute value of `x` with the sign of `y`. -/
def copySign (x y : Float) : Float :=
  if isNegative x == isNegative y then x else -x

/-- The quotient rounded to the nearest integer, an exact half to the even one. -/
def roundDiv (num den : Nat) : Nat :=
  let quotient := num / den
  let twice := 2 * (num % den)
  if twice < den then quotient
  else if twice = den then quotient + quotient % 2
  else quotient + 1

/-- The double nearest to `num / den`, or infinity if that is too large; `den` is not zero. -/
def ofRatio (negative : Bool) (num den : Nat) : Float :=
  let signBit := if negative then twoTo 63 else 0
  if num = 0 then Float.ofBits (UInt64.ofNat signBit)
  else
    -- `scale` is at most one below the exponent that leaves 53 digits before the point
    let scale : Int := (num.log2 : Int) - den.log2 - 53
    let wide := if scale ≥ 0 then num / (den * twoTo scale.toNat) else num * twoTo (-scale).toNat / den
    let scale := if wide ≥ twoTo 53 then scale + 1 else scale
    let scale := if scale < -1074 then -1074 else scale
    let digits :=
      if scale ≥ 0 then roundDiv num (den * twoTo scale.toNat)
      else roundDiv (num * twoTo (-scale).toNat) den
    let bits := (scale + 1074).toNat * twoTo 52 + digits
    let bits := if bits ≥ 2047 * twoTo 52 then 2047 * twoTo 52 else bits
    Float.ofBits (UInt64.ofNat (signBit + bits))

/-- The double nearest to an integer, unless that is too large. -/
def ofInt? (n : Int) : Option Float :=
  let x := ofRatio (n < 0) n.natAbs 1
  if isFinite x then some x else none

/-- The double nearest to `num * 10 ^ exponent`, or infinity if that is too large. -/
def ofDecimal (negative : Bool) (num : Nat) (exponent : Int) : Float :=
  if num = 0 then ofRatio negative 0 1
  else
    -- the value lies between `2 ^ log2 num * 10 ^ exponent` and twice that
    let size : Int := (num.log2 : Int) * 30103 / 100000 + exponent
    if size > 400 then ofRatio negative (twoTo 1100) 1
    else if size < -500 then ofRatio negative 0 1
    else if exponent ≥ 0 then ofRatio negative (num * tenTo exponent.toNat) 1
    else ofRatio negative num (tenTo (-exponent).toNat)

/-- The integer part towards negative infinity of `m * 2 ^ e` with its sign. -/
def floorParts (negative : Bool) (m : Nat) (e : Int) : Int :=
  let signed : Int := if negative then -m else m
  if e ≥ 0 then signed * twoTo e.toNat else Int.fdiv signed (twoTo (-e).toNat)

/-- The greatest integer that is at most `x`, if `x` is finite. -/
def floor? (x : Float) : Option Int :=
  match parts x with
  | .finite negative m e => some (floorParts negative m e)
  | _ => none

/-- The least integer that is at least `x`, if `x` is finite. -/
def ceil? (x : Float) : Option Int := (floor? (-x)).map (- ·)

/-- The integer part of `x` towards zero, if `x` is finite. -/
def truncate? (x : Float) : Option Int := if isNegative x then ceil? x else floor? x

/-- Whether `x` is finite and has no fraction. -/
def isIntegral (x : Float) : Bool :=
  match parts x with
  | .finite _ m e => e ≥ 0 || m % twoTo (-e).toNat == 0
  | _ => false

/-- The floor of `x` as a double; an infinity, a NaN and a zero stay what they are. -/
def floor (x : Float) : Float :=
  if x == 0 then x
  else match floor? x with
    | some n => ofRatio (n < 0) n.natAbs 1
    | none => x

/-- The remainder of the division of `x` by `y` towards zero; it has the sign of `x`. -/
def remainder (x y : Float) : Float :=
  match parts x, parts y with
  | .nan, _ => nan
  | _, .nan => nan
  | .infinite _, _ => nan
  | .finite _ _ _, .infinite _ => x
  | .finite negative m e, .finite _ n f =>
    if n = 0 then nan
    else
      let low := min e f
      let rest := m * twoTo (e - low).toNat % (n * twoTo (f - low).toNat)
      if low ≥ 0 then ofRatio negative (rest * twoTo low.toNat) 1
      else ofRatio negative rest (twoTo (-low).toNat)

/-- The remainder of the division to the floor; it has the sign of `y`. -/
def floorMod (x y : Float) : Float :=
  let rest := remainder x y
  if rest == 0 then copySign 0 y
  else if (y < 0) != (rest < 0) then rest + y
  else rest

/-- Quotient and remainder of the division to the floor. -/
def floorDivMod (x y : Float) : Float × Float :=
  let rest := remainder x y
  let quotient := (x - rest) / y
  let (quotient, rest) :=
    if rest == 0 then (quotient, copySign 0 y)
    else if (y < 0) != (rest < 0) then (quotient - 1, rest + y)
    else (quotient, rest)
  if quotient == 0 then (copySign 0 (x / y), rest)
  else
    let whole := floor quotient
    (if quotient - whole > 0.5 then whole + 1 else whole, rest)

/-- The order of an integer and a finite double's exact value: less, equal or greater. -/
def compareInt (n : Int) (negative : Bool) (m : Nat) (e : Int) : Ordering :=
  let signed : Int := if negative then -m else m
  if e ≥ 0 then compare n (signed * twoTo e.toNat) else compare (n * twoTo (-e).toNat) signed

end Binary64

end Scriptlet
