import Scriptlet.Numeric.Power
import Scriptlet.Operation

/-
  Functions of the library of mathematics.

  A result that is no number though the argument is one, or that is infinite though the argument is
  not, is an error: of the domain, or of the range where results outgrow all doubles. The logarithm of
  an integer that no double is near to is taken of its leading bits.
-/

namespace Scriptlet

namespace Mathematics

def domainError : Fault := .of .badValue "math domain error"

/-- The value of a function of doubles; `overflow` is the error of an infinite one. -/
def applied (f : Float → Float) (overflow : Fault) (x : Float) : Except Fault Float :=
  let y := f x
  if Binary64.isNaN y && !Binary64.isNaN x then .error domainError
  else if !Binary64.isNaN y && !Binary64.isFinite y && Binary64.isFinite x then .error overflow
  else .ok y

/-- A function of doubles that is defined where its value is a number. -/
def real (f : Float → Float) (v : Value) : Run Value := do
  Run.newFloat (← applied f domainError (← v.toReal))

/-- The exponential of a number. -/
def exponential (v : Value) : Run Value := do
  Run.newFloat (← applied Float.exp (.of .overflow "math range error") (← v.toReal))

/-- A number times a factor. -/
def scaled (factor : Float) (v : Value) : Run Value := do Run.newFloat ((← v.toReal) * factor)

/-- The degrees that make a radian. -/
def degreesPerRadian : Float := 180 / 3.141592653589793

/-- The radians that make a degree. -/
def radiansPerDegree : Float := 3.141592653589793 / 180

/-- A logarithm of a positive integer by its leading bits and their place. -/
def largeLogarithm (f : Float → Float) (n : Nat) : Float :=
  let bits := n.log2 + 1
  let leading := Binary64.ofRatio false n (twoTo bits)
  let (leading, bits) := if leading == 1 then (0.5, bits + 1) else (leading, bits)
  f leading + f 2 * Binary64.ofRatio false bits 1

/-- A logarithm of a number. -/
def logarithm (f : Float → Float) (v : Value) : Except Fault Float := do
  match v.integer? with
  | some n =>
    if n ≤ 0 then throw domainError
    else
      match Binary64.ofInt? n with
      | some x => return f x
      | none => return largeLogarithm f n.toNat
  | none => applied f domainError (← v.toReal)

/-- The logarithm of a number to a base, the natural one if there is none. -/
def logarithmTo (v base : Value) : Run Value := do
  let x ← logarithm Float.log v
  match base with
  | .none => Run.newFloat x
  | base =>
    let y ← logarithm Float.log base
    Operation.ofComputed (← Number.computeFloats .div x y)

/-- The greatest integer up to a number. -/
def floor (v : Value) : Except Fault Int := do
  match v.integer? with
  | some n => return n
  | none => floorOf (← v.toReal)

/-- The least integer from a number on. -/
def ceiling (v : Value) : Except Fault Int := do
  match v.integer? with
  | some n => return n
  | none => return -(← floorOf (-(← v.toReal)))

/-- The factorial of an integer, which may be given as a double. -/
def factorial (v : Value) : Except Fault Int := do
  v.requireNumber "factorial()"
  let negative : Bool := match v.number? with
    | some (.int n) => n < 0
    | some (.float x) => x < 0
    | none => false
  if negative then throw (.badValue "factorial() not defined for negative values")
  let n ← match v with
    | .float x =>
      if Binary64.isFinite x && !Binary64.isIntegral x then
        throw (.badValue "factorial() only accepts integral values")
      else truncate x
    | .nan _ => truncate Binary64.nan
    | v => pure (v.integer?.getD 0)
  if n ≥ twoTo 63 then
    throw (.of .overflow "factorial() argument should not exceed 9223372036854775807")
  return Integer.factorial n.toNat

end Mathematics

end Scriptlet
