import Scriptlet.Numeric.Integer

/-
  The limits of a run.

  A script may use only so much source, nesting, output, arguments, elements and digits. The caps
  are integers and may be negative, which leaves nothing. The count of iterations of a `while` loop
  is capped once and for all.
-/

namespace Scriptlet

/-- The caps on one run. -/
structure Limits where
  maxSourceLength : Int
  maxNestingDepth : Int
  /-- Over all lines, each counted with its line feed. -/
  maxOutputSize : Int
  maxCallArguments : Int
  maxCollectionSize : Int
  maxIntBits : Int
  deriving DecidableEq

/-- The limits that hold unless others are asked for. -/
def Limits.standard : Limits := ⟨100000, 50, 1000000, 256, 1000000, 100000⟩

/-- The greatest number of times that a `while` loop runs its body. -/
def maxWhileIterations : Nat := 10000

namespace Integer

/-- An upper estimate of the bit length of a product. -/
def productBits (left right : Int) : Nat := bitLength left + bitLength right

/-- An upper estimate of the bit length of a power, zero where it cannot be large. -/
def powerBits (base exponent : Int) : Nat :=
  if exponent ≤ 0 || base.natAbs ≤ 1 then 0 else bitLength base * exponent.toNat

end Integer

end Scriptlet
