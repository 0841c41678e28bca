/-
  Integer arithmetic that the language adds to the four operations.

  Division and remainder go to the floor (`Int.fdiv`, `Int.fmod`), so a remainder has the sign of
  the divisor. Here stand the bit length of an integer, the remainder of a power by repeated
  squaring, inverses modulo an integer, and factorials.
-/

namespace Scriptlet

namespace Integer

/-- The number of binary digits of the absolute value; zero has none. -/
def bitLength (n : Int) : Nat := if n = 0 then 0 else n.natAbs.log2 + 1

/-- A power; those of zero and of the units need no multiplication. -/
def power (base : Int) (exponent : Nat) : Int :=
  if exponent = 0 then 1
  else if base.natAbs ≤ 1 then if exponent % 2 = 0 then base * base else base
  else
    let size := Nat.pow base.natAbs exponent
    if base < 0 && exponent % 2 = 1 then -(size : Int) else size

/-- The floor remainder of `base ^ exponent` by `modulus`, without forming the power. -/
def powMod (base : Int) (exponent : Nat) (modulus : Int) : Int :=
  if exponent = 0 then Int.fmod 1 modulus
  else
    let half := powMod base (exponent / 2) modulus
    let square := Int.fmod (half * half) modulus
    if exponent % 2 = 0 then square else Int.fmod (square * Int.fmod base modulus) modulus
  termination_by exponent
  decreasing_by exact Nat.div_lt_self (Nat.pos_of_ne_zero ‹_›) (by decide)

/-- The greatest common divisor of `a` and `b` and a factor `x` with `a * x ≡ gcd` modulo `b`, where
`u` and `v` are the factors of `a` reached so far. -/
def gcdFactor (a b : Nat) (u v : Int) : Nat × Int :=
  if b = 0 then (a, u)
  else gcdFactor b (a % b) v (u - (a / b : Nat) * v)
  termination_by b
  decreasing_by exact Nat.mod_lt _ (Nat.pos_of_ne_zero ‹_›)

/-- The inverse of `a` modulo `m`, if there is one. -/
def inverseMod? (a m : Int) : Option Int :=
  let size := m.natAbs
  let (divisor, factor) := gcdFactor (Int.fmod a size).toNat size 1 0
  if divisor = 1 then some (Int.fmod factor m) else none

/-- The product of the numbers from `low + 1` to `low + count`, split in halves. -/
def productAbove (low count : Nat) : Nat :=
  if count ≤ 1 then (if count = 0 then 1 else low + 1)
  else productAbove low (count / 2) * productAbove (low + count / 2) (count - count / 2)
  termination_by count
  decreasing_by all_goals omega

/-- The product of the numbers from one to `n`. -/
def factorial (n : Nat) : Nat := productAbove 0 n

end Integer

end Scriptlet
