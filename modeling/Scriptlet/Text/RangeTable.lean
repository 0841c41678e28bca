/-
  Classes of code points given by a table of ranges.

  A class is written as the ascending list of the points where membership changes: the class begins
  at the first bound, ends before the second, begins again at the third, and so on. A code point
  belongs to the class when an odd number of bounds are at most its value, and that number is found
  by bisection.
-/

namespace Scriptlet

/-- The ascending bounds at which membership in a class changes, starting from outside. -/
structure RangeTable where
  bounds : Array Nat

namespace RangeTable

/-- The number of bounds that are at most `n`, known to lie between `low` and `high`. -/
def rankBetween (bounds : Array Nat) (n : Nat) : Nat → Nat → Nat → Nat
  | 0, low, _ => low
  | steps + 1, low, high =>
    if high ≤ low then low
    else
      let middle := (low + high) / 2
      if bounds.getD middle 0 ≤ n then rankBetween bounds n steps (middle + 1) high
      else rankBetween bounds n steps low middle

/-- The number of bounds that are at most `n`. -/
def rank (table : RangeTable) (n : Nat) : Nat :=
  rankBetween table.bounds n 32 0 table.bounds.size

def contains (table : RangeTable) (n : Nat) : Bool := table.rank n % 2 == 1

end RangeTable

end Scriptlet
