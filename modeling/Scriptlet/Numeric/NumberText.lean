import Scriptlet.Numeric.Binary64
import Scriptlet.Numeric.Power
import Scriptlet.Text.Blank
import Scriptlet.Text.Digit

/-
  Numbers read from text.

  Digits of every script count, and an underscore may stand between two digits. Integers are
  converted from and to text only up to 4300 digits, leading zeros included.
-/

namespace Scriptlet

namespace NumberText

/-- The greatest number of digits that is converted between an integer and its text. -/
def maxDigits : Nat := 4300

/-- The decimal text of an integer of at most 4300 digits. -/
def ofInt? (n : Int) : Option Text :=
  if n.natAbs < tenTo maxDigits then some (Text.ofInt n) else none

/-- The number written by the given digits; other code points count as zeros. -/
def digitsValue (digits : Text) : Nat :=
  digits.foldl (fun n c => 10 * n + c.digit?.getD 0) 0

/-- The sign in front, whether it is a minus, and what follows it. -/
def splitSign : Text → Bool × Text
  | [] => (false, [])
  | c :: rest => if c.val == 45 then (true, rest) else if c.val == 43 then (false, rest)
    else (false, c :: rest)

/-- Whether each underscore stands between two digits; `afterDigit` tells whether a digit comes just
before the text. -/
def underscoresFit (afterDigit : Bool) : Text → Bool
  | [] => true
  | [c] => c.val != 95
  | c :: d :: rest =>
    (c.val != 95 || (afterDigit && d.isDigit)) && underscoresFit c.isDigit (d :: rest)

/-- The text without its underscores, if each of them stands between two digits. -/
def dropUnderscores? (t : Text) : Option Text :=
  if underscoresFit false t then some (t.filter fun c => c.val != 95) else none

/-- The digits at the start and what follows them. -/
def spanDigits (t : Text) : Text × Text := t.span CodePoint.isDigit

/-- The integer that a trimmed text denotes: a sign, then digits. -/
def readInt? (t : Text) : Option Int := do
  let (negative, rest) := splitSign t
  let digits ← dropUnderscores? rest
  if digits.isEmpty || !digits.all CodePoint.isDigit || digits.length > maxDigits then none
  else
    let n : Int := digitsValue digits
    some (if negative then -n else n)

/-- The exponent part of a decimal: nothing, or a letter `e`, a sign and digits. -/
def readExponent? : Text → Option Int
  | [] => some 0
  | c :: rest =>
    if c.val == 101 || c.val == 69 then
      let (negative, digits) := splitSign rest
      if digits.isEmpty || !digits.all CodePoint.isDigit then none
      else
        let n : Int := digitsValue digits
        some (if negative then -n else n)
    else none

/-- The double that an unsigned decimal denotes: digits with at most one point, then an exponent. -/
def readDecimal? (negative : Bool) (t : Text) : Option Float := do
  let (whole, rest) := spanDigits t
  let (fraction, rest) := match rest with
    | [] => ([], [])
    | c :: tail => if c.val == 46 then spanDigits tail else ([], c :: tail)
  if whole.isEmpty && fraction.isEmpty then none
  else
    let exponent ← readExponent? rest
    some (Binary64.ofDecimal negative (digitsValue (whole ++ fraction)) (exponent - fraction.length))

/-- Whether the text is `word`, which is in lower case, but for the case of ASCII letters. -/
def isWordIgnoringCase (word t : Text) : Bool :=
  t.map (fun c => if 65 ≤ c.val && c.val ≤ 90 then CodePoint.ofNat (c.val + 32) else c) == word

/-- The double that a trimmed text denotes: a sign, then a decimal, an infinity or a NaN. -/
def readFloat? (t : Text) : Option Float := do
  let (negative, rest) := splitSign t
  if isWordIgnoringCase "inf" rest || isWordIgnoringCase "infinity" rest then
    some (if negative then -Binary64.infinity else Binary64.infinity)
  else if isWordIgnoringCase "nan" rest then some Binary64.nan
  else readDecimal? negative (← dropUnderscores? rest)

end NumberText

end Scriptlet
