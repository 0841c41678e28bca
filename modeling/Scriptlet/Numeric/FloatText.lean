import Scriptlet.Numeric.Power
import Scriptlet.Numeric.Shortest
import Scriptlet.Text

/-
  Doubles as text.

  A number is written by its shortest decimal, positionally or with an exponent. Which exponents are
  positional and how an exponent is spelled is one `FloatStyle`. Numbers with a chosen count of
  places are the exact value rounded, an exact half to the even neighbour.
-/

namespace Scriptlet

/-- The decisions of a format for doubles. -/
structure FloatStyle where
  /-- Positional are the decimals whose point lies above this place … -/
  lowPoint : Int
  /-- … and at most at this one. -/
  highPoint : Int
  /-- Whether a whole number ends in a point and a zero. -/
  keepsPoint : Bool
  infinity : String
  nan : String

namespace FloatText

/-- The digits of `n`, at least `count` of them. -/
def digitsOf (n count : Nat) : Text := (Text.ofNat n).padLeft count '0'

/-- The exponent with its sign and at least two digits. -/
def exponentText (exponent : Int) : Text :=
  (if exponent < 0 then '-' else '+' : CodePoint) :: digitsOf exponent.natAbs 2

/-- The digits with the decimal point at `point`, which may lie outside them. -/
def positional (digits : Text) (point : Int) (keepsPoint : Bool) : Text :=
  if point ≤ 0 then "0." ++ (List.replicate (-point).toNat ('0' : CodePoint) ++ digits)
  else if point ≥ digits.length then
    digits.padRight point.toNat '0' ++ (if keepsPoint then ".0" else "" : Text)
  else digits.take point.toNat ++ "." ++ digits.drop point.toNat

/-- The digits with the point behind the first one and the exponent that this needs. -/
def scientific (digits : Text) (point : Int) : Text :=
  let tail := digits.drop 1
  digits.take 1 ++ (if tail.isEmpty then [] else '.' :: tail : Text) ++ "e" ++ exponentText (point - 1)

/-- A double by its shortest decimal in a style. -/
def render (style : FloatStyle) (x : Float) : Text :=
  let signed (negative : Bool) (t : Text) : Text := if negative then '-' :: t else t
  match Binary64.parts x with
  | .nan => style.nan
  | .infinite negative => signed negative style.infinity
  | .finite negative m e =>
    let d := Shortest.decimal m e
    let digits := digitsOf d.digits d.count
    signed negative <|
      if style.lowPoint < d.point && d.point ≤ style.highPoint then
        positional digits d.point style.keepsPoint
      else scientific digits d.point

/-- Positional from 0.0001 up to 10 ^ 16, whole numbers with a point and a zero. -/
def plainStyle : FloatStyle := ⟨-4, 16, true, "inf", "nan"⟩

/-- A double as the language prints it. -/
def plain (x : Float) : Text := render plainStyle x

/-- `m * 2 ^ e` times `10 ^ places`, rounded to an integer. -/
def scaled (m : Nat) (e places : Int) : Nat :=
  let num := m * twoTo e.toNat * tenTo places.toNat
  let den := twoTo (-e).toNat * tenTo (-places).toNat
  Binary64.roundDiv num den

/-- A finite absolute value with a fixed number of places behind the point. -/
def fixed (m : Nat) (e : Int) (places : Nat) (keepsPoint : Bool) : Text :=
  let digits := digitsOf (scaled m e places) (places + 1)
  let whole := digits.take (digits.length - places)
  if places = 0 then whole ++ (if keepsPoint then "." else "" : Text)
  else whole ++ "." ++ digits.drop (digits.length - places)

/-- The first `count` significant digits of a finite value and the place of its point. -/
def significant (m : Nat) (e : Int) (count : Nat) : Text × Int :=
  if m = 0 then (List.replicate count '0', 1)
  else
    let magnitude := (Shortest.Interval.of m e).magnitude
    let n := scaled m e (count - magnitude)
    if n = tenTo count then (digitsOf (tenTo (count - 1)) count, magnitude + 1)
    else (digitsOf n count, magnitude)

/-- A finite absolute value with one digit before the point, `places` behind it and an exponent. -/
def exponential (m : Nat) (e : Int) (places : Nat) (keepsPoint : Bool) : Text :=
  let (digits, point) := significant m e (places + 1)
  let tail : Text := if places = 0 && !keepsPoint then [] else '.' :: digits.drop 1
  digits.take 1 ++ tail ++ "e" ++ exponentText (point - 1)

/-- The text without zeros at the end of its fraction, and without a point that they leave bare. -/
def dropZeros (t : Text) : Text :=
  if t.contains '.' then
    let kept := t.reverse.dropWhile fun c => c.val == 48
    (if kept.head? = some '.' then kept.drop 1 else kept).reverse
  else t

/-- A finite absolute value with `count` significant digits, positional unless the exponent is below
-4 or at least `count`; zeros at the end of the fraction are dropped unless `keepsZeros`. -/
def general (m : Nat) (e : Int) (count : Nat) (keepsZeros : Bool) : Text :=
  let count := max count 1
  let (digits, point) := significant m e count
  if -4 < point && point ≤ count then
    let t := positional digits point false
    if keepsZeros then (if t.contains '.' then t else t ++ ".") else dropZeros t
  else
    let tail := digits.drop 1
    let head := digits.take 1 ++ (if tail.isEmpty && !keepsZeros then [] else '.' :: tail : Text)
    (if keepsZeros then head else dropZeros head) ++ "e" ++ exponentText (point - 1)

end FloatText

end Scriptlet
