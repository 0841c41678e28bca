/-
  Text as a list of code points.

  A script can build any code point with a number, and a written document can name one by an
  escape, so a text may hold surrogates that stand alone. It is therefore a list of code points and
  not a list of Unicode scalar values. Offsets and lengths count code points.

  Literals of this library are strings and characters; the two coercions turn them into text.
-/

namespace Scriptlet

/-- A code point: any number below 0x110000, surrogates included. -/
structure CodePoint where
  val : Nat
  lt : val < 0x110000
  deriving DecidableEq

namespace CodePoint

/-- The code point of a character, which is never a surrogate. -/
def ofChar (c : Char) : CodePoint :=
  ⟨c.toNat, by
    rcases c.valid with h | ⟨_, h⟩
    · exact Nat.lt_trans h (by decide)
    · exact h⟩

/-- The code point of a number, if the number is small enough. -/
def ofNat? (n : Nat) : Option CodePoint :=
  if h : n < 0x110000 then some ⟨n, h⟩ else none

/-- The code point of a number, or the replacement character U+FFFD. -/
def ofNat (n : Nat) : CodePoint := (ofNat? n).getD ⟨0xFFFD, by decide⟩

/-- Whether this is half of a pair and no character by itself. -/
def isSurrogate (c : CodePoint) : Bool := 0xD800 ≤ c.val && c.val < 0xE000

/-- The character, with U+FFFD in place of a surrogate. -/
def toChar (c : CodePoint) : Char := if c.isSurrogate then '\uFFFD' else Char.ofNat c.val

instance : Coe Char CodePoint := ⟨ofChar⟩

instance : Inhabited CodePoint := ⟨⟨0, by decide⟩⟩

instance : Hashable CodePoint := ⟨fun c => hash c.val⟩

/-- The value of an ASCII digit, if the code point is one. -/
def asciiDigit? (c : CodePoint) : Option Nat :=
  if 48 ≤ c.val && c.val ≤ 57 then some (c.val - 48) else none

def isAsciiDigit (c : CodePoint) : Bool := 48 ≤ c.val && c.val ≤ 57

/-- Whether the code point is one of `A`–`Z` and `a`–`z`. -/
def isAsciiLetter (c : CodePoint) : Bool :=
  (65 ≤ c.val && c.val ≤ 90) || (97 ≤ c.val && c.val ≤ 122)

end CodePoint

/-- A text is a list of code points. -/
abbrev Text := List CodePoint

namespace Text

def ofString (s : String) : Text := s.toList.map CodePoint.ofChar

/-- The text as a string, with U+FFFD in place of each surrogate. -/
def toString (t : Text) : String := String.ofList (t.map CodePoint.toChar)

instance : Coe String Text := ⟨ofString⟩

/-- The digits of a natural number in a base up to sixteen, most significant first. -/
def ofNatBase (base n : Nat) : Text := (Nat.toDigits base n).map CodePoint.ofChar

def ofNat (n : Nat) : Text := ofNatBase 10 n

def ofInt : Int → Text
  | .ofNat n => ofNat n
  | .negSucc n => (('-' : CodePoint) :: ofNat (n + 1))

/-- The text widened on the left with `fill` to at least `width` code points. -/
def padLeft (width : Nat) (fill : CodePoint) (t : Text) : Text :=
  List.replicate (width - t.length) fill ++ t

/-- The text widened on the right with `fill` to at least `width` code points. -/
def padRight (width : Nat) (fill : CodePoint) (t : Text) : Text :=
  t ++ List.replicate (width - t.length) fill

/-- Lexicographic order by code point. -/
def before : Text → Text → Bool
  | _, [] => false
  | [], _ :: _ => true
  | a :: s, b :: t => if a.val < b.val then true else if a = b then before s t else false

/-- Texts in lexicographic order. -/
def sorted (texts : List Text) : List Text := texts.mergeSort fun s t => !before t s

/-- The parts with `separator` between neighbours. -/
def join (separator : Text) (parts : List Text) : Text := List.intercalate separator parts

/-- The parts between the occurrences of one code point; there is always at least one part. -/
def splitOn (separator : CodePoint) (t : Text) : List Text :=
  let step := fun (c : CodePoint) (acc : Text × List Text) =>
    if c = separator then ([], acc.1 :: acc.2) else (c :: acc.1, acc.2)
  let (first, others) := t.foldr step ([], [])
  first :: others

/-- Whether `needle` occurs in `t` at some place. -/
def occursIn (needle : Text) : Text → Bool
  | [] => needle.isEmpty
  | c :: t => needle.isPrefixOf (c :: t) || occursIn needle t

/-- What follows `start`, if the text begins with it. -/
def dropStart? : Text → Text → Option Text
  | [], t => some t
  | _ :: _, [] => none
  | a :: s, b :: t => if a = b then dropStart? s t else none

end Text

end Scriptlet
