import Scriptlet.Text

/-
  Blank code points and trimming.

  Blank are the code points of Unicode's White_Space property and the four separators U+001C to
  U+001F. The zero width space U+200B and the mark U+FEFF are not blank.
-/

namespace Scriptlet

namespace CodePoint

/-- Whether the code point is blank. -/
def isBlank (c : CodePoint) : Bool :=
  let n := c.val
  (9 ≤ n && n ≤ 13) || (28 ≤ n && n ≤ 32) || n == 0x85 || n == 0xA0 || n == 0x1680
    || (0x2000 ≤ n && n ≤ 0x200A) || n == 0x2028 || n == 0x2029 || n == 0x202F
    || n == 0x205F || n == 0x3000

end CodePoint

namespace Text

/-- The text without the blanks in front. -/
def trimLeft (t : Text) : Text := t.dropWhile CodePoint.isBlank

/-- The text without the blanks at its end. -/
def trimRight (t : Text) : Text := (t.reverse.dropWhile CodePoint.isBlank).reverse

/-- The text without the blanks at both ends. -/
def trim (t : Text) : Text := t.trimLeft.trimRight

/-- Whether the text holds nothing but blanks. -/
def isBlank (t : Text) : Bool := t.all CodePoint.isBlank

end Text

end Scriptlet
