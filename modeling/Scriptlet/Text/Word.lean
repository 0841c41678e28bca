import Scriptlet.Text.WordTable
import Scriptlet.Text

/-
  Word characters, identifiers and whole words at the start of a line.

  A word character is a letter or number of any script or the underscore. An identifier begins with
  an ASCII letter or an underscore and goes on with word characters.
-/

namespace Scriptlet

namespace CodePoint

/-- Whether the code point is a letter or carries a numeric value. -/
def isAlphanumeric (c : CodePoint) : Bool :=
  if c.val < 128 then c.isAsciiLetter || c.isAsciiDigit else Text.alphanumerics.contains c.val

/-- Whether the code point may stand inside a word. -/
def isWord (c : CodePoint) : Bool := c.isAlphanumeric || c.val == 95

/-- Whether an identifier may begin with the code point. -/
def startsIdentifier (c : CodePoint) : Bool := c.isAsciiLetter || c.val == 95

end CodePoint

namespace Text

/-- Whether the text is an identifier. -/
def isIdentifier : Text → Bool
  | [] => false
  | c :: rest => c.startsIdentifier && rest.all CodePoint.isWord

/-- What follows the word `word` at the start of the text, if that word ends there. -/
def dropWord? (word : Text) (t : Text) : Option Text :=
  match dropStart? word t with
  | none => none
  | some [] => some []
  | some (c :: rest) => if c.isWord then none else some (c :: rest)

/-- Whether the text begins with the whole word `word`. -/
def startsWithWord (word : Text) (t : Text) : Bool := (dropWord? word t).isSome

end Text

end Scriptlet
