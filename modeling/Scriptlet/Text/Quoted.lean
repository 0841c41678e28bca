import Scriptlet.Text.PrintableTable
import Scriptlet.Text

/-
  Quoted text.

  A quoted text stands between apostrophes, or between quotation marks when it holds an apostrophe
  and no quotation mark. The quote and the backslash are written with a backslash before them, the
  tab, line feed and carriage return by a letter, and every other code point that is not printable
  by its number in two, four or eight hexadecimal digits.
-/

namespace Scriptlet

namespace CodePoint

/-- Whether a quoted text shows the code point as it is. -/
def isPrintable (c : CodePoint) : Bool :=
  if c.val < 128 then 32 ≤ c.val && c.val < 127 else Text.printables.contains c.val

/-- The code point by its number: two, four or eight hexadecimal digits behind a letter. -/
def numberEscape (c : CodePoint) : Text :=
  let digits := Text.ofNatBase 16 c.val
  if c.val < 0x100 then "\\x" ++ digits.padLeft 2 '0'
  else if c.val < 0x10000 then "\\u" ++ digits.padLeft 4 '0'
  else "\\U" ++ digits.padLeft 8 '0'

/-- The code point as it is written between the quotes `quote`. -/
def quotedBy (quote c : CodePoint) : Text :=
  if c = quote || c.val == 92 then ['\\', c]
  else if c.val == 9 then "\\t"
  else if c.val == 10 then "\\n"
  else if c.val == 13 then "\\r"
  else if c.isPrintable then [c]
  else c.numberEscape

end CodePoint

namespace Text

/-- The quote that a text is written between. -/
def chosenQuote (t : Text) : CodePoint :=
  if t.any (fun c => c.val == 39) && !t.any (fun c => c.val == 34) then '"' else '\''

/-- The text between quotes. -/
def quoted (t : Text) : Text :=
  let quote := t.chosenQuote
  quote :: (t.flatMap (CodePoint.quotedBy quote) ++ [quote])

/-- The text with every code point outside ASCII written by its number. -/
def asciiEscaped (t : Text) : Text :=
  t.flatMap fun c => if c.val < 128 then [c] else c.numberEscape

end Text

end Scriptlet
