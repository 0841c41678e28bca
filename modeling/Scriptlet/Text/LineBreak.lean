import Scriptlet.Text

/-
  Lines of a text.

  Ten code points end a line: U+000A to U+000D, U+001C to U+001E, U+0085, U+2028 and U+2029. A
  carriage return followed by a line feed is one break. A break at the very end starts no new line,
  so a text without any code point has no line.
-/

namespace Scriptlet

/-- Whether the code point ends a line. -/
def CodePoint.isLineBreak (c : CodePoint) : Bool :=
  let n := c.val
  (10 ≤ n && n ≤ 13) || (28 ≤ n && n ≤ 30) || n == 0x85 || n == 0x2028 || n == 0x2029

namespace Text

/-- The lines of a text whose current line, read so far, is `line` backwards. -/
def linesFrom (line : Text) : Text → List Text
  | [] => if line.isEmpty then [] else [line.reverse]
  | [c] => if c.isLineBreak then [line.reverse] else [(c :: line).reverse]
  | c :: d :: rest =>
    if c.val == 13 && d.val == 10 then line.reverse :: linesFrom [] rest
    else if c.isLineBreak then line.reverse :: linesFrom [] (d :: rest)
    else linesFrom (c :: line) (d :: rest)

/-- The lines of a text, without their breaks. -/
def lines (t : Text) : List Text := linesFrom [] t

/-- The text with each carriage return, alone or before a line feed, made a line feed. -/
def unifyLineFeeds : Text → Text
  | [] => []
  | [c] => [if c.val == 13 then '\n' else c]
  | c :: d :: rest =>
    if c.val == 13 then
      if d.val == 10 then '\n' :: unifyLineFeeds rest else '\n' :: unifyLineFeeds (d :: rest)
    else c :: unifyLineFeeds (d :: rest)

end Text

end Scriptlet
