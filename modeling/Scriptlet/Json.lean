import Scriptlet.Numeric.FloatText
import Scriptlet.Text

/-
  Documents of the JavaScript object notation and their text.

  Integers and doubles are kept apart: a number without a point and an exponent is an integer. The
  values that are no numbers, infinities and NaN, are written by their names. Written text is ASCII:
  every other code point is written by the number of its UTF-16 units.
-/

namespace Scriptlet

/-- A document. -/
inductive Json where
  | null
  | bool (b : Bool)
  | int (n : Int)
  | float (x : Float)
  | text (t : Text)
  | array (items : List Json)
  | object (entries : List (Text × Json))
  deriving Inhabited

namespace Json

/-- How a document is laid out. -/
structure Layout where
  /-- What stands between items on one line. -/
  itemSeparator : Text
  /-- The width of the indentation of one level; on one line there is none. -/
  indent : Option Nat

/-- All on one line. -/
def Layout.line : Layout := ⟨", ", none⟩

/-- Each item on a line of its own. -/
def Layout.indented (width : Nat) : Layout := ⟨",", some width⟩

/-- A UTF-16 unit by its number. -/
def unitEscape (unit : Nat) : Text := "\\u" ++ (Text.ofNatBase 16 unit).padLeft 4 '0'

/-- A code point inside quotes. -/
def escape (c : CodePoint) : Text :=
  match c.val with
  | 34 => "\\\""
  | 92 => "\\\\"
  | 8 => "\\b"
  | 9 => "\\t"
  | 10 => "\\n"
  | 12 => "\\f"
  | 13 => "\\r"
  | n =>
    if 32 ≤ n && n ≤ 126 then [c]
    else if n < 0x10000 then unitEscape n
    else unitEscape (0xD800 + (n - 0x10000) / 0x400) ++ unitEscape (0xDC00 + (n - 0x10000) % 0x400)

/-- A text between quotes. -/
def quoted (t : Text) : Text := "\"" ++ t.flatMap escape ++ "\""

/-- The decisions for doubles: the language's own spelling, and names for the others. -/
def floatStyle : FloatStyle := ⟨-4, 16, true, "Infinity", "NaN"⟩

namespace Layout

/-- The start of a line at a depth. -/
def newLine (layout : Layout) (depth : Nat) : Text :=
  match layout.indent with
  | none => []
  | some width => "\n" ++ List.replicate (depth * width) (' ' : CodePoint)

/-- Items between brackets at a depth. -/
def bracket (layout : Layout) (depth : Nat) (opening closing : Text) (items : List Text) : Text :=
  if items.isEmpty then opening ++ closing
  else
    opening ++ layout.newLine (depth + 1) ++
      Text.join (layout.itemSeparator ++ layout.newLine (depth + 1)) items ++
      layout.newLine depth ++ closing

end Layout

mutual

/-- The text of a document that stands at a depth. -/
def render (layout : Layout) (depth : Nat) : Json → Text
  | .null => "null"
  | .bool b => if b then "true" else "false"
  | .int n => Text.ofInt n
  | .float x => FloatText.render floatStyle x
  | .text t => quoted t
  | .array items => layout.bracket depth "[" "]" (renderItems layout (depth + 1) items)
  | .object entries => layout.bracket depth "\x7b" "\x7d" (renderEntries layout (depth + 1) entries)

def renderItems (layout : Layout) (depth : Nat) : List Json → List Text
  | [] => []
  | item :: rest => render layout depth item :: renderItems layout depth rest

def renderEntries (layout : Layout) (depth : Nat) : List (Text × Json) → List Text
  | [] => []
  | (key, value) :: rest =>
    (quoted key ++ ": " ++ render layout depth value) :: renderEntries layout depth rest

end

mutual

/-- Whether some integer in a document fails a test. -/
def anyInteger (test : Int → Bool) : Json → Bool
  | .int n => test n
  | .array items => anyIntegerOf test items
  | .object entries => anyIntegerIn test entries
  | _ => false

def anyIntegerOf (test : Int → Bool) : List Json → Bool
  | [] => false
  | item :: rest => anyInteger test item || anyIntegerOf test rest

def anyIntegerIn (test : Int → Bool) : List (Text × Json) → Bool
  | [] => false
  | (_, value) :: rest => anyInteger test value || anyIntegerIn test rest

end

/-- The value under a key of an object, the last one if there are several. -/
def get? (key : Text) : Json → Option Json
  | .object entries => (entries.reverse.find? fun entry => entry.1 == key).map (·.2)
  | _ => none

end Json

end Scriptlet
