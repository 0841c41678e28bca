import Scriptlet.Numeric.FloatText
import Scriptlet.Numeric.NumberText
import Scriptlet.Text.Quoted
import Scriptlet.Value

/-
  Values as text.

  The language prints a value by one rule, `Heap.repr`: texts are quoted, elements stand between
  brackets with commas, the elements of a set are sorted by their text, and a record shows the text
  made for it. Text by template goes by `Heap.plainRepr`, which leaves sets in their own order, shows
  every record by its name and marks an object inside itself by dots. Printing takes the levels of
  nesting that there is room for.
-/

namespace Scriptlet

/-- The report of an integer that is too long for text. -/
def longIntegerText : Text :=
  "Exceeds the limit (4300 digits) for integer string conversion; use sys.set_int_max_str_digits() " ++
    "to increase the limit"

/-- The report of a text of so many digits that is too long for an integer. -/
def longDigitsText (digits : Nat) : Text :=
  "Exceeds the limit (4300 digits) for integer string conversion: value has " ++ Text.ofNat digits ++
    " digits; use sys.set_int_max_str_digits() to increase the limit"

/-- The decimal text of an integer, unless it is too long. -/
def integerText (n : Int) : Except Fault Text :=
  match NumberText.ofInt? n with
  | some t => .ok t
  | none => .error (.of .badValue longIntegerText)

namespace Function

/-- The name of a function as it is printed. -/
def title : Function → String
  | .builtin f => f.name
  | .library f => f.title
  | .method _ m => m.title

def repr (f : Function) : Text := "<built-in function " ++ f.title ++ ">"

end Function

/-- The text of a module that has none of its own. -/
def moduleText (name : Text) : Text := "<module '" ++ name ++ "'>"

namespace Group

/-- The part of the subject that a group covers. -/
def of (g : Group) (subject : Text) : Text := (subject.drop g.start).take (g.stop - g.start)

end Group

namespace Record

/-- The name of a record, which its kind decides. -/
def name : Record → String
  | .file _ _ => "file"
  | .found _ _ _ => "re.Match"
  | .moment _ => "datetime"

/-- The text made for a record. -/
def text : Record → Text
  | .file name mode => "<simulated file '" ++ name ++ "' mode '" ++ mode ++ "'>"
  | .found subject groups _ =>
    match groups with
    | some whole :: _ =>
      "<re.Match object; span=(" ++ Text.ofNat whole.start ++ ", " ++ Text.ofNat whole.stop ++
        "), match=" ++ (whole.of subject).quoted ++ ">"
    | _ => []
  | .moment m => m.calendar.isoText 'T' .auto

end Record

/-- How containers and records are printed. -/
structure PrintStyle where
  /-- Whether a record shows the text made for it. -/
  recordTexts : Bool
  /-- Whether the elements of a set are sorted by their text. -/
  sortsSets : Bool
  /-- Whether an object inside itself is marked by dots, and complex numbers are printed. -/
  marksCycles : Bool

/-- A complex number in parentheses, or its imaginary part alone if the real part is zero. -/
def complexText (re im : Float) : Text :=
  let plain (x : Float) : Text := FloatText.render ⟨-4, 16, false, "inf", "nan"⟩ x
  if re == 0 && !Binary64.isNegative re then plain im ++ "j"
  else
    let imaginary := plain im
    let sign : Text := if Binary64.isNegative im then "" else "+"
    "(" ++ plain re ++ sign ++ imaginary ++ "j)"

namespace Heap

/-- The text of a value; `within` holds the objects whose text is being made, and the number is the
count of levels that there is room for. -/
def render (style : PrintStyle) (h : Heap) : Nat → List Value → Value → Except Fault Text
  | 0, _, _ => .error .tooDeep
  | levels + 1, within, v => do
    let inside (items : List Value) : Except Fault Text := do
      return Text.join ", " (← items.mapM (render style h levels (v :: within)))
    let looped := style.marksCycles && within.contains v
    match v with
    | .none => return "None"
    | .bool b => return if b then "True" else "False"
    | .int n => integerText n
    | .float x => return FloatText.plain x
    | .nan _ => return "nan"
    | .complex re im => if style.marksCycles then return complexText re im else throw Value.unsupported
    | .text t => return t.quoted
    | .list r =>
      if looped then return "[...]"
      else return "[" ++ (← inside (h.list r).toList) ++ "]"
    | .tuple r =>
      if looped then return "(...)"
      else
        let items := (h.tuple r).toList
        let comma : Text := if items.length = 1 then "," else ""
        return "(" ++ (← inside items) ++ comma ++ ")"
    | .dict r =>
      if looped then return "\x7b...\x7d"
      else
        let entry (e : Entry) : Except Fault Text := do
          let key ← render style h levels (v :: within) e.keyValue
          return key ++ ": " ++ (← render style h levels (v :: within) e.value)
        return "\x7b" ++ Text.join ", " (← (h.dict r).toList.mapM entry) ++ "\x7d"
    | .set r =>
      let members := (h.set r).toList.map Member.value
      if members.isEmpty then return "set()"
      else
        let texts ← members.mapM (render style h levels (v :: within))
        let texts := if style.sortsSets then Text.sorted texts else texts
        return "\x7b" ++ Text.join ", " texts ++ "\x7d"
    | .library l => return moduleText l.name
    | .record r =>
      match h.record? r with
      | some record => return if style.recordTexts then record.text else moduleText record.name
      | none => return []
    | .function f => return f.repr

/-- The text of a value as the language shows it in containers. -/
def repr (h : Heap) (levels : Nat) (v : Value) : Except Fault Text :=
  h.render ⟨true, true, false⟩ levels [] v

/-- The text of a value as the language prints it: a text is itself. -/
def format (h : Heap) (levels : Nat) (v : Value) : Except Fault Text :=
  match v with
  | .text t => .ok t
  | v => h.repr levels v

/-- The text of a value in templates and in reports of missing keys. -/
def plainRepr (h : Heap) (levels : Nat) (v : Value) : Except Fault Text :=
  h.render ⟨false, false, true⟩ levels [] v

end Heap

end Scriptlet
