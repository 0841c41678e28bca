import Scriptlet.Numeric.FloatText
import Scriptlet.Numeric.Power
import Scriptlet.Template
import Scriptlet.Value.Conversion

/-
  Templates filled with values.

  Directives take the values of a tuple one after the other, or one other value; directives with a key
  take the value under the key in a mapping. The result is a list of segments, so that its size is
  known before any long run of padding is written out.
-/

namespace Scriptlet

/-- A piece of text. -/
inductive Segment where
  | text (t : Text)
  /-- The same code point a number of times. -/
  | fill (count : Nat) (c : CodePoint)

namespace Segment

def size : Segment → Nat
  | .text t => t.length
  | .fill count _ => count

/-- The number of code points of some segments. -/
def total (segments : List Segment) : Nat := segments.foldl (fun count s => count + s.size) 0

def toText : Segment → Text
  | .text t => t
  | .fill count c => List.replicate count c

/-- The text that some segments make. -/
def join (segments : List Segment) : Text := segments.flatMap toText

end Segment

namespace Template

/-- The values that are left to fill a template. -/
structure Supply where
  pending : List Value
  /-- What directives with a key look into. -/
  mapping : Option Value

/-- The values that fill a template by default. -/
def Supply.of (h : Heap) (v : Value) : Supply :=
  match v with
  | .tuple r => ⟨(h.tuple r).toList, none⟩
  | .list _ | .dict _ => ⟨[v], some v⟩
  | _ => ⟨[v], none⟩

/-- A converted value: a sign, the mark of a number base, and the rest. -/
structure Body where
  sign : Text
  mark : Text
  rest : List Segment
  /-- Whether zeros may fill the space behind the sign. -/
  numeric : Bool

/-- The body widened to a width. -/
def Body.align (flags : Flags) (width : Nat) (body : Body) : List Segment :=
  let front := [Segment.text (body.sign ++ body.mark)]
  let space := width - Segment.total (front ++ body.rest)
  if flags.left then front ++ body.rest ++ [.fill space ' ']
  else if flags.zeros && body.numeric then front ++ .fill space '0' :: body.rest
  else .fill space ' ' :: (front ++ body.rest)

/-- The sign that a number shows. -/
def signText (flags : Flags) (negative : Bool) : Text :=
  if negative then "-" else if flags.plus then "+" else if flags.blank then " " else ""

/-- The lower case of an ASCII letter made upper case. -/
def upperAscii (t : Text) : Text :=
  t.map fun c => if 97 ≤ c.val && c.val ≤ 122 then CodePoint.ofNat (c.val - 32) else c

/-- The greatest precision of an integer. -/
def maxIntegerPrecision : Nat := 2147483644

/-- An integer in a base, at least `precision` digits. -/
def integerBody (conversion : CodePoint) (flags : Flags) (precision : Option Nat) (n : Int) :
    Except Fault Body := do
  if (precision.getD 0) > maxIntegerPrecision then throw (.of .overflow "precision too large")
  let (digits, mark) : Text × Text ← match conversion.val with
    | 111 => pure (Text.ofNatBase 8 n.natAbs, "0o")
    | 120 => pure (Text.ofNatBase 16 n.natAbs, "0x")
    | 88 => pure (upperAscii (Text.ofNatBase 16 n.natAbs), "0X")
    | _ => pure (← integerText n.natAbs, "")
  let zeros := precision.getD 0 - digits.length
  return ⟨signText flags (n < 0), if flags.alternate then mark else "", [.fill zeros '0', .text digits],
    true⟩

/-- The number of places behind which a double has only zeros. -/
def maxPlaces : Nat := 1100

/-- The text with more zeros put behind its digits, before an exponent if there is one. -/
def stretched (zeros : Nat) (t : Text) : List Segment :=
  let (digits, exponent) := t.span fun c => c.val != 101
  [.text digits, .fill zeros '0', .text exponent]

/-- A double by one of the three conversions of doubles. -/
def floatBody (conversion : CodePoint) (flags : Flags) (precision : Option Nat) (x : Float) : Body :=
  let places := precision.getD 6
  let kept := min places maxPlaces
  let beyond := places - kept
  let lower := conversion.val % 32
  let rest : List Segment := match Binary64.parts x with
    | .nan => [.text "nan"]
    | .infinite _ => [.text "inf"]
    | .finite _ m e =>
      if lower = 6 then stretched beyond (FloatText.fixed m e kept flags.alternate)
      else if lower = 5 then stretched beyond (FloatText.exponential m e kept flags.alternate)
      else
        stretched (if flags.alternate then beyond else 0)
          (FloatText.general m e kept flags.alternate)
  let negative := Binary64.isNegative x && !Binary64.isNaN x
  let isUpper := conversion.val < 97
  let rest := if isUpper then rest.map fun
    | .text t => Segment.text (upperAscii t)
    | .fill count c => .fill count c
    else rest
  ⟨signText flags negative, "", rest, true⟩

/-- A text cut to a precision. -/
def textBody (precision : Option Nat) (t : Text) : Body :=
  let t := match precision with
    | some n => t.take n
    | none => t
  ⟨"", "", [.text t], false⟩

/-- The integer that a conversion to digits takes from a value. -/
def wholeOf (conversion : CodePoint) (v : Value) : Except Fault Int := do
  let isBase := conversion.val == 111 || conversion.val == 120 || conversion.val == 88
  let refuse (wanted : String) : Except Fault Int := do
    throw (.of .badType ("%" ++ conversion :: (" format: " ++ (wanted : Text) ++ " is required, not " ++
      (v.typeName : Text))))
  match v.integer? with
  | some n => return n
  | Option.none =>
    if isBase then refuse "an integer"
    else
      match v with
      | .float x => truncate x
      | .nan _ => truncate Binary64.nan
      | _ => refuse "a real number"

/-- The single code point that a value stands for. -/
def codePointOf (v : Value) : Except Fault CodePoint :=
  match v with
  | .text [c] => .ok c
  | v =>
    match v.integer? with
    | some n =>
      match (if n < 0 then none else CodePoint.ofNat? n.toNat) with
      | some c => .ok c
      | none => .error (.of .overflow "%c arg not in range(0x110000)")
    | Option.none => .error (.of .badType "%c requires int or char")

/-- A value by a conversion. -/
def convert (h : Heap) (levels : Nat) (conversion : CodePoint) (index : Nat) (flags : Flags)
    (precision : Option Nat) (v : Value) : Except Fault Body := do
  match conversion.toChar with
  | 's' =>
    let t ← match v with
      | .text t => pure t
      | v => h.plainRepr levels v
    return textBody precision t
  | 'r' => return textBody precision (← h.plainRepr levels v)
  | 'a' => return textBody precision (← h.plainRepr levels v).asciiEscaped
  | 'd' | 'i' | 'u' | 'o' | 'x' | 'X' =>
    integerBody conversion flags precision (← wholeOf conversion v)
  | 'e' | 'E' | 'f' | 'F' | 'g' | 'G' => return floatBody conversion flags precision (← v.toReal)
  | 'c' => return textBody none [← codePointOf v]
  | _ =>
    let shown : CodePoint := if 31 ≤ conversion.val && conversion.val < 127 then conversion else '?'
    throw (.of .badValue ("unsupported format character '" ++ shown :: ("' (0x" ++
      Text.ofNatBase 16 conversion.val ++ ") at index " ++ Text.ofNat index)))

/-- The next value of a supply. -/
def Supply.next (supply : Supply) : Except Fault (Value × Supply) :=
  match supply.pending with
  | v :: rest => .ok (v, { supply with pending := rest })
  | [] => .error (.of .badType "not enough arguments for format string")

/-- The supply of a directive with a key. -/
def Supply.select (h : Heap) (supply : Supply) : KeyField → Except Fault Supply
  | .absent => .ok supply
  | .named key =>
    match supply.mapping with
    | some (.dict r) =>
      match Entry.find? (h.dict r) [.text key] with
      | some v => .ok { supply with pending := [v] }
      | none => .error (.of .missingKey key.quoted)
    | some _ => .error (.of .badType "list indices must be integers or slices, not str")
    | none => .error (.of .badType "format requires a mapping")
  | .unclosed =>
    match supply.mapping with
    | some _ => .error (.of .badValue "incomplete format key")
    | none => .error (.of .badType "format requires a mapping")

/-- The integer that a star stands for. -/
def Supply.star (supply : Supply) : Except Fault (Int × Supply) := do
  let (v, supply) ← supply.next
  match v.integer? with
  | some n => return (n, supply)
  | Option.none => throw (.of .badType "* wants int")

/-- One directive filled in. -/
def Directive.fill (h : Heap) (levels : Nat) (d : Directive) (supply : Supply) :
    Except Fault (List Segment × Supply) := do
  let supply ← supply.select h d.key
  let (flags, width, supply) ← match d.width with
    | .absent => pure (d.flags, 0, supply)
    | .fixed n =>
      if n ≥ twoTo 63 then throw (.of .badValue "width too big") else pure (d.flags, n, supply)
    | .given => do
      let (n, supply) ← supply.star
      if n ≥ twoTo 63 || n < -(twoTo 63) then
        throw (.of .overflow "Python int too large to convert to C ssize_t")
      else pure (if n < 0 then { d.flags with left := true } else d.flags, n.natAbs, supply)
  let (precision, supply) ← match d.precision with
    | .absent => pure (none, supply)
    | .fixed n =>
      if n ≥ twoTo 31 then throw (.of .badValue "precision too big") else pure (some n, supply)
    | .given => do
      let (n, supply) ← supply.star
      if n ≥ twoTo 31 || n < -(twoTo 31) then
        throw (.of .overflow "Python int too large to convert to C int")
      else pure (some n.toNat, supply)
  match d.conversion with
  | none => throw (.of .badValue "incomplete format")
  | some conversion =>
    let (v, supply) ← supply.next
    let body ← convert h levels conversion d.index flags precision v
    return (body.align flags width, supply)

/-- The parts of a template filled in. -/
def fillParts (h : Heap) (levels : Nat) : List Part → Supply → Except Fault (List Segment × Supply)
  | [], supply => .ok ([], supply)
  | .text t :: rest, supply => do
    let (segments, supply) ← fillParts h levels rest supply
    return (.text t :: segments, supply)
  | .directive d :: rest, supply => do
    let (first, supply) ← d.fill h levels supply
    let (segments, supply) ← fillParts h levels rest supply
    return (first ++ segments, supply)

/-- A template filled in with a value. -/
def fill (h : Heap) (levels : Nat) (template : Text) (v : Value) : Except Fault (List Segment) := do
  let (segments, supply) ← fillParts h levels (parts template) (.of h v)
  if supply.mapping.isNone && !supply.pending.isEmpty then
    throw (.of .badType "not all arguments converted during string formatting")
  return segments

end Template

end Scriptlet
