import Scriptlet.Json
import Scriptlet.Numeric.NumberText

/-
  Documents read from text.

  A number has no zeros in front and digits on both sides of a point; the names of infinities and NaN
  are read too. Inside quotes no control character stands, and a pair of escaped UTF-16 surrogates
  makes one code point, while a surrogate alone stays what it is. A fault tells what was wanted and
  how much of the text was left.
-/

namespace Scriptlet

namespace Json

/-- What is wrong with a text. -/
inductive Complaint where
  | value
  | propertyName
  | colon
  | comma
  | extra
  | mark
  | unterminated
  | escape
  | unit
  | control
  deriving DecidableEq

/-- Why a text is no document; `left` is the length of the text from the fault on. -/
inductive ReadFault where
  | at (complaint : Complaint) (left : Nat)
  | longInteger (digits : Nat)
  | tooDeep
  deriving DecidableEq

def Complaint.message : Complaint → Text
  | .value => "Expecting value"
  | .propertyName => "Expecting property name enclosed in double quotes"
  | .colon => "Expecting ':' delimiter"
  | .comma => "Expecting ',' delimiter"
  | .extra => "Extra data"
  | .mark => "Unexpected UTF-8 BOM (decode using utf-8-sig)"
  | .unterminated => "Unterminated string starting at"
  | .escape => "Invalid \\escape"
  | .unit => "Invalid \\uXXXX escape"
  | .control => "Invalid control character at"

/-- A complaint about an offset of a text: the line and column, counted from one, and the offset,
counted from zero. -/
def report (complaint : Complaint) (t : Text) (offset : Nat) : Text :=
  let front := t.take offset
  let line := front.countP (fun c => c.val == 10) + 1
  let column := (front.reverse.takeWhile fun c => c.val != 10).length + 1
  complaint.message ++ ": line " ++ Text.ofNat line ++ " column " ++ Text.ofNat column ++ " (char " ++
    Text.ofNat offset ++ ")"

/-- Whether the code point separates tokens. -/
def isSpace (c : CodePoint) : Bool := c.val == 32 || c.val == 9 || c.val == 10 || c.val == 13

def skipSpace (t : Text) : Text := t.dropWhile isSpace

/-- The value of a hexadecimal digit. -/
def hexDigit? (c : CodePoint) : Option Nat :=
  if 48 ≤ c.val && c.val ≤ 57 then some (c.val - 48)
  else if 97 ≤ c.val && c.val ≤ 102 then some (c.val - 87)
  else if 65 ≤ c.val && c.val ≤ 70 then some (c.val - 55)
  else none

/-- The number that hexadecimal digits write. -/
def hexValue? (digits : Text) : Option Nat :=
  digits.foldlM (fun n c => (hexDigit? c).map (16 * n + ·)) 0

/-- What a letter behind a backslash stands for. -/
def unescape? (c : CodePoint) : Option CodePoint :=
  match c.val with
  | 34 => some '"'
  | 92 => some '\\'
  | 47 => some '/'
  | 98 => some '\x08'
  | 102 => some '\x0c'
  | 110 => some '\n'
  | 114 => some '\r'
  | 116 => some '\t'
  | _ => none

/-- The low half of a surrogate pair at the start of a text and what follows it, if it is there; at
least one more code point has to follow. -/
def lowHalf? (t : Text) : Except ReadFault (Option (Nat × Text)) :=
  match t with
  | b :: u :: d₁ :: d₂ :: d₃ :: d₄ :: rest =>
    if b.val == 92 && u.val == 117 && !rest.isEmpty then
      match hexValue? [d₁, d₂, d₃, d₄] with
      | none => .error (.at .unit (rest.length + 5))
      | some low => .ok (if 0xDC00 ≤ low && low < 0xE000 then some (low, rest) else none)
    else .ok none
  | _ => .ok none

/-- The code point of an escaped unit, together with the low half of a pair if that follows, and what
follows then. -/
def joined (unit : Nat) (rest : Text) : Except ReadFault (CodePoint × Text) :=
  if 0xD800 ≤ unit && unit < 0xDC00 then
    match lowHalf? rest with
    | .error fault => .error fault
    | .ok none => .ok (CodePoint.ofNat unit, rest)
    | .ok (some (low, rest)) =>
      .ok (CodePoint.ofNat (0x10000 + (unit - 0xD800) * 0x400 + (low - 0xDC00)), rest)
  else .ok (CodePoint.ofNat unit, rest)

/-- The text up to the closing quote and what follows it, behind the text `done`, which is backwards;
`left` is the length of the text from the opening quote on. -/
def readString (left : Nat) : Nat → Text → Text → Except ReadFault (Text × Text)
  | 0, _, _ => .error (.at .unterminated left)
  | steps + 1, done, t =>
    match t with
    | [] => .error (.at .unterminated left)
    | c :: rest =>
      if c.val == 34 then .ok (done.reverse, rest)
      else if c.val == 92 then
        match rest with
        | [] => .error (.at .unterminated left)
        | e :: rest =>
          if e.val == 117 then
            match rest with
            | d₁ :: d₂ :: d₃ :: d₄ :: next :: more =>
              match hexValue? [d₁, d₂, d₃, d₄] with
              | none => .error (.at .unit (rest.length + 1))
              | some unit =>
                match joined unit (next :: more) with
                | .error fault => .error fault
                | .ok (c, rest) => readString left steps (c :: done) rest
            | _ => .error (.at .unit (rest.length + 1))
          else
            match unescape? e with
            | some d => readString left steps (d :: done) rest
            | none => .error (.at .escape (rest.length + 2))
      else if c.val < 32 then .error (.at .control (rest.length + 1))
      else readString left steps (c :: done) rest

/-- The string that begins with a quote, of which `rest` follows. -/
def readQuoted (rest : Text) : Except ReadFault (Text × Text) :=
  readString (rest.length + 1) (rest.length + 1) [] rest

/-- The digits at the start of a text and what follows them. -/
def spanDigits (t : Text) : Text × Text := t.span CodePoint.isAsciiDigit

/-- The fraction at the start of a text: a point and digits, or nothing. -/
def readFraction (t : Text) : Text × Text :=
  match t with
  | p :: rest =>
    let (digits, after) := spanDigits rest
    if p.val == 46 && !digits.isEmpty then (p :: digits, after) else ([], t)
  | [] => ([], [])

/-- The exponent at the start of a text, or nothing. -/
def readExponent (t : Text) : Text × Text :=
  match t with
  | e :: rest =>
    if e.val == 101 || e.val == 69 then
      let (sign, rest) : Text × Text := match rest with
        | s :: more => if s.val == 45 || s.val == 43 then ([s], more) else ([], rest)
        | [] => ([], [])
      let (digits, after) := spanDigits rest
      if digits.isEmpty then ([], t) else (e :: (sign ++ digits), after)
    else ([], t)
  | [] => ([], [])

/-- The number at the start of a text. -/
def readNumber (t : Text) : Except ReadFault (Json × Text) :=
  let (negative, unsigned) : Bool × Text := match t with
    | c :: rest => if c.val == 45 then (true, rest) else (false, t)
    | [] => (false, [])
  let (digits, rest) := spanDigits unsigned
  -- a zero in front ends the number
  let (whole, rest) := match digits with
    | [] => (digits, rest)
    | d :: _ => if d.val == 48 then ([d], unsigned.drop 1) else (digits, rest)
  if whole.isEmpty then .error (.at .value t.length)
  else
    let (fraction, rest) := readFraction rest
    let (exponent, rest) := readExponent rest
    if fraction.isEmpty && exponent.isEmpty then
      if whole.length > NumberText.maxDigits then .error (.longInteger whole.length)
      else
        let n : Int := NumberText.digitsValue whole
        .ok (.int (if negative then -n else n), rest)
    else
      .ok (.float ((NumberText.readDecimal? negative (whole ++ fraction ++ exponent)).getD 0), rest)

/-- The names at the start of a value and what they stand for. -/
def words : List (Text × Json) :=
  [("null", .null), ("true", .bool true), ("false", .bool false), ("NaN", .float Binary64.nan),
   ("Infinity", .float Binary64.infinity), ("-Infinity", .float (-Binary64.infinity))]

/-- The word at the start of a text. -/
def readWord? (t : Text) : Option (Json × Text) :=
  words.findSome? fun (word, value) => (Text.dropStart? word t).map fun rest => (value, rest)

/-- The items of an array from the next value on, behind those in `done`, which is backwards. -/
def readItems (value : Text → Except ReadFault (Json × Text)) :
    Nat → List Json → Text → Except ReadFault (Json × Text)
  | 0, _, t => .error (.at .comma t.length)
  | steps + 1, done, t => do
    let (item, rest) ← value t
    match skipSpace rest with
    | c :: rest =>
      if c.val == 93 then return (.array (item :: done).reverse, rest)
      else if c.val == 44 then readItems value steps (item :: done) (skipSpace rest)
      else throw (.at .comma (rest.length + 1))
    | [] => throw (.at .comma 0)

/-- The entries of an object from the next key on, behind those in `done`, which is backwards. -/
def readEntries (value : Text → Except ReadFault (Json × Text)) :
    Nat → List (Text × Json) → Text → Except ReadFault (Json × Text)
  | 0, _, t => .error (.at .propertyName t.length)
  | steps + 1, done, t => do
    let (key, rest) ← match t with
      | c :: rest =>
        if c.val == 34 then readQuoted rest else throw (.at .propertyName t.length)
      | [] => throw (.at .propertyName 0)
    let rest ← match skipSpace rest with
      | c :: rest => if c.val == 58 then pure (skipSpace rest) else throw (.at .colon (rest.length + 1))
      | [] => throw (.at .colon 0)
    let (item, rest) ← value rest
    match skipSpace rest with
    | c :: rest =>
      if c.val == 125 then return (.object ((key, item) :: done).reverse, rest)
      else if c.val == 44 then readEntries value steps ((key, item) :: done) (skipSpace rest)
      else throw (.at .comma (rest.length + 1))
    | [] => throw (.at .comma 0)

/-- The value at the start of a text, within `room` levels of brackets. -/
def readValue : Nat → Text → Except ReadFault (Json × Text)
  | 0, _ => .error .tooDeep
  | room + 1, t =>
    match t with
    | [] => .error (.at .value 0)
    | c :: rest =>
      if c.val == 34 then do
        let (s, rest) ← readQuoted rest
        return (.text s, rest)
      else if c.val == 91 then
        match skipSpace rest with
        | d :: after =>
          if d.val == 93 then .ok (.array [], after)
          else readItems (readValue room) (t.length + 1) [] (d :: after)
        | [] => .error (.at .value 0)
      else if c.val == 123 then
        match skipSpace rest with
        | d :: after =>
          if d.val == 125 then .ok (.object [], after)
          else readEntries (readValue room) (t.length + 1) [] (d :: after)
        | [] => .error (.at .propertyName 0)
      else
        match readWord? t with
        | some found => .ok found
        | none => readNumber t

/-- The document that a whole text is, but for spaces at its ends. -/
def read (room : Nat) (t : Text) : Except ReadFault Json := do
  if t.head? = some (CodePoint.ofNat 0xFEFF) then throw (.at .mark t.length)
  let (value, rest) ← readValue room (skipSpace t)
  let rest := skipSpace rest
  if rest.isEmpty then return value else throw (.at .extra rest.length)

end Json

end Scriptlet
