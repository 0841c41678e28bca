import Scriptlet.Text

/-
  Templates.

  A template is text with directives. A directive begins with a percent sign and goes on with a key
  in parentheses, flags, a width, a precision and a letter of size, all optional, and ends with the
  code point that names the conversion. Width and precision are digits or a star, which takes them
  from the values that fill the template. Two percent signs are text.

  Reading never fails: a directive that the end of the template cuts short is read as far as it goes,
  and filling it in tells what is missing.
-/

namespace Scriptlet

namespace Template

/-- A width or a precision. -/
inductive Amount where
  | absent
  | fixed (n : Nat)
  /-- Taken from the values that fill the template. -/
  | given
  deriving DecidableEq

/-- The flags of a directive. -/
structure Flags where
  left : Bool
  plus : Bool
  blank : Bool
  alternate : Bool
  zeros : Bool
  deriving DecidableEq

/-- The key of a directive. -/
inductive KeyField where
  | absent
  | named (key : Text)
  /-- A key whose closing parenthesis is missing. -/
  | unclosed
  deriving DecidableEq

/-- A directive; `index` is the offset of its conversion, or of the end of the template. -/
structure Directive where
  key : KeyField
  flags : Flags
  width : Amount
  precision : Amount
  conversion : Option CodePoint
  index : Nat
  deriving DecidableEq

/-- A part of a template. -/
inductive Part where
  | text (t : Text)
  | directive (d : Directive)
  deriving DecidableEq

/-- What follows the closing parenthesis that fits, and the key in front of it; `depth` parentheses
are open and `done` is the key so far, backwards. -/
def readKey (depth : Nat) (done : Text) : Text → Option (Text × Text)
  | [] => none
  | c :: rest =>
    if c.val == 41 then
      match depth with
      | 0 => some (done.reverse, rest)
      | depth + 1 => readKey depth (c :: done) rest
    else if c.val == 40 then readKey (depth + 1) (c :: done) rest
    else readKey depth (c :: done) rest

/-- The flags at the start of a text, added to `flags`. -/
def readFlags (flags : Flags) : Text → Flags × Text
  | [] => (flags, [])
  | c :: rest =>
    match c.val with
    | 45 => readFlags { flags with left := true } rest
    | 43 => readFlags { flags with plus := true } rest
    | 32 => readFlags { flags with blank := true } rest
    | 35 => readFlags { flags with alternate := true } rest
    | 48 => readFlags { flags with zeros := true } rest
    | _ => (flags, c :: rest)

/-- The number that ASCII digits write. -/
def digitsOf (digits : Text) : Nat :=
  digits.foldl (fun n c => 10 * n + c.asciiDigit?.getD 0) 0

/-- The width at the start of a text. -/
def readWidth (t : Text) : Amount × Text :=
  match t with
  | [] => (.absent, [])
  | c :: rest =>
    if c.val == 42 then (.given, rest)
    else
      let (digits, rest) := (c :: rest).span CodePoint.isAsciiDigit
      if digits.isEmpty then (.absent, rest) else (.fixed (digitsOf digits), rest)

/-- The precision at the start of a text: a point and an amount, zero if none follows. -/
def readPrecision (t : Text) : Amount × Text :=
  match t with
  | [] => (.absent, [])
  | c :: rest =>
    if c.val == 46 then
      match readWidth rest with
      | (.absent, rest) => (.fixed 0, rest)
      | (amount, rest) => (amount, rest)
    else (.absent, c :: rest)

/-- The text without a letter of size in front. -/
def dropSize : Text → Text
  | [] => []
  | c :: rest => if c.val == 104 || c.val == 108 || c.val == 76 then rest else c :: rest

/-- The directive behind a percent sign, where `total` is the length of the template, and what
follows it. -/
def readDirective (total : Nat) (t : Text) : Directive × Text :=
  let noFlags : Flags := ⟨false, false, false, false, false⟩
  let (key, rest) : KeyField × Text := match t with
    | [] => (.absent, [])
    | c :: rest =>
      if c.val == 40 then
        match readKey 0 [] rest with
        | some (key, rest) => (.named key, rest)
        | none => (.unclosed, [])
      else (.absent, c :: rest)
  let (flags, rest) := readFlags noFlags rest
  let (width, rest) := readWidth rest
  let (precision, rest) := readPrecision rest
  let rest := dropSize rest
  (⟨key, flags, width, precision, rest.head?, total - rest.length⟩, rest.drop 1)

/-- The parts of a template of length `total`, of which `t` is left; `steps` bounds their count. -/
def partsFrom (total : Nat) : Nat → Text → List Part
  | 0, _ => []
  | steps + 1, t =>
    match t with
    | [] => []
    | c :: rest =>
      if c.val != 37 then
        let (plain, rest) := (c :: rest).span fun d => d.val != 37
        .text plain :: partsFrom total steps rest
      else
        match rest with
        | d :: rest' =>
          if d.val == 37 then .text [d] :: partsFrom total steps rest'
          else
            let (directive, rest) := readDirective total rest
            .directive directive :: partsFrom total steps rest
        | [] =>
          let (directive, _) := readDirective total []
          [.directive directive]

/-- The parts of a template. -/
def parts (t : Text) : List Part := partsFrom t.length (t.length + 1) t

end Template

end Scriptlet
