import Scriptlet.Text.Blank
import Scriptlet.Text.Digit
import Scriptlet.Text.Word

/-
  Tokens of an expression.

  A text is cut into numbers, strings, names and operators; blanks separate tokens and are dropped.
  At each place the first of these classes that fits is taken, and of the operators the first of a
  fixed list in which the longer ones come first. A string runs to the next quote of its kind and
  has no escapes. A token records where it stands.
-/

namespace Scriptlet

inductive TokenKind where
  | number
  | string
  | name
  | operator
  deriving DecidableEq

/-- A piece of an expression from `start` up to `stop`. -/
structure Token where
  kind : TokenKind
  text : Text
  start : Nat
  stop : Nat
  deriving DecidableEq

/-- An entry in the list of the tokens of a text: a token, or the end of the text, which is of no kind. -/
structure ListedToken where
  kind : Option TokenKind
  text : Text
  start : Nat
  stop : Nat
  deriving DecidableEq

/-- Why a text cannot be cut into tokens. -/
inductive ScanFault where
  | unterminatedString
  | invalidCharacter (c : CodePoint)
  deriving DecidableEq

namespace Token

/-- The operators, each behind the longer ones that begin with it. -/
def operators : List Text :=
  ["//=", "**", "//", "==", "!=", "<=", ">=", "+=", "-=", "*=", "/=", "%=",
   "-", "+", "*", "/", "%", "<", ">", "(", ")", "[", "]", "\x7b", "\x7d", ",", ":", ".", "="]

/-- The length of the exponent at the start of a text; none has length zero. -/
def exponentLength : Text → Nat
  | [] => 0
  | e :: rest =>
    if e.val == 101 || e.val == 69 then
      let signLength := match rest with
        | c :: _ => if c.val == 43 || c.val == 45 then 1 else 0
        | [] => 0
      let digits := ((rest.drop signLength).takeWhile CodePoint.isDigit).length
      if digits = 0 then 0 else 1 + signLength + digits
    else 0

/-- The length of the number at the start of a text, if there is one: digits with a point among
them, before them or behind them, or none, and an exponent if one follows. -/
def numberLength (t : Text) : Nat :=
  let whole := (t.takeWhile CodePoint.isDigit).length
  let mantissa := match t.drop whole with
    | [] => whole
    | c :: rest =>
      if c.val == 46 then
        let fraction := (rest.takeWhile CodePoint.isDigit).length
        if whole = 0 && fraction = 0 then 0 else whole + 1 + fraction
      else whole
  if mantissa = 0 then 0 else mantissa + exponentLength (t.drop mantissa)

/-- The length of the string that begins with the quote `quote`, of which `rest` follows, not
counting the quote itself. -/
def stringTail (quote : CodePoint) (rest : Text) : Option Nat :=
  let inside := (rest.takeWhile (· != quote)).length
  if inside < rest.length then some (inside + 1) else none

/-- What stands at the start of a text that begins with `c` and goes on with `rest`: blanks or a
token, and its length less one. -/
def lexeme (c : CodePoint) (rest : Text) : Except ScanFault (Option TokenKind × Nat) :=
  if c.isBlank then .ok (none, (rest.takeWhile CodePoint.isBlank).length)
  else
    let number := numberLength (c :: rest)
    if number > 0 then .ok (some .number, number - 1)
    else if c.val == 39 || c.val == 34 then
      match stringTail c rest with
      | some n => .ok (some .string, n)
      | none => .error .unterminatedString
    else if c.startsIdentifier then .ok (some .name, (rest.takeWhile CodePoint.isWord).length)
    else match operators.find? (·.isPrefixOf (c :: rest)) with
      | some op => .ok (some .operator, op.length - 1)
      | none => .error (.invalidCharacter c)

/-- The tokens of the text that stands at offset `start`, behind the tokens `done` read backwards. -/
def scanFrom (start : Nat) (done : List Token) : Text → Except ScanFault (List Token)
  | [] => .ok done.reverse
  | c :: rest =>
    match lexeme c rest with
    | .error fault => .error fault
    | .ok (kind, n) =>
      let stop := start + n + 1
      let done := match kind with
        | none => done
        | some kind => ⟨kind, c :: rest.take n, start, stop⟩ :: done
      scanFrom stop done (rest.drop n)
  termination_by t => t.length
  decreasing_by simp only [List.length_drop, List.length_cons]; omega

/-- The tokens of a text. -/
def scan (t : Text) : Except ScanFault (List Token) := scanFrom 0 [] t

def listed (token : Token) : ListedToken := ⟨some token.kind, token.text, token.start, token.stop⟩

/-- The entry behind the tokens of a text. -/
def endOf (t : Text) : ListedToken := ⟨none, [], t.length, t.length⟩

/-- The tokens of a text and its end. -/
def tokenize (t : Text) : Except ScanFault (List ListedToken) := do
  return (← scan t).map listed ++ [endOf t]

/-- Whether the token is the operator or name `text`. -/
def is (text : Text) (token : Token) : Bool :=
  (token.kind == .operator || token.kind == .name) && token.text == text

def isOperator (token : Token) : Bool := token.kind == .operator

/-- The operators that assign. -/
def assignments : List Text := ["=", "+=", "-=", "*=", "/=", "//=", "%="]

/-- The names that cannot be variables. -/
def keywords : List Text :=
  ["and", "or", "not", "in", "is", "True", "False", "None", "if", "else", "lambda"]

def openingBrackets : List Text := ["(", "[", "\x7b"]

def closingBrackets : List Text := [")", "]", "\x7d"]

/-- The first operator that assigns and stands outside brackets, where `depth` brackets are open. -/
def firstAssignment (depth : Int) : List Token → Option Token
  | [] => none
  | token :: rest =>
    if !token.isOperator then firstAssignment depth rest
    else if openingBrackets.contains token.text then firstAssignment (depth + 1) rest
    else if closingBrackets.contains token.text then firstAssignment (depth - 1) rest
    else if depth = 0 && assignments.contains token.text then some token
    else firstAssignment depth rest

end Token

/-- The report of a text that cannot be cut into tokens. -/
def ScanFault.message : ScanFault → Text
  | .unterminatedString => "unterminated string literal"
  | .invalidCharacter c => "invalid character '" ++ (c :: "'")

end Scriptlet
