import Scriptlet.Text

/-
  Expressions.

  Every node records the span of text it was read from. Slices stand only between the brackets of a
  `sliced` node, a mapping display pairs each key with its value, and a comparison pairs each
  operator with the operand to its right, so a tree of this type always makes sense.
-/

namespace Scriptlet

/-- The offsets where a piece of text begins and ends. -/
structure Span where
  start : Nat
  stop : Nat
  deriving DecidableEq, Inhabited

/-- The text that a span marks. -/
def Span.of (span : Span) (text : Text) : Text := (text.drop span.start).take (span.stop - span.start)

/-- A constant written in an expression. -/
inductive Literal where
  | none
  | bool (b : Bool)
  | int (n : Nat)
  | float (x : Float)
  | text (t : Text)
  deriving DecidableEq

inductive UnaryOp where
  | negative
  | positive
  | not
  deriving DecidableEq

inductive BinaryOp where
  | add
  | sub
  | mul
  | div
  | floorDiv
  | mod
  | pow
  deriving DecidableEq

inductive BoolOp where
  | and
  | or
  deriving DecidableEq

inductive CompareOp where
  | eq
  | ne
  | lt
  | gt
  | le
  | ge
  | isIn
  | notIn
  | isSame
  | isNotSame
  deriving DecidableEq

def UnaryOp.symbol : UnaryOp → String
  | .negative => "-"
  | .positive => "+"
  | .not => "not"

def BinaryOp.symbol : BinaryOp → String
  | .add => "+"
  | .sub => "-"
  | .mul => "*"
  | .div => "/"
  | .floorDiv => "//"
  | .mod => "%"
  | .pow => "**"

def BoolOp.symbol : BoolOp → String
  | .and => "and"
  | .or => "or"

def CompareOp.symbol : CompareOp → String
  | .eq => "=="
  | .ne => "!="
  | .lt => "<"
  | .gt => ">"
  | .le => "<="
  | .ge => ">="
  | .isIn => "in"
  | .notIn => "not in"
  | .isSame => "is"
  | .isNotSame => "is not"

/-- An expression. -/
inductive Expr where
  | literal (span : Span) (value : Literal)
  | name (span : Span) (id : Text)
  | list (span : Span) (items : List Expr)
  | tuple (span : Span) (items : List Expr)
  | set (span : Span) (items : List Expr)
  | dict (span : Span) (entries : List (Expr × Expr))
  | attribute (span : Span) (target : Expr) (name : Text)
  | subscript (span : Span) (target index : Expr)
  /-- A subscript with colons; `bounds` is the span of what stands between the brackets. -/
  | sliced (span : Span) (target : Expr) (bounds : Span) (lower upper step : Option Expr)
  /-- A call; each keyword argument has the span from its name to its value. -/
  | call (span : Span) (callee : Expr) (args : List Expr) (keywords : List (Span × Text × Expr))
  | unary (span : Span) (op : UnaryOp) (operand : Expr)
  | binary (span : Span) (op : BinaryOp) (left right : Expr)
  | boolean (span : Span) (op : BoolOp) (left right : Expr)
  | compare (span : Span) (left : Expr) (rest : List (CompareOp × Expr))
  deriving Inhabited

/-- The span of text that the expression was read from. -/
def Expr.span : Expr → Span
  | .literal s _ | .name s _ | .list s _ | .tuple s _ | .set s _ | .dict s _ | .attribute s _ _
  | .subscript s _ _ | .sliced s _ _ _ _ _ | .call s _ _ _ | .unary s _ _ | .binary s _ _ _
  | .boolean s _ _ _ | .compare s _ _ => s

/-- The text that the expression was read from, out of the whole text. -/
def Expr.source (e : Expr) (text : Text) : Text := e.span.of text

end Scriptlet
