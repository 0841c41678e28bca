import Scriptlet.Proofs.ReadBack

/-
  Expressions as they are printed.

  An expression has a level, that of the loosest operator outside of its brackets, and each place of an
  operand asks for a level. An operand that is looser than its place asks for stands in parentheses, and
  so does any other that one chooses: `extra` says which. With `extra` always false there are only the
  parentheses that precedence and associativity require; with `extra` always true every operand has a
  pair.

  The words of an expression are printed with a blank between them.
-/

namespace Scriptlet

namespace Level

/-- How tight the level is among all of them. -/
def rank : Level → Nat
  | .list => 0
  | .chain .or => 1
  | .chain .and => 2
  | .negation => 3
  | .comparison => 4
  | .chain .sum => 5
  | .chain .product => 6
  | .factor => 7
  | .power => 8
  | .primary => 9
  | .atom => 10

end Level

/-- The level of the operator's expressions, and of its operand. -/
def UnaryOp.level : UnaryOp → Level
  | .not => .negation
  | .negative | .positive => .factor

namespace Joint

/-- The level of the operator's expressions. -/
def level (op : Joint) : Level :=
  match op.tier with
  | some t => .chain t
  | none => .power

/-- What the operand to the left is. Chains group to the left, and nothing but a tighter expression is
raised to a power. -/
def leftLevel (op : Joint) : Level :=
  match op.tier with
  | some t => .chain t
  | none => .primary

/-- What the operand to the right is. -/
def rightLevel (op : Joint) : Level :=
  match op.tier with
  | some t => t.operand
  | none => .factor

end Joint

/-- The text between quotes of a kind that it does not hold, if there is one. -/
def Text.between (t : Text) : Text := t.chosenQuote :: (t ++ [t.chosenQuote])

namespace Literal

/-- The words of a constant. There are none for floats, which are not printed. -/
def words : Literal → List Word
  | .none => [⟨.name, "None"⟩]
  | .bool b => [⟨.name, if b then "True" else "False"⟩]
  | .int n => [⟨.number, Text.ofNat n⟩]
  | .float _ => []
  | .text t => [⟨.string, t.between⟩]

/-- A constant that is printed: integers have no more digits than are converted, and texts hold not both
kinds of quotes. -/
def IsPrintable : Literal → Prop
  | .none | .bool _ => True
  | .int n => n < tenTo NumberText.maxDigits
  | .float _ => False
  | .text t => (∀ c ∈ t, c.val ≠ 39) ∨ ∀ c ∈ t, c.val ≠ 34

end Literal

/-- A name that stands for something. -/
structure Text.IsVariable (name : Text) : Prop where
  identifier : name.isIdentifier = true
  notKeyword : name ∉ Token.keywords

namespace Expr

/-- The level of the expression. A tuple of something is a list with commas. -/
def level : Expr → Level
  | .literal _ _ | .name _ _ | .list _ _ | .set _ _ | .dict _ _ => .atom
  | .tuple _ [] => .atom
  | .tuple _ (_ :: _) => .list
  | .attribute _ _ _ | .subscript _ _ _ | .sliced _ _ _ _ _ _ | .call _ _ _ _ => .primary
  | .unary _ op _ => op.level
  | .binary _ op _ _ => (Joint.binary op).level
  | .boolean _ op _ _ => (Joint.boolean op).level
  | .compare _ _ _ => .comparison

/-! ## Words -/

/-- The words in brackets. -/
def bracketed (opening closing : Text) (ws : List Word) : List Word :=
  .of opening :: (ws ++ [.of closing])

/-- The words of a tuple with these items, outside of parentheses. -/
def tupleWords : List (List Word) → List Word
  | [] => bracketed "(" ")" []
  | [ws] => ws ++ [.of ","]
  | wss => Data.withCommas wss

section
variable (extra : Expr → Bool)

/-- The words `ws` of an expression at a place that asks for the level `l`. -/
def placed (l : Level) (e : Expr) (ws : List Word) : List Word :=
  if extra e || decide (e.level.rank < l.rank) then bracketed "(" ")" ws else ws

mutual

/-- The words that an expression is printed with. -/
def words : Expr → List Word
  | .literal _ value => value.words
  | .name _ id => [⟨.name, id⟩]
  | .list _ items => bracketed "[" "]" (Data.withCommas (itemWords items))
  | .tuple _ items => tupleWords (itemWords items)
  | .set _ items => bracketed "\x7b" "\x7d" (Data.withCommas (itemWords items))
  | .dict _ entries => bracketed "\x7b" "\x7d" (Data.withCommas (entryWords entries))
  | .attribute _ target label =>
    placed extra .primary target target.words ++ [.of ".", ⟨.name, label⟩]
  | .subscript _ target index =>
    placed extra .primary target target.words ++
      bracketed "[" "]" (placed extra .expression index index.words)
  | .sliced _ target _ lower upper step =>
    placed extra .primary target target.words ++
      bracketed "[" "]" (partWords lower ++ .of ":" :: (partWords upper ++
        (if step.isSome then .of ":" :: partWords step else [])))
  | .call _ callee args keywords =>
    placed extra .primary callee callee.words ++
      bracketed "(" ")" (Data.withCommas (itemWords args ++ keywordWords keywords))
  | .unary _ op operand => .of (.ofString op.symbol) :: placed extra op.level operand operand.words
  | .binary _ op left right =>
    placed extra (Joint.binary op).leftLevel left left.words ++
      (Joint.binary op).word :: placed extra (Joint.binary op).rightLevel right right.words
  | .boolean _ op left right =>
    placed extra (Joint.boolean op).leftLevel left left.words ++
      (Joint.boolean op).word :: placed extra (Joint.boolean op).rightLevel right right.words
  | .compare _ left rest => placed extra (.chain .sum) left left.words ++ operandWords rest

def itemWords : List Expr → List (List Word)
  | [] => []
  | e :: rest => placed extra .expression e e.words :: itemWords rest

def entryWords : List (Expr × Expr) → List (List Word)
  | [] => []
  | (key, value) :: rest =>
    Data.entryWords (placed extra .expression key key.words)
      (placed extra .expression value value.words) :: entryWords rest

def partWords : Option Expr → List Word
  | none => []
  | some e => placed extra .expression e e.words

def keywordWords : List (Span × Text × Expr) → List (List Word)
  | [] => []
  | (_, label, value) :: rest =>
    (⟨.name, label⟩ :: .of "=" :: placed extra .expression value value.words) :: keywordWords rest

def operandWords : List (CompareOp × Expr) → List Word
  | [] => []
  | (op, e) :: rest => op.words ++ (placed extra (.chain .sum) e e.words ++ operandWords rest)

end

/-- The expression as it is printed. -/
def printed (e : Expr) : Text := Text.join " " ((e.words extra).map Word.text)

end

/-! ## What is printed -/

mutual

/-- An expression that is printed: its names are names, comparisons compare with something, and sets hold
something. -/
def IsPrintable : Expr → Prop
  | .literal _ value => value.IsPrintable
  | .name _ id => id.IsVariable
  | .list _ items | .tuple _ items => ArePrintable items
  | .set _ items => items ≠ [] ∧ ArePrintable items
  | .dict _ entries => ArePrintableEntries entries
  | .attribute _ target label => target.IsPrintable ∧ label.IsVariable
  | .subscript _ target index => target.IsPrintable ∧ index.IsPrintable
  | .sliced _ target _ lower upper step =>
    target.IsPrintable ∧ IsPrintablePart lower ∧ IsPrintablePart upper ∧ IsPrintablePart step
  | .call _ callee args keywords =>
    callee.IsPrintable ∧ ArePrintable args ∧ ArePrintableKeywords keywords
  | .unary _ _ operand => operand.IsPrintable
  | .binary _ _ left right => left.IsPrintable ∧ right.IsPrintable
  | .boolean _ _ left right => left.IsPrintable ∧ right.IsPrintable
  | .compare _ left rest => left.IsPrintable ∧ rest ≠ [] ∧ ArePrintableOperands rest

def ArePrintable : List Expr → Prop
  | [] => True
  | e :: rest => e.IsPrintable ∧ ArePrintable rest

def ArePrintableEntries : List (Expr × Expr) → Prop
  | [] => True
  | (key, value) :: rest => key.IsPrintable ∧ value.IsPrintable ∧ ArePrintableEntries rest

def IsPrintablePart : Option Expr → Prop
  | none => True
  | some e => e.IsPrintable

def ArePrintableKeywords : List (Span × Text × Expr) → Prop
  | [] => True
  | (_, label, value) :: rest => label.IsVariable ∧ value.IsPrintable ∧ ArePrintableKeywords rest

def ArePrintableOperands : List (CompareOp × Expr) → Prop
  | [] => True
  | (_, e) :: rest => e.IsPrintable ∧ ArePrintableOperands rest

end

end Expr

end Scriptlet
