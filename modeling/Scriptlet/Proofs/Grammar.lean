import Scriptlet.Expr.Parser

/-
  The grammar of expressions.

  The derivations of the grammar are data: a `Phrase s` is a derivation from the symbol `s`, with one
  constructor for each production. What a phrase is written with and what it means are functions of
  it, so that a text is ambiguous when two phrases are written with its words.

  Words are tokens without their places, and meanings are expressions without spans. From the loosest
  to the tightest: lists, `or`, `and`, `not`, comparisons, sums, products, signs, powers, and what
  stands behind an atom.
-/

namespace Scriptlet

/-! ## Words and bare expressions -/

/-- A token without its place. -/
structure Word where
  kind : TokenKind
  text : Text
  deriving DecidableEq

/-- The token without its place. -/
def Token.word (token : Token) : Word := ⟨token.kind, token.text⟩

/-- The operator, or else the name, that is written so. -/
def Word.of (text : Text) : Word :=
  ⟨if text ∈ Token.operators then .operator else .name, text⟩

theorem Word.kind_of (text : Text) :
    (Word.of text).kind = if text ∈ Token.operators then .operator else .name := rfl

theorem Word.text_of (text : Text) : (Word.of text).text = text := rfl

-- Words are compared by their texts and not by looking them up among the operators.
attribute [irreducible] Word.of

namespace Expr

/-- The span of what has no place. -/
def nowhere : Span := ⟨0, 0⟩

mutual

/-- The expression without its spans. -/
def bare : Expr → Expr
  | .literal _ value => .literal nowhere value
  | .name _ id => .name nowhere id
  | .list _ items => .list nowhere (bareItems items)
  | .tuple _ items => .tuple nowhere (bareItems items)
  | .set _ items => .set nowhere (bareItems items)
  | .dict _ entries => .dict nowhere (bareEntries entries)
  | .attribute _ target label => .attribute nowhere target.bare label
  | .subscript _ target index => .subscript nowhere target.bare index.bare
  | .sliced _ target _ lower upper step =>
    .sliced nowhere target.bare nowhere (barePart lower) (barePart upper) (barePart step)
  | .call _ callee args keywords => .call nowhere callee.bare (bareItems args) (bareKeywords keywords)
  | .unary _ op operand => .unary nowhere op operand.bare
  | .binary _ op left right => .binary nowhere op left.bare right.bare
  | .boolean _ op left right => .boolean nowhere op left.bare right.bare
  | .compare _ left rest => .compare nowhere left.bare (bareOperands rest)

def bareItems : List Expr → List Expr
  | [] => []
  | e :: rest => e.bare :: bareItems rest

def bareEntries : List (Expr × Expr) → List (Expr × Expr)
  | [] => []
  | (key, value) :: rest => (key.bare, value.bare) :: bareEntries rest

def barePart : Option Expr → Option Expr
  | none => none
  | some e => some e.bare

def bareKeywords : List (Span × Text × Expr) → List (Span × Text × Expr)
  | [] => []
  | (_, label, value) :: rest => (nowhere, label, value.bare) :: bareKeywords rest

def bareOperands : List (CompareOp × Expr) → List (CompareOp × Expr)
  | [] => []
  | (op, e) :: rest => (op, e.bare) :: bareOperands rest

end

end Expr

/-! ## Symbols and operators -/

/-- The operators that group to the left, loosest first. -/
inductive Tier where
  | or
  | and
  | sum
  | product

/-- What derives expressions. -/
inductive Level where
  | list
  | chain (t : Tier)
  | negation
  | comparison
  | factor
  | power
  | primary
  | atom

namespace Level

/-- A single expression: a chain of the loosest operator. -/
abbrev expression : Level := .chain .or

/-- How tightly an operator must cling to what is before it to reach into a phrase. -/
def tightness : Level → Nat
  | .list => 1
  | .chain .or => 1
  | .chain .and => 2
  | .negation => 3
  | .comparison => 3
  | .chain .sum => 4
  | .chain .product => 5
  | .factor => 6
  | .power => 6
  | .primary => 7
  | .atom => 8

end Level

/-- What the operands of a chain are. -/
def Tier.operand : Tier → Level
  | .or => .chain .and
  | .and => .negation
  | .sum => .chain .product
  | .product => .factor

/-- An operator with two operands, other than a comparison. -/
inductive Joint where
  | boolean (op : BoolOp)
  | binary (op : BinaryOp)

namespace Joint

def word : Joint → Word
  | .boolean op => .of (.ofString op.symbol)
  | .binary op => .of (.ofString op.symbol)

/-- The chains that the operator makes; powers are no chains. -/
def tier : Joint → Option Tier
  | .boolean .or => some .or
  | .boolean .and => some .and
  | .binary .add | .binary .sub => some .sum
  | .binary .mul | .binary .div | .binary .floorDiv | .binary .mod => some .product
  | .binary .pow => none

def join : Joint → Expr → Expr → Expr
  | .boolean op => .boolean Expr.nowhere op
  | .binary op => .binary Expr.nowhere op

end Joint

/-- The words of a comparison operator. -/
def CompareOp.words : CompareOp → List Word
  | .eq => [.of "=="]
  | .ne => [.of "!="]
  | .lt => [.of "<"]
  | .gt => [.of ">"]
  | .le => [.of "<="]
  | .ge => [.of ">="]
  | .isIn => [.of "in"]
  | .notIn => [.of "not", .of "in"]
  | .isSame => [.of "is"]
  | .isNotSame => [.of "is", .of "not"]

/-- What the grammar derives: expressions, and parts of them. -/
inductive Symbol where
  | level (l : Level)
  | tail (t : Tier)
  | comparisons
  | suffixes
  | items
  | entries
  /-- Arguments; those behind one with a name have a name themselves. -/
  | arguments (named : Bool)
  | index
  /-- Parts of a slice, with at most so many colons between them. -/
  | bounds (colons : Nat)
  | part

/-- What a phrase means. -/
abbrev Symbol.Meaning : Symbol → Type
  | .level _ => Expr
  | .tail _ => Expr → Expr
  | .comparisons => List (CompareOp × Expr)
  | .suffixes => Expr → Expr
  | .items => List Expr
  | .entries => List (Expr × Expr)
  | .arguments _ => List Expr × List (Span × Text × Expr)
  | .index => Parse.Index
  | .bounds _ => List (Option Expr)
  | .part => Option Expr

/-! ## Phrases -/

/-- The derivations of the grammar. -/
inductive Phrase : Symbol → Type where
  -- lists: `expression {, expression} [,]`
  | single : Phrase (.level .expression) → Phrase (.level .list)
  | commas : Phrase (.level .expression) → Phrase .items → Phrase (.level .list)
  -- `or`, `and`, sums and products
  | chain {t : Tier} : Phrase (.level t.operand) → Phrase (.tail t) → Phrase (.level (.chain t))
  | tailEnd {t : Tier} : Phrase (.tail t)
  | tailMore {t : Tier} (op : Joint) : op.tier = some t → Phrase (.level t.operand) →
      Phrase (.tail t) → Phrase (.tail t)
  -- `not` and comparisons
  | not : Phrase (.level .negation) → Phrase (.level .negation)
  | compared : Phrase (.level .comparison) → Phrase (.level .negation)
  | comparison : Phrase (.level (.chain .sum)) → Phrase .comparisons → Phrase (.level .comparison)
  | comparisonsEnd : Phrase .comparisons
  | comparisonsMore (op : CompareOp) : Phrase (.level (.chain .sum)) → Phrase .comparisons →
      Phrase .comparisons
  -- signs and powers
  | signed (op : UnaryOp) : op ≠ .not → Phrase (.level .factor) → Phrase (.level .factor)
  | unsigned : Phrase (.level .power) → Phrase (.level .factor)
  | base : Phrase (.level .primary) → Phrase (.level .power)
  | power : Phrase (.level .primary) → Phrase (.level .factor) → Phrase (.level .power)
  -- calls, attributes and subscripts behind an atom
  | primary : Phrase (.level .atom) → Phrase .suffixes → Phrase (.level .primary)
  | suffixesEnd : Phrase .suffixes
  | call : Phrase (.arguments false) → Phrase .suffixes → Phrase .suffixes
  | attr (name : Text) : name ∉ Token.keywords → Phrase .suffixes → Phrase .suffixes
  | subscript : Phrase .index → Phrase .suffixes → Phrase .suffixes
  -- arguments: positional ones, then those with a name, and a comma may come last
  | argumentsEnd {named : Bool} : Phrase (.arguments named)
  | positional : Phrase (.level .expression) → Phrase (.arguments false)
  | positionalMore : Phrase (.level .expression) → Phrase (.arguments false) →
      Phrase (.arguments false)
  | keyword {named : Bool} (name : Text) : Phrase (.level .expression) → Phrase (.arguments named)
  | keywordMore {named : Bool} (name : Text) : Phrase (.level .expression) →
      Phrase (.arguments true) → Phrase (.arguments named)
  -- subscripts: an expression, or up to three parts with colons between them
  | index : Phrase (.level .expression) → Phrase .index
  | slice : Phrase .part → Phrase (.bounds 1) → Phrase .index
  | bound {colons : Nat} : Phrase .part → Phrase (.bounds colons)
  | boundMore {colons : Nat} : Phrase .part → Phrase (.bounds colons) → Phrase (.bounds (colons + 1))
  | absent : Phrase .part
  | present : Phrase (.level .expression) → Phrase .part
  -- what stands between brackets; a comma may come last
  | itemsEnd : Phrase .items
  | item : Phrase (.level .expression) → Phrase .items
  | itemMore : Phrase (.level .expression) → Phrase .items → Phrase .items
  | entriesEnd : Phrase .entries
  | entry : Phrase (.level .expression) → Phrase (.level .expression) → Phrase .entries
  | entryMore : Phrase (.level .expression) → Phrase (.level .expression) → Phrase .entries →
      Phrase .entries
  -- atoms
  | number (text : Text) : Phrase (.level .atom)
  | string (text : Text) : Phrase (.level .atom)
  | constant (text : Text) (value : Literal) : Parse.constant? text = some value →
      Phrase (.level .atom)
  | name (text : Text) : text ∉ Token.keywords → Phrase (.level .atom)
  | unit : Phrase (.level .atom)
  | group : Phrase (.level .expression) → Phrase (.level .atom)
  | tuple : Phrase (.level .expression) → Phrase .items → Phrase (.level .atom)
  | list : Phrase .items → Phrase (.level .atom)
  | dict : Phrase .entries → Phrase (.level .atom)
  | singleton : Phrase (.level .expression) → Phrase (.level .atom)
  | set : Phrase (.level .expression) → Phrase .items → Phrase (.level .atom)

/-- The value of the number that is written so. -/
def Literal.ofNumber (text : Text) : Literal :=
  if text.any (fun c => c.val == 46 || c.val == 101 || c.val == 69) then
    .float ((NumberText.readFloat? text).getD 0)
  else .int (NumberText.digitsValue text)

/-- What stands between the brackets of a subscript, without spans. -/
def Parse.Index.bare : Parse.Index → Parse.Index
  | .single index => .single index.bare
  | .slice _ lower upper step =>
    .slice Expr.nowhere (Expr.barePart lower) (Expr.barePart upper) (Expr.barePart step)

/-- The slice whose first part is `lower`; `bounds` are the parts behind its colons. -/
def Parse.Index.ofBounds (lower : Option Expr) : List (Option Expr) → Parse.Index
  | [] => .slice Expr.nowhere lower none none
  | [upper] => .slice Expr.nowhere lower upper none
  | upper :: step :: _ => .slice Expr.nowhere lower upper step

/-- The target with a subscript behind it. -/
def Parse.Index.apply (target : Expr) : Parse.Index → Expr
  | .single index => .subscript Expr.nowhere target index
  | .slice _ lower upper step => .sliced Expr.nowhere target Expr.nowhere lower upper step

namespace Phrase

/-- The words that a phrase is written with. -/
def words : {s : Symbol} → Phrase s → List Word
  | _, .single e => e.words
  | _, .commas e rest => e.words ++ .of "," :: rest.words
  | _, .chain first rest => first.words ++ rest.words
  | _, .tailEnd => []
  | _, .tailMore op _ e rest => op.word :: (e.words ++ rest.words)
  | _, .not e => .of "not" :: e.words
  | _, .compared e => e.words
  | _, .comparison first rest => first.words ++ rest.words
  | _, .comparisonsEnd => []
  | _, .comparisonsMore op e rest => op.words ++ (e.words ++ rest.words)
  | _, .signed op _ e => .of (.ofString op.symbol) :: e.words
  | _, .unsigned e => e.words
  | _, .base e => e.words
  | _, .power e exponent => e.words ++ .of "**" :: exponent.words
  | _, .primary e rest => e.words ++ rest.words
  | _, .suffixesEnd => []
  | _, .call args rest => .of "(" :: (args.words ++ .of ")" :: rest.words)
  | _, .attr label _ rest => .of "." :: ⟨.name, label⟩ :: rest.words
  | _, .subscript i rest => .of "[" :: (i.words ++ .of "]" :: rest.words)
  | _, .argumentsEnd => []
  | _, .positional e => e.words
  | _, .positionalMore e rest => e.words ++ .of "," :: rest.words
  | _, .keyword label e => ⟨.name, label⟩ :: .of "=" :: e.words
  | _, .keywordMore label e rest => ⟨.name, label⟩ :: .of "=" :: (e.words ++ .of "," :: rest.words)
  | _, .index e => e.words
  | _, .slice lower rest => lower.words ++ .of ":" :: rest.words
  | _, .bound e => e.words
  | _, .boundMore e rest => e.words ++ .of ":" :: rest.words
  | _, .absent => []
  | _, .present e => e.words
  | _, .itemsEnd => []
  | _, .item e => e.words
  | _, .itemMore e rest => e.words ++ .of "," :: rest.words
  | _, .entriesEnd => []
  | _, .entry key value => key.words ++ .of ":" :: value.words
  | _, .entryMore key value rest =>
    key.words ++ .of ":" :: (value.words ++ .of "," :: rest.words)
  | _, .number text => [⟨.number, text⟩]
  | _, .string text => [⟨.string, text⟩]
  | _, .constant text _ _ => [⟨.name, text⟩]
  | _, .name text _ => [⟨.name, text⟩]
  | _, .unit => [.of "(", .of ")"]
  | _, .group e => .of "(" :: (e.words ++ [.of ")"])
  | _, .tuple e rest => .of "(" :: (e.words ++ .of "," :: (rest.words ++ [.of ")"]))
  | _, .list rest => .of "[" :: (rest.words ++ [.of "]"])
  | _, .dict rest => .of "\x7b" :: (rest.words ++ [.of "\x7d"])
  | _, .singleton e => .of "\x7b" :: (e.words ++ [.of "\x7d"])
  | _, .set e rest => .of "\x7b" :: (e.words ++ .of "," :: (rest.words ++ [.of "\x7d"]))

/-- An expression and what it is compared with, if with anything. -/
def compare (first : Expr) : List (CompareOp × Expr) → Expr
  | [] => first
  | operand :: operands => .compare Expr.nowhere first (operand :: operands)

/-- What a phrase means, without spans. -/
def meaning : {s : Symbol} → Phrase s → s.Meaning
  | _, .single e => e.meaning
  | _, .commas e rest => .tuple Expr.nowhere (e.meaning :: rest.meaning)
  | _, .chain first rest => rest.meaning first.meaning
  | _, .tailEnd => fun left => left
  | _, .tailMore op _ e rest => fun left => rest.meaning (op.join left e.meaning)
  | _, .not e => .unary Expr.nowhere .not e.meaning
  | _, .compared e => e.meaning
  | _, .comparison first rest => compare first.meaning rest.meaning
  | _, .comparisonsEnd => []
  | _, .comparisonsMore op e rest => (op, e.meaning) :: rest.meaning
  | _, .signed op _ e => .unary Expr.nowhere op e.meaning
  | _, .unsigned e => e.meaning
  | _, .base e => e.meaning
  | _, .power e exponent => .binary Expr.nowhere .pow e.meaning exponent.meaning
  | _, .primary e rest => rest.meaning e.meaning
  | _, .suffixesEnd => fun target => target
  | _, .call args rest => fun target =>
    rest.meaning (.call Expr.nowhere target args.meaning.1 args.meaning.2)
  | _, .attr label _ rest => fun target => rest.meaning (.attribute Expr.nowhere target label)
  | _, .subscript i rest => fun target => rest.meaning (i.meaning.apply target)
  | _, .argumentsEnd => ([], [])
  | _, .positional e => ([e.meaning], [])
  | _, .positionalMore e rest => (e.meaning :: rest.meaning.1, rest.meaning.2)
  | _, .keyword label e => ([], [(Expr.nowhere, label, e.meaning)])
  | _, .keywordMore label e rest =>
    (rest.meaning.1, (Expr.nowhere, label, e.meaning) :: rest.meaning.2)
  | _, .index e => .single e.meaning
  | _, .slice lower rest => .ofBounds lower.meaning rest.meaning
  | _, .bound e => [e.meaning]
  | _, .boundMore e rest => e.meaning :: rest.meaning
  | _, .absent => none
  | _, .present e => some e.meaning
  | _, .itemsEnd => []
  | _, .item e => [e.meaning]
  | _, .itemMore e rest => e.meaning :: rest.meaning
  | _, .entriesEnd => []
  | _, .entry key value => [(key.meaning, value.meaning)]
  | _, .entryMore key value rest => (key.meaning, value.meaning) :: rest.meaning
  | _, .number text => .literal Expr.nowhere (.ofNumber text)
  | _, .string text => .literal Expr.nowhere (.text ((text.drop 1).take (text.length - 2)))
  | _, .constant _ value _ => .literal Expr.nowhere value
  | _, .name text _ => .name Expr.nowhere text
  | _, .unit => .tuple Expr.nowhere []
  | _, .group e => e.meaning
  | _, .tuple e rest => .tuple Expr.nowhere (e.meaning :: rest.meaning)
  | _, .list rest => .list Expr.nowhere rest.meaning
  | _, .dict rest => .dict Expr.nowhere rest.meaning
  | _, .singleton e => .set Expr.nowhere [e.meaning]
  | _, .set e rest => .set Expr.nowhere (e.meaning :: rest.meaning)

end Phrase

end Scriptlet
