import Scriptlet.Expr
import Scriptlet.Numeric.NumberText
import Scriptlet.Token

/-
  Reading expressions.

  From the loosest to the tightest: lists with commas, `or`, `and`, `not`, comparisons, sums,
  products, signs, powers, and calls, attributes and subscripts behind an atom. Sums, products and
  the two Boolean operators group to the left, powers to the right; a sign binds looser than a power
  on its right and tighter than a product.

  Each rule takes the room left for rules within rules and leaves one less to the rules it uses, so
  a text that nests too deep is refused and reading always ends.
-/

namespace Scriptlet

/-- What the parser wanted instead of what it found. -/
inductive Expected where
  | anything
  | token (text : Text)
  | attributeName
  | positionalBeforeKeyword
  | subscript
  deriving DecidableEq

/-- Why a text is no expression. -/
inductive ParseFault where
  | scan (fault : ScanFault)
  | empty
  /-- What stands at a place, or the end of the text, does not fit there. -/
  | unexpected (expected : Expected) (found : Option Text)
  /-- An integer with this many digits is too long to be converted. -/
  | longInteger (digits : Nat)
  | tooDeep
  deriving DecidableEq

def Expected.message : Expected → Text
  | .anything => "invalid syntax"
  | .token text => "expected '" ++ text ++ "'"
  | .attributeName => "expected attribute name"
  | .positionalBeforeKeyword => "positional argument follows keyword argument"
  | .subscript => "empty subscript"

/-- The tokens that are left, and where the last one read ends. -/
structure Cursor where
  rest : List Token
  lastStop : Nat

abbrev Parse := StateT Cursor (Except ParseFault)

namespace Parse

/-- The next token, if there is one. -/
def peek : Parse (Option Token) := do return (← get).rest.head?

/-- The offset where the next token begins. -/
def position : Parse Nat := do
  match (← get).rest with
  | [] => return (← get).lastStop
  | token :: _ => return token.start

/-- The span from `start` to the end of the last token read. -/
def spanFrom (start : Nat) : Parse Span := do return ⟨start, (← get).lastStop⟩

/-- Goes past the next token. -/
def advance : Parse Unit := modify fun cursor =>
  match cursor.rest with
  | [] => cursor
  | token :: rest => ⟨rest, token.stop⟩

/-- Refuses what stands at the next place. -/
def refuse {α : Type} (expected : Expected) : Parse α := do
  throw (.unexpected expected ((← peek).map (·.text)))

/-- Whether the next token is the operator or name `text`. -/
def at? (text : Text) : Parse Bool := do return (← peek).any (Token.is text)

/-- Whether the token behind the next one is the operator or name `text`. -/
def secondIs (text : Text) : Parse Bool := do return ((← get).rest.drop 1).head?.any (Token.is text)

/-- Goes past the operator or name `text` if it comes next, and tells whether it did. -/
def accept (text : Text) : Parse Bool := do
  if ← at? text then
    advance
    return true
  else return false

/-- Goes past the operator or name `text`, which has to come next. -/
def expect (text : Text) : Parse Unit := do
  if ← accept text then return ()
  else refuse (.token text)

/-- Goes past the first operator of a table that comes next. -/
def acceptOperator {α : Type} (table : List (Text × α)) : Parse (Option α) := do
  match ← peek with
  | some token =>
    match table.find? (fun entry => token.isOperator && token.text == entry.1) with
    | some (_, op) =>
      advance
      return some op
    | none => return none
  | none => return none

/-- Whether the next token can begin an expression. -/
def startsExpression : Parse Bool := do
  match ← peek with
  | none => return false
  | some token =>
    return !token.isOperator ||
      (token.text == "(" || token.text == "[" || token.text == "\x7b" || token.text == "-" ||
        token.text == "+")

/-- Operands with operators between them, grouped to the left; at most `steps` more operators. -/
def leftChain {α : Type} (operator : Parse (Option α)) (operand : Parse Expr)
    (build : Span → α → Expr → Expr → Expr) (start : Nat) : Nat → Expr → Parse Expr
  | 0, left => return left
  | steps + 1, left => do
    match ← operator with
    | none => return left
    | some op =>
      let right ← operand
      leftChain operator operand build start steps (build (← spanFrom start) op left right)

/-- An operand and the operators and operands behind it, grouped to the left. -/
def chain {α : Type} (operator : Parse (Option α)) (operand : Parse Expr)
    (build : Span → α → Expr → Expr → Expr) : Parse Expr := do
  let start ← position
  let first ← operand
  leftChain operator operand build start (← get).rest.length first

/-- A word that joins two operands. -/
def word (text : Text) (op : BoolOp) : Parse (Option BoolOp) := do
  return if ← accept text then some op else none

def sumOperators : List (Text × BinaryOp) := [("+", .add), ("-", .sub)]

def productOperators : List (Text × BinaryOp) :=
  [("*", .mul), ("/", .div), ("//", .floorDiv), ("%", .mod)]

def signOperators : List (Text × UnaryOp) := [("-", .negative), ("+", .positive)]

def orderOperators : List (Text × CompareOp) :=
  [("==", .eq), ("!=", .ne), ("<", .lt), (">", .gt), ("<=", .le), (">=", .ge)]

/-- A comparison operator, if one comes next; some are made of two words. -/
def compareOperator : Parse (Option CompareOp) := do
  match ← acceptOperator orderOperators with
  | some op => return some op
  | none =>
    if ← accept "in" then return some .isIn
    else if (← at? "not") && (← secondIs "in") then
      advance
      advance
      return some .notIn
    else if ← accept "is" then
      if ← accept "not" then return some .isNotSame
      else return some .isSame
    else return none

/-- The operators and operands of a comparison behind those in `done`, which is backwards. -/
def comparisons (operand : Parse Expr) : Nat → List (CompareOp × Expr) →
    Parse (List (CompareOp × Expr))
  | 0, done => return done.reverse
  | steps + 1, done => do
    match ← compareOperator with
    | none => return done.reverse
    | some op =>
      let right ← operand
      comparisons operand steps ((op, right) :: done)

/-- Expressions with commas between them up to a closing bracket, behind those in `done`, which is
backwards; a comma may come last. -/
def itemsUpTo (item : Parse Expr) (closing : Text) : Nat → List Expr → Parse (List Expr)
  | 0, done => return done.reverse
  | steps + 1, done => do
    if ← accept closing then return done.reverse
    else
      let next ← item
      if ← accept "," then itemsUpTo item closing steps (next :: done)
      else
        expect closing
        return (next :: done).reverse

/-- Expressions with commas between them up to a closing bracket. -/
def items (item : Parse Expr) (closing : Text) (done : List Expr) : Parse (List Expr) := do
  itemsUpTo item closing ((← get).rest.length + 1) done

/-- The expressions of a list behind its first comma; a comma may come last. -/
def listTail (item : Parse Expr) : Nat → List Expr → Parse (List Expr)
  | 0, done => return done.reverse
  | steps + 1, done => do
    if ← accept "," then
      if ← startsExpression then
        let next ← item
        listTail item steps (next :: done)
      else return done.reverse
    else return done.reverse

/-- An expression, or a tuple of expressions if a comma follows the first one. -/
def expressionList (item : Parse Expr) : Parse Expr := do
  let start ← position
  let first ← item
  if ← at? "," then
    let all ← listTail item (← get).rest.length [first]
    return .tuple (← spanFrom start) all
  else return first

/-- The arguments of a call up to the closing bracket: positional ones, then those with a name. Both
are given backwards as read so far. -/
def argumentsUpTo (item : Parse Expr) : Nat → List Expr → List (Span × Text × Expr) →
    Parse (List Expr × List (Span × Text × Expr))
  | 0, args, keywords => return (args.reverse, keywords.reverse)
  | steps + 1, args, keywords => do
    if ← accept ")" then return (args.reverse, keywords.reverse)
    else
      let start ← position
      let named := (← peek).filter (·.kind == .name)
      let (args, keywords) ← match named, ← secondIs "=" with
        | some token, true => do
          advance
          advance
          let value ← item
          pure (args, ((← spanFrom start), token.text, value) :: keywords)
        | _, _ => do
          if keywords.isEmpty then
            let value ← item
            pure (value :: args, keywords)
          else refuse .positionalBeforeKeyword
      if ← accept "," then argumentsUpTo item steps args keywords
      else
        expect ")"
        return (args.reverse, keywords.reverse)

/-- What stands between the brackets of a subscript. -/
inductive Index where
  | single (index : Expr)
  | slice (bounds : Span) (lower upper step : Option Expr)

/-- The parts of a subscript up to the closing bracket: `part` is the current one and `before` holds
the ones before it, backwards. -/
def subscriptParts (item : Parse Expr) : Nat → List (Option Expr) → Option Expr →
    Parse (List (Option Expr) × Option Expr)
  | 0, before, part => return (before, part)
  | steps + 1, before, part => do
    if ← at? ":" then
      advance
      if before.length ≥ 2 then refuse .anything
      else subscriptParts item steps (part :: before) none
    else if ← at? "]" then return (before, part)
    else
      match part with
      | some _ => refuse .anything
      | none =>
        let next ← item
        subscriptParts item steps before (some next)

/-- What stands between the brackets of a subscript: an expression, or up to three parts with one or
two colons between them. -/
def subscript (item : Parse Expr) : Parse Index := do
  let start ← position
  let (before, part) ← subscriptParts item ((← get).rest.length + 1) [] none
  match before with
  | [] =>
    match part with
    | some index => return .single index
    | none => refuse .subscript
  | [lower] => return .slice (← spanFrom start) lower part none
  | upper :: lower :: _ => return .slice (← spanFrom start) lower upper part

/-- The calls, attributes and subscripts behind an atom, grouped to the left. -/
def suffixes (item : Parse Expr) (start : Nat) : Nat → Expr → Parse Expr
  | 0, target => return target
  | steps + 1, target => do
    if ← accept "(" then
      let (args, keywords) ← argumentsUpTo item ((← get).rest.length + 1) [] []
      suffixes item start steps (.call (← spanFrom start) target args keywords)
    else if ← accept "." then
      match (← peek).filter (fun t => t.kind == .name && !Token.keywords.contains t.text) with
      | some token =>
        advance
        suffixes item start steps (.attribute (← spanFrom start) target token.text)
      | none => refuse .attributeName
    else if ← accept "[" then
      let index ← subscript item
      expect "]"
      let span ← spanFrom start
      suffixes item start steps <| match index with
        | .single index => .subscript span target index
        | .slice bounds lower upper step => .sliced span target bounds lower upper step
    else return target

/-- The entries of a mapping display behind those in `done`, which is backwards. -/
def entries (item : Parse Expr) : Nat → List (Expr × Expr) → Parse (List (Expr × Expr))
  | 0, done => return done.reverse
  | steps + 1, done => do
    if ← accept "," then
      if ← at? "\x7d" then return done.reverse
      else
        let key ← item
        expect ":"
        let value ← item
        entries item steps ((key, value) :: done)
    else return done.reverse

/-- A set or mapping display behind its opening brace. -/
def braces (item : Parse Expr) (start : Nat) : Parse Expr := do
  if ← accept "\x7d" then return .dict (← spanFrom start) []
  else
    let first ← item
    if ← accept ":" then
      let value ← item
      let all ← entries item (← get).rest.length [(first, value)]
      expect "\x7d"
      return .dict (← spanFrom start) all
    else if ← accept "," then
      let all ← items item "\x7d" [first]
      return .set (← spanFrom start) all
    else
      expect "\x7d"
      return .set (← spanFrom start) [first]

/-- An expression in parentheses or a tuple, behind the opening parenthesis. -/
def parentheses (item : Parse Expr) (start : Nat) : Parse Expr := do
  if ← accept ")" then return .tuple (← spanFrom start) []
  else
    let first ← item
    if ← accept ")" then return first
    else
      expect ","
      let all ← items item ")" [first]
      return .tuple (← spanFrom start) all

/-- The value of a number: a double if it has a point or an exponent, else an integer. -/
def number (text : Text) : Parse Literal :=
  if text.any (fun c => c.val == 46 || c.val == 101 || c.val == 69) then
    return .float ((NumberText.readFloat? text).getD 0)
  else if text.length > NumberText.maxDigits then throw (.longInteger text.length)
  else return .int (NumberText.digitsValue text)

/-- The constant that a name stands for, if it stands for one. -/
def constant? (text : Text) : Option Literal :=
  if text == "True" then some (.bool true)
  else if text == "False" then some (.bool false)
  else if text == "None" then some .none
  else none

/-- An atom: a constant, a name, or something in brackets. -/
def atom (item : Parse Expr) : Parse Expr := do
  let start ← position
  match ← peek with
  | none => refuse .anything
  | some token =>
    match token.kind with
    | .number =>
      advance
      return .literal (← spanFrom start) (← number token.text)
    | .string =>
      advance
      return .literal (← spanFrom start) (.text ((token.text.drop 1).take (token.text.length - 2)))
    | .name =>
      match constant? token.text with
      | some value =>
        advance
        return .literal (← spanFrom start) value
      | none =>
        if Token.keywords.contains token.text then refuse .anything
        else
          advance
          return .name (← spanFrom start) token.text
    | .operator =>
      if ← accept "(" then parentheses item start
      else if ← accept "[" then
        let all ← items item "]" []
        return .list (← spanFrom start) all
      else if ← accept "\x7b" then braces item start
      else refuse .anything

mutual

/-- One expression without a comma outside brackets. -/
def expression : Nat → Parse Expr
  | 0 => throw .tooDeep
  | room + 1 => disjunction room

def disjunction : Nat → Parse Expr
  | 0 => throw .tooDeep
  | room + 1 => chain (word "or" .or) (conjunction room) Expr.boolean

def conjunction : Nat → Parse Expr
  | 0 => throw .tooDeep
  | room + 1 => chain (word "and" .and) (negation room) Expr.boolean

def negation : Nat → Parse Expr
  | 0 => throw .tooDeep
  | room + 1 => do
    let start ← position
    if ← accept "not" then
      let operand ← negation room
      return .unary (← spanFrom start) .not operand
    else comparison room

def comparison : Nat → Parse Expr
  | 0 => throw .tooDeep
  | room + 1 => do
    let start ← position
    let left ← sum room
    let rest ← comparisons (sum room) (← get).rest.length []
    if rest.isEmpty then return left
    else return .compare (← spanFrom start) left rest

def sum : Nat → Parse Expr
  | 0 => throw .tooDeep
  | room + 1 => chain (acceptOperator sumOperators) (product room) Expr.binary

def product : Nat → Parse Expr
  | 0 => throw .tooDeep
  | room + 1 => chain (acceptOperator productOperators) (factor room) Expr.binary

def factor : Nat → Parse Expr
  | 0 => throw .tooDeep
  | room + 1 => do
    let start ← position
    match ← acceptOperator signOperators with
    | some op =>
      let operand ← factor room
      return .unary (← spanFrom start) op operand
    | none => power room

def power : Nat → Parse Expr
  | 0 => throw .tooDeep
  | room + 1 => do
    let start ← position
    let base ← primary room
    if ← accept "**" then
      let exponent ← factor room
      return .binary (← spanFrom start) .pow base exponent
    else return base

def primary : Nat → Parse Expr
  | 0 => throw .tooDeep
  | room + 1 => do
    let start ← position
    let target ← atom (expression room)
    suffixes (expression room) start (← get).rest.length target

end

end Parse

namespace Expr

/-- The expression, or tuple without parentheses, that the whole text is, within `room` rules. -/
def parseWhole (room : Nat) (text : Text) : Except ParseFault Expr :=
  match Token.scan text with
  | .error fault => .error (.scan fault)
  | .ok [] => .error .empty
  | .ok tokens =>
    match (Parse.expressionList (Parse.expression room)).run ⟨tokens, 0⟩ with
    | .error fault => .error fault
    | .ok (e, ⟨[], _⟩) => .ok e
    | .ok (_, ⟨token :: _, _⟩) => .error (.unexpected .anything (some token.text))

/-- The expression that the text is but for blanks at its ends; spans count from the first code point
that is not blank. -/
def parse (room : Nat) (text : Text) : Except ParseFault Expr := parseWhole room text.trim

end Expr

/-- The report of a text that is no expression; `none` when there was no room to tell. -/
def ParseFault.message? : ParseFault → Option Text
  | .scan fault => some fault.message
  | .empty => some "empty expression"
  | .unexpected expected found =>
    some <| expected.message ++ " at " ++
      match found with
      | none => ("end of expression" : Text)
      | some text => "'" ++ text ++ "'"
  | .longInteger _ => none
  | .tooDeep => none

end Scriptlet
