import Scriptlet.Fault
import Scriptlet.Text.Blank
import Scriptlet.Token

/-
  The lines of a script and what they say.

  A header opens a block: a loop over the elements of a list, a condition, or a loop under a
  condition. Every other line is an import, an assignment or an expression. What a line is, its first
  word decides, and whether an operator that assigns stands outside of brackets.
-/

namespace Scriptlet

/-- A line that a block belongs to. -/
inductive Header where
  | forEach (targets : List Text) (items : Text)
  | onlyIf (condition : Text)
  | whileTrue (condition : Text)
  deriving DecidableEq

/-- A line that stands by itself. -/
inductive Statement where
  | pass
  | importModule (module : Text)
  | importNames (module : Text) (names : List Text)
  /-- An assignment, with the operator that assigns. -/
  | assign (target operator expression : Text)
  | expression (text : Text)
  deriving DecidableEq

/-- A line of a script. -/
inductive Line where
  | header (h : Header)
  | statement (s : Statement)
  deriving DecidableEq

/-! ## Parts of a line -/

namespace Line

/-- The text before the colon at the end, if there is one. -/
def beforeColon? (line : Text) : Option Text :=
  if line.getLast? = some (CodePoint.ofChar ':') then some line.dropLast else none

/-- What follows blanks at the start of a text: as little as possible, but something. -/
def afterBlanks? (t : Text) : Option Text :=
  let blanks := (t.takeWhile CodePoint.isBlank).length
  if blanks = 0 then none
  else if blanks < t.length then some (t.drop blanks)
  else if blanks ≥ 2 then some (t.drop (blanks - 1))
  else none

/-- What follows the word `in` between blanks at the start of a text. -/
def afterIn? (t : Text) : Option Text :=
  if t.head?.any CodePoint.isBlank then
    (Text.dropStart? "in" t.trimLeft).bind afterBlanks?
  else none

/-- The text before the first `in` between blanks and the text behind it; `done` comes before, read
backwards, and the first of the two is not empty. -/
def splitAtIn? (done : Text) : Text → Option (Text × Text)
  | [] => none
  | c :: rest =>
    match afterIn? rest with
    | some items => some ((c :: done).reverse, items)
    | none => splitAtIn? (c :: done) rest

/-- The targets and the items of a loop, behind the word `for`; the targets begin as far behind the
blanks in front of them as they can. -/
def loopParts? (t : Text) : Option (Text × Text) :=
  let blanks := (t.takeWhile CodePoint.isBlank).length
  (List.range blanks).findSome? fun less => splitAtIn? [] (t.drop (blanks - less))

/-- The name behind the word `import`. -/
def importedModule? (t : Text) : Option Text :=
  if t.head?.any CodePoint.isBlank && !t.trimLeft.isEmpty && t.trimLeft.all CodePoint.isWord then
    some t.trimLeft
  else none

/-- The module and the names behind the word `from`. -/
def importedNames? (t : Text) : Option (Text × Text) :=
  if t.head?.any CodePoint.isBlank then
    let module := t.trimLeft.takeWhile CodePoint.isWord
    let rest : Text := t.trimLeft.dropWhile CodePoint.isWord
    if !module.isEmpty && rest.head?.any CodePoint.isBlank then
      ((Text.dropStart? "import" rest.trimLeft).bind afterBlanks?).map fun names => (module, names)
    else none
  else none

/-- The parts between commas, without blanks at their ends. -/
def commaParts (t : Text) : List Text := (t.splitOn ',').map Text.trim

/-! ## Reading -/

/-- The loop that a line begins with. -/
def readFor (line rest : Text) : Except Fault Header :=
  match (beforeColon? rest).bind loopParts? with
  | none => throw (.badSyntax ("invalid for loop syntax: " ++ line))
  | some (targets, items) =>
    let names := commaParts targets
    match names.find? fun name => !name.isIdentifier || Token.keywords.contains name with
    | some name =>
      throw (.badSyntax ("invalid for loop variable '" ++ name ++ "': " ++ line))
    | none => return .forEach names items

/-- The condition that a line begins with. -/
def readIf (line rest : Text) : Except Fault Header :=
  match (beforeColon? rest).bind afterBlanks? with
  | none => throw (.badSyntax ("invalid if statement syntax: " ++ line))
  | some condition => return .onlyIf condition

/-- The loop under a condition that a line begins with. -/
def readWhile (line rest : Text) : Except Fault Header :=
  match (beforeColon? rest).bind afterBlanks? with
  | none => throw (.badSyntax ("invalid while loop syntax: " ++ line))
  | some condition => return .whileTrue condition

/-- The import of a line. -/
def readImport (line : Text) : Except Fault Statement :=
  match (Text.dropStart? "import" line).bind importedModule? with
  | some module => return .importModule module
  | none =>
    match (Text.dropStart? "from" line).bind importedNames? with
    | some (module, names) => return .importNames module (commaParts names)
    | none => throw (.badSyntax ("invalid import syntax: " ++ line))

/-- The assignment of a line, if an operator in it assigns. -/
def readAssignment? (line : Text) : Except Fault (Option Statement) :=
  match Token.scan line with
  | .error fault => throw (.error ⟨.badSyntax, fault.message, line⟩)
  | .ok tokens =>
    return (Token.firstAssignment 0 tokens).map fun token =>
      .assign (Text.trim (line.take token.start)) token.text (Text.trim (line.drop token.stop))

/-- The statement that a line is. -/
def readStatement (line : Text) : Except Fault Statement := do
  if line == "pass" then return .pass
  else if Text.startsWithWord "import" line || Text.startsWithWord "from" line then readImport line
  else return (← readAssignment? line).getD (.expression line)

/-- What a line says that has no blanks at its ends. -/
def read (line : Text) : Except Fault Line := do
  match Text.dropWord? "for" line, Text.dropWord? "if" line, Text.dropWord? "while" line with
  | some rest, _, _ => return .header (← readFor line rest)
  | _, some rest, _ => return .header (← readIf line rest)
  | _, _, some rest => return .header (← readWhile line rest)
  | none, none, none =>
    if Text.startsWithWord "elif" line || Text.startsWithWord "else" line then
      throw (.badSyntax ("'elif' and 'else' blocks are not supported: " ++ line))
    else return .statement (← readStatement line)

end Line

end Scriptlet
