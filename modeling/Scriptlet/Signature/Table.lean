import Scriptlet.Signature

/-
  The parameters of every function.

  Most functions name their parameters; functions that take a fixed number of arguments by position
  only are checked by `Arguments.single` and its like, which report in a wording of their own.
-/

namespace Scriptlet

namespace Signature

/-- Parameters by their names; a question mark behind a name makes it optional. -/
def parametersOf (names : List String) : List Parameter :=
  names.map fun name =>
    let text := Text.ofString name
    if text.getLast? = some (CodePoint.ofChar '?') then ⟨text.dropLast, true⟩ else ⟨text, false⟩

/-- A function with a fixed list of parameters. -/
def plain (title : Text) (names : List String) : Signature :=
  ⟨title, false, parametersOf names, false, []⟩

/-- A function with a rest behind its parameters. -/
def withRest (title : Text) (names : List String) : Signature :=
  ⟨title, false, parametersOf names, true, []⟩

end Signature

namespace Builtin

/-- The parameters of a built-in function. -/
def parameterNames : Builtin → List String
  | .print | .max | .min | .range | .zip => []
  | .input => ["prompt?"]
  | .len | .type | .id | .hash | .ascii | .repr => ["obj"]
  | .isinstance => ["obj", "classinfo"]
  | .hasattr => ["obj", "name"]
  | .getattr => ["obj", "name", "default?"]
  | .setattr => ["obj", "name", "value"]
  | .dir | .str | .int | .float | .bool | .list | .dict | .set | .tuple => ["obj?"]
  | .abs => ["x"]
  | .sum | .enumerate => ["items", "start?"]
  | .round => ["x", "digits?"]
  | .pow => ["x", "y", "mod?"]
  | .divmod => ["a", "b"]
  | .sorted => ["items", "reverse?", "key?"]
  | .reversed | .any | .all => ["items"]
  | .filter => ["func", "items"]
  | .map => ["func"]
  | .ord => ["char"]
  | .chr => ["code"]
  | .open => ["filename", "mode?"]
  | .eval => ["expression"]
  | .exec => ["code"]

/-- Whether the function takes any number of further arguments. -/
def hasRest : Builtin → Bool
  | .print | .max | .min | .range | .zip | .map => true
  | _ => false

/-- How a built-in function takes its arguments. -/
def signature (f : Builtin) : Signature where
  title := "BuiltinLibrary._" ++ f.name
  countsOwner := true
  parameters := Signature.parametersOf f.parameterNames
  hasRest := f.hasRest
  named := if f = .print then ["sep"] else []

end Builtin

namespace LibraryFunction

/-- How a library function takes its arguments; `none` for those that take them by position only. -/
def signature? : LibraryFunction → Option Signature
  | .sqrt | .sin | .cos | .tan | .asin | .acos | .atan | .log10 | .exp | .ceil | .floor | .degrees
  | .radians | .random => none
  | .log => some (.plain "_log" ["x", "base?"])
  | .factorial => some (.plain "_factorial" ["n"])
  | .randint => some (.plain "_random.<locals>.<lambda>" ["a", "b"])
  | .choice => some (.plain "_random.<locals>.<lambda>" ["items"])
  | .shuffle => some (.plain "_shuffle" ["items"])
  | .sample => some (.plain "_random.<locals>.<lambda>" ["items", "k"])
  | .time | .today => some (.plain "_datetime.<locals>.<lambda>" [])
  | .now => some (.plain "_snapshot" [])
  | .loads => some (.plain "_loads" ["text"])
  | .dumps => some (.plain "_dumps" ["obj", "indent?"])
  | .search | .matchStart | .findall => some (.plain "_re.<locals>.<lambda>" ["pattern", "text"])
  | .substitute => some (.plain "_re.<locals>.<lambda>" ["pattern", "repl", "text"])
  | .getcwd => some (.plain "_os.<locals>.<lambda>" [])
  | .listdir => some (.plain "_os.<locals>.<lambda>" ["p?"])
  | .join => some (.withRest "_os.<locals>.<lambda>" [])
  | .exists | .isfile | .isdir => some (.plain "_os.<locals>.<lambda>" ["p"])
  | .exit => some (.plain "_exit" ["code?"])

end LibraryFunction

namespace Method

/-- How a function of an object takes its arguments; `none` for those that take them by position. -/
def signature? : Method → Option Signature
  | .read | .close => some (.plain "BuiltinLibrary._open.<locals>.<lambda>" [])
  | .write => some (.plain "BuiltinLibrary._open.<locals>.<lambda>" ["data"])
  | .group => some (.plain "_match_object.<locals>.<lambda>" ["index?"])
  | .groups => some (.plain "_match_object.<locals>.<lambda>" [])
  | .start | .stop | .isoformat => none

end Method

namespace Arguments

def refuse {α : Type} (text : Text) : Except Fault α := throw (.of .badType text)

/-- The report of a keyword that would name a function twice. -/
def requireNoOwner (arguments : Arguments) : Except Fault Unit := do
  if arguments.keywords.any fun keyword => keyword.1 == "self" then
    refuse "NativeFunction.__call__() got multiple values for argument 'self'"

/-- Refuses arguments by name. -/
def requirePositional (arguments : Arguments) (title : Text) : Except Fault Unit := do
  arguments.requireNoOwner
  if !arguments.keywords.isEmpty then refuse (title ++ "() takes no keyword arguments")

/-- The only argument of a call. -/
def single (arguments : Arguments) (title : Text) : Except Fault Value := do
  arguments.requirePositional title
  match arguments.positional with
  | [v] => return v
  | given =>
    refuse (title ++ "() takes exactly one argument (" ++ Text.ofNat given.length ++ " given)")

/-- Refuses all arguments. -/
def requireNone (arguments : Arguments) (title : Text) : Except Fault Unit := do
  arguments.requirePositional title
  let given := arguments.positional.length
  if given > 0 then refuse (title ++ "() takes no arguments (" ++ Text.ofNat given ++ " given)")

/-- The only argument of a call, if it has one. -/
def atMostOne (arguments : Arguments) (title word : Text) : Except Fault (Option Value) := do
  arguments.requirePositional title
  match arguments.positional with
  | [] => return none
  | [v] => return some v
  | given =>
    refuse (word ++ " expected at most 1 argument, got " ++ Text.ofNat given.length)

end Arguments

end Scriptlet
