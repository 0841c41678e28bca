import Scriptlet.Text

/-
  The functions that scripts can name.

  Built-in functions are there without an import. Every library is a fixed set of constants and
  functions under a name; two of them, the paths and the clock, are members of another one. Objects
  that come into being during a run, such as open files and matches, have functions of their own,
  named by `Method`.
-/

namespace Scriptlet

/-- A function that every script can use without an import. -/
inductive Builtin where
  | print | input
  | len | type | isinstance | hasattr | getattr | setattr | dir | id | hash
  | str | int | float | bool | list | dict | set | tuple
  | abs | max | min | sum | round | pow | divmod
  | range | enumerate | zip | sorted | reversed | filter | map | any | all
  | ord | chr | ascii | repr
  | open | eval | exec
  deriving DecidableEq

/-- A simulated library, or a part of one that has a name of its own. -/
inductive Library where
  | math
  | random
  | datetime
  | clock
  | json
  | pattern
  | os
  | path
  | system
  deriving DecidableEq

/-- A function of a library. -/
inductive LibraryFunction where
  | sqrt | sin | cos | tan | asin | acos | atan | log | log10 | exp | ceil | floor
  | degrees | radians | factorial
  | random | randint | choice | shuffle | sample
  | time | now | today
  | loads | dumps
  | search | matchStart | findall | substitute
  | getcwd | listdir | join | exists | isfile | isdir
  | exit
  deriving DecidableEq

/-- A function of an object that came into being during the run. -/
inductive Method where
  /-- Of an open file. -/
  | read | write | close
  /-- Of a match. -/
  | group | groups | start | stop
  /-- Of a moment. -/
  | isoformat
  deriving DecidableEq

namespace Builtin

/-- The built-in functions. -/
def every : List Builtin :=
  [.print, .input, .len, .type, .isinstance, .hasattr, .getattr, .setattr, .dir, .id, .hash,
   .str, .int, .float, .bool, .list, .dict, .set, .tuple, .abs, .max, .min, .sum, .round, .pow,
   .divmod, .range, .enumerate, .zip, .sorted, .reversed, .filter, .map, .any, .all, .ord, .chr,
   .ascii, .repr, .open, .eval, .exec]

def name : Builtin → String
  | .print => "print" | .input => "input" | .len => "len" | .type => "type"
  | .isinstance => "isinstance" | .hasattr => "hasattr" | .getattr => "getattr"
  | .setattr => "setattr" | .dir => "dir" | .id => "id" | .hash => "hash" | .str => "str"
  | .int => "int" | .float => "float" | .bool => "bool" | .list => "list" | .dict => "dict"
  | .set => "set" | .tuple => "tuple" | .abs => "abs" | .max => "max" | .min => "min"
  | .sum => "sum" | .round => "round" | .pow => "pow" | .divmod => "divmod" | .range => "range"
  | .enumerate => "enumerate" | .zip => "zip" | .sorted => "sorted" | .reversed => "reversed"
  | .filter => "filter" | .map => "map" | .any => "any" | .all => "all" | .ord => "ord"
  | .chr => "chr" | .ascii => "ascii" | .repr => "repr" | .open => "open" | .eval => "eval"
  | .exec => "exec"

/-- The built-in function with a name. -/
def ofName? (name : Text) : Option Builtin := every.find? fun b => Text.ofString b.name == name

/-- Whether the function converts to a type and so stands for it in tests of type. -/
def namesType : Builtin → Bool
  | .int | .float | .str | .bool | .list | .dict | .set | .tuple => true
  | _ => false

end Builtin

namespace Library

def name : Library → String
  | .math => "math"
  | .random => "random"
  | .datetime => "datetime"
  | .clock => "datetime.datetime"
  | .json => "json"
  | .pattern => "re"
  | .os => "os"
  | .path => "os.path"
  | .system => "sys"

/-- The libraries that a script can import. -/
def importable : List Library := [.math, .random, .datetime, .json, .pattern, .os, .system]

/-- The library that a script imports under a name. -/
def ofName? (name : Text) : Option Library :=
  importable.find? fun l => Text.ofString l.name == name

/-- The functions of a library under their names. -/
def functions : Library → List (String × LibraryFunction)
  | .math =>
    [("sqrt", .sqrt), ("sin", .sin), ("cos", .cos), ("tan", .tan), ("asin", .asin),
     ("acos", .acos), ("atan", .atan), ("log", .log), ("log10", .log10), ("exp", .exp),
     ("ceil", .ceil), ("floor", .floor), ("degrees", .degrees), ("radians", .radians),
     ("factorial", .factorial)]
  | .random =>
    [("random", .random), ("randint", .randint), ("choice", .choice), ("shuffle", .shuffle),
     ("sample", .sample)]
  | .datetime => [("time", .time)]
  | .clock => [("now", .now), ("today", .today)]
  | .json => [("loads", .loads), ("dumps", .dumps)]
  | .pattern =>
    [("search", .search), ("match", .matchStart), ("findall", .findall), ("sub", .substitute)]
  | .os => [("getcwd", .getcwd), ("listdir", .listdir)]
  | .path => [("join", .join), ("exists", .exists), ("isfile", .isfile), ("isdir", .isdir)]
  | .system => [("exit", .exit)]

/-- All libraries, also those that are members of another one. -/
def every : List Library :=
  [.math, .random, .datetime, .clock, .json, .pattern, .os, .path, .system]

end Library

/-- The name of a library function behind that of its library. -/
def LibraryFunction.title (f : LibraryFunction) : String :=
  match (Library.every.flatMap fun l => l.functions.map fun e => (l, e)).find? (·.2.2 == f) with
  | some (l, name, _) => l.name ++ "." ++ name
  | none => ""

/-- The name of a method behind that of the kind of object that has it. -/
def Method.title : Method → String
  | .read => "file.read"
  | .write => "file.write"
  | .close => "file.close"
  | .group => "re.Match.group"
  | .groups => "re.Match.groups"
  | .start => "re.Match.start"
  | .stop => "re.Match.end"
  | .isoformat => "datetime.isoformat"

end Scriptlet
