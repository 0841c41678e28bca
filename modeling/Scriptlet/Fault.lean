import Scriptlet.Text

/-
  What can stop a run.

  An operation on values that cannot be carried out reports a `Failure`. Where it happens inside an
  expression, the evaluator turns it into a `ScriptError` that names the sub-expression; outside of
  one it stops the run as it is. A run that nests too deep for the room it was given is `tooDeep`
  until some evaluation turns that into a script error of its own.
-/

namespace Scriptlet

/-- Why an operation on values failed. -/
inductive FailureKind where
  | badType
  | badValue
  | zeroDivision
  | badIndex
  | missingKey
  | overflow
  | pattern
  | memory
  | attribute
  | misuse
  deriving DecidableEq

/-- The name of a failure in error texts. -/
def FailureKind.label : FailureKind → String
  | .badType => "TypeError"
  | .badValue => "ValueError"
  | .zeroDivision => "ZeroDivisionError"
  | .badIndex => "IndexError"
  | .missingKey => "KeyError"
  | .overflow => "OverflowError"
  | .pattern => "error"
  | .memory => "MemoryError"
  | .attribute => "AttributeError"
  | .misuse => "RuntimeError"

/-- An operation that could not be carried out, and its report. -/
structure Failure where
  kind : FailureKind
  text : Text
  deriving DecidableEq

/-- The kinds of error a script can end with. -/
inductive ErrorKind where
  | badSyntax
  | badName
  | badType
  | badValue
  | badImport
  | badAttribute
  | runtime
  /-- A limit on the resources of a run is exceeded. -/
  | limit
  /-- The script asked to stop with an exit code. -/
  | aborted (code : Int)
  /-- A failure without a kind of its own. -/
  | wrapped (cause : FailureKind)
  deriving DecidableEq

/-- The name of an error in error texts. -/
def ErrorKind.label : ErrorKind → String
  | .badSyntax => "SyntaxError"
  | .badName => "NameError"
  | .badType => "TypeError"
  | .badValue => "ValueError"
  | .badImport => "ImportError"
  | .badAttribute => "AttributeError"
  | .runtime | .limit | .aborted _ => "RuntimeError"
  | .wrapped _ => "EvaluationError"

/-- An error of a script, with the text of the expression it is attached to. -/
structure ScriptError where
  kind : ErrorKind
  text : Text
  source : Option Text
  deriving DecidableEq

namespace ScriptError

/-- The error as it is reported. -/
def message (e : ScriptError) : Text :=
  let head := e.kind.label ++ ": " ++ e.text
  match e.source with
  | none => head
  | some source => head ++ " (in expression: " ++ source ++ ")"

/-- The error attached to an expression, unless it is attached to one already. -/
def attach (source : Text) (e : ScriptError) : ScriptError :=
  match e.source with
  | none => { e with source := some source }
  | some _ => e

end ScriptError

/-- What stops a run. -/
inductive Fault where
  | error (e : ScriptError)
  /-- A failure outside of any expression. -/
  | failure (f : Failure)
  /-- A failure to report another failure, as it leaves the sub-expression that it arises in. For the
  expression around that one it is a failure like any other. -/
  | unreported (f : Failure)
  /-- There is no room for another level of nesting. -/
  | tooDeep
  deriving DecidableEq

namespace Failure

/-- The error that a failure becomes in the expression `source`. -/
def toError (f : Failure) (source : Text) : ScriptError :=
  match f.kind with
  | .badType => ⟨.badType, f.text, source⟩
  | .badValue => ⟨.badValue, f.text, source⟩
  | kind => ⟨.wrapped kind, kind.label ++ ": " ++ f.text, source⟩

end Failure

namespace Fault

/-- The fault as it leaves the sub-expression `source`. -/
def within (source : Text) : Fault → Fault
  | .error e => .error (e.attach source)
  | .failure f | .unreported f => .error (f.toError source)
  | .tooDeep => .tooDeep

/-- The fault as it leaves the evaluation of the whole expression `source`. -/
def leaving (source : Text) : Fault → Fault
  | .error e => .error (e.attach source)
  | .failure f => .failure f
  | .unreported f => .unreported f
  | .tooDeep => .error ⟨.limit, "expression is nested too deeply", source⟩

def badSyntax (text : Text) : Fault := .error ⟨.badSyntax, text, none⟩
def badName (text : Text) : Fault := .error ⟨.badName, text, none⟩
def badType (text : Text) : Fault := .error ⟨.badType, text, none⟩
def badValue (text : Text) : Fault := .error ⟨.badValue, text, none⟩
def badImport (text : Text) : Fault := .error ⟨.badImport, text, none⟩
def badAttribute (text : Text) : Fault := .error ⟨.badAttribute, text, none⟩
def runtime (text : Text) : Fault := .error ⟨.runtime, text, none⟩
def limit (text : Text) : Fault := .error ⟨.limit, text, none⟩

/-- The failure of an operation, as a fault. -/
def of (kind : FailureKind) (text : Text) : Fault := .failure ⟨kind, text⟩

end Fault

end Scriptlet
