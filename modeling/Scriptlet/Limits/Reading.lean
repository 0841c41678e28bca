import Scriptlet.Limits
import Scriptlet.Setting

/-
  The limits of a run as settings.
-/

namespace Scriptlet

namespace Limits

/-- What the names of variables for limits begin with. -/
def variableStart : Text := "INTERPRETER_"

/-- The limits by their names. -/
def entries (limits : Limits) : List (Text × Int) :=
  [("max_source_length", limits.maxSourceLength), ("max_nesting_depth", limits.maxNestingDepth),
   ("max_output_size", limits.maxOutputSize), ("max_call_arguments", limits.maxCallArguments),
   ("max_collection_size", limits.maxCollectionSize), ("max_int_bits", limits.maxIntBits)]

/-- The names of the limits. -/
def names : List Text := standard.entries.map (·.1)

/-- The limits that are given, or set by variables. -/
def read (given : List (Text × Json)) (env : Environ) : Except (List Issue) Limits :=
  let source : Setting.Source := ⟨given, fun name => env.getAnyCase? (variableStart ++ name)⟩
  let limit (name : Text) (default : Int) : Setting.Checked Int :=
    source.optional name Setting.integer default
  source.finish names <|
    Limits.mk <$> limit "max_source_length" standard.maxSourceLength
      <*> limit "max_nesting_depth" standard.maxNestingDepth
      <*> limit "max_output_size" standard.maxOutputSize
      <*> limit "max_call_arguments" standard.maxCallArguments
      <*> limit "max_collection_size" standard.maxCollectionSize
      <*> limit "max_int_bits" standard.maxIntBits

end Limits

end Scriptlet
