import Scriptlet.Json.Reading
import Scriptlet.Numeric.Power
import Scriptlet.Operation

/-
  Values as documents of the JavaScript object notation, and back.

  Tuples are written like lists, and the keys of a mapping as they are printed; where two keys have
  the same text, the last one gives the value at the place of the first.
-/

namespace Scriptlet

namespace Notation

/-- The entries with the value under a key replaced, or with a new entry at the end. -/
def putEntry (key : Text) (value : Json) : List (Text × Json) → List (Text × Json)
  | [] => [(key, value)]
  | (other, old) :: rest =>
    if other == key then (key, value) :: rest else (other, old) :: putEntry key value rest

/-- The document of a value. -/
def toJson (h : Heap) (printing : Nat) : Nat → Value → Except Fault Json
  | 0, _ => throw .tooDeep
  | levels + 1, v => do
    let refuse (name : String) : Except Fault Json :=
      throw (.badType ("Object of type " ++ name ++ " is not JSON serializable"))
    match v with
    | .none => return .null
    | .bool b => return .bool b
    | .int n => return .int n
    | .float x => return .float x
    | .nan _ => return .float Binary64.nan
    | .text t => return .text t
    | .list r => return .array (← (h.list r).toList.mapM (toJson h printing levels))
    | .tuple r => return .array (← (h.tuple r).toList.mapM (toJson h printing levels))
    | .dict r =>
      let entries ← (h.dict r).toList.mapM fun e => do
        let key ← h.format printing e.keyValue
        return (key, ← toJson h printing levels e.value)
      return .object (entries.foldl (fun done (key, value) => putEntry key value done) [])
    | .set _ => refuse "set"
    | .library _ | .record _ => refuse "module"
    | .function _ => refuse "builtin_function_or_method"
    | .complex _ _ => throw Value.unsupported

/-- The layout for an indentation, which has to fit into an index; how much memory there is for the
blanks that it begins lines with is left aside. -/
def layoutOf (indent : Value) (document : Json) : Except Fault Json.Layout := do
  match indent with
  | .none => return .line
  | v =>
    let width ← v.toInteger
    match document with
    | .text _ => return .line
    | _ =>
      if width ≥ indexBound || width < -indexBound then
        throw (.of .overflow "cannot fit 'int' into an index-sized integer")
      else return .indented width.toNat

/-- The text of a value as a document. -/
def dumps (h : Heap) (room : Nat) (v indent : Value) : Except Fault Text := do
  let document ← toJson h (room / 2) (room / 2) v
  let layout ← layoutOf indent document
  if document.anyInteger fun n => (NumberText.ofInt? n).isNone then
    throw (.of .badValue longIntegerText)
  return document.render layout 0

mutual

/-- The value of a document. -/
def ofJson : Json → Run Value
  | .null => return .none
  | .bool b => return .bool b
  | .int n => return .int n
  | .float x => Run.newFloat x
  | .text t => return .text t
  | .array items => do
    let values ← ofItems items
    Run.newList values
  | .object entries => do
    let entries ← ofEntries entries #[]
    Run.make (·.newDict entries)

def ofItems : List Json → Run (List Value)
  | [] => return []
  | item :: rest => do
    let v ← ofJson item
    return v :: (← ofItems rest)

def ofEntries : List (Text × Json) → Array Entry → Run (Array Entry)
  | [], entries => return entries
  | (key, value) :: rest, entries => do
    let v ← ofJson value
    ofEntries rest (Entry.put entries [.text key] (.text key) v)

end

/-- The value that a text writes. -/
def loads (room : Nat) (v : Value) : Run Value := do
  let _ ← v.kind
  match v with
  | .text t =>
    match Json.read room t with
    | .ok document => ofJson document
    | .error (.at complaint left) =>
      throw (.of .badValue (Json.report complaint t (t.length - left)))
    | .error (.longInteger digits) => throw (.of .badValue (longDigitsText digits))
    | .error .tooDeep => throw .tooDeep
  | _ => throw (.badType "loads() requires a string")

end Notation

end Scriptlet
