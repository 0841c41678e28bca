import Scriptlet.Fault
import Scriptlet.Library
import Scriptlet.Moment

/-
  Values and the objects they refer to.

  Numbers, texts, functions and libraries are values by themselves. A list, tuple, mapping, set or
  record is an object in the heap, and the value only refers to it: two values are the same object
  when they hold the same reference, and what one of them changes the other one shows. Of the
  objects only lists and mappings ever change.

  A number that is not one differs from every number, itself included, but it is still the same
  object as itself; so it carries a mark.
-/

namespace Scriptlet

/-- The place of an object among the objects of its kind. -/
abbrev Ref := Nat

/-- A function that a script can call. -/
inductive Function where
  | builtin (f : Builtin)
  | library (f : LibraryFunction)
  /-- A function of the record `owner`. -/
  | method (owner : Ref) (m : Method)
  deriving DecidableEq

/-- A value of a script. -/
inductive Value where
  | none
  | bool (b : Bool)
  | int (n : Int)
  /-- A double other than NaN. -/
  | float (x : Float)
  /-- NaN; the mark tells one such object from another. -/
  | nan (mark : Ref)
  /-- A complex number, which only arithmetic makes and which no script can use. -/
  | complex (re im : Float)
  | text (t : Text)
  | list (r : Ref)
  | tuple (r : Ref)
  | dict (r : Ref)
  | set (r : Ref)
  | library (l : Library)
  | record (r : Ref)
  | function (f : Function)
  deriving DecidableEq

instance : Inhabited Value := ⟨.none⟩

/-- The kinds of value that a script can use. -/
inductive Kind where
  | none
  | bool
  | int
  | float
  | text
  | list
  | tuple
  | dict
  | set
  | module
  | function
  deriving DecidableEq

/-- The name of a kind of value in a script. -/
def Kind.name : Kind → String
  | .none => "NoneType"
  | .bool => "bool"
  | .int => "int"
  | .float => "float"
  | .text => "str"
  | .list => "list"
  | .tuple => "tuple"
  | .dict => "dict"
  | .set => "set"
  | .module => "module"
  | .function => "builtin_function_or_method"

namespace Kind

def isNumber (k : Kind) : Bool := k == .int || k == .float

/-- Whether values of the kind count as numbers in arithmetic. -/
def isNumeric (k : Kind) : Bool := k.isNumber || k == .bool

/-- Whether values of the kind count as integers. -/
def isIntegral (k : Kind) : Bool := k == .int || k == .bool

/-- Whether values of the kind are texts, lists or tuples. -/
def isSequence (k : Kind) : Bool := k == .text || k == .list || k == .tuple

/-- Whether values of the kind hold elements. -/
def isContainer (k : Kind) : Bool := k.isSequence || k == .dict || k == .set

/-- Whether values of the kind can change or hold what can, so that no mapping takes them as keys. -/
def isUnhashable (k : Kind) : Bool := k == .list || k == .dict || k == .set

end Kind

namespace Value

/-- The kind of a value; a complex number has none. -/
def kind? : Value → Option Kind
  | .none => some .none
  | .bool _ => some .bool
  | .int _ => some .int
  | .float _ | .nan _ => some .float
  | .complex _ _ => Option.none
  | .text _ => some .text
  | .list _ => some .list
  | .tuple _ => some .tuple
  | .dict _ => some .dict
  | .set _ => some .set
  | .library _ | .record _ => some .module
  | .function _ => some .function

/-- The name of the type of a value in the reports of operations. -/
def typeName (v : Value) : String :=
  match v with
  | .complex _ _ => "complex"
  | .library _ | .record _ => "Module"
  | .function _ => "NativeFunction"
  | v => (v.kind?.map Kind.name).getD ""

/-- The integer that a truth value or an integer is. -/
def integer? : Value → Option Int
  | .int n => some n
  | .bool b => some (if b then 1 else 0)
  | _ => Option.none

/-- The fault of using a complex number. -/
def unsupported : Fault := .badType "unsupported value of host type 'complex'"

/-- The kind of a value that a script can use. -/
def kind (v : Value) : Except Fault Kind :=
  match v.kind? with
  | some k => .ok k
  | Option.none => .error unsupported

end Value

/-- A part of a key. -/
inductive KeyPart where
  | none
  | int (n : Int)
  /-- A double that is no integer. -/
  | float (x : Float)
  | nan (mark : Ref)
  | complex (re im : Float)
  | text (t : Text)
  /-- A tuple of this length, whose elements follow. -/
  | tuple (length : Nat)
  | library (l : Library)
  | record (r : Ref)
  | function (f : Function)
  deriving DecidableEq

/-- What a mapping tells keys apart by: two values are equal as keys when these are. Numbers are
reduced to one form, and the elements of a tuple follow its length. -/
abbrev Key := List KeyPart

/-- An entry of a mapping. -/
structure Entry where
  key : Key
  keyValue : Value
  value : Value

/-- A member of a set. -/
structure Member where
  key : Key
  value : Value

/-- A group of a match: where it begins and ends in the text that was searched. -/
structure Group where
  start : Nat
  stop : Nat
  deriving DecidableEq

/-- An object that came into being during the run and never changes. -/
inductive Record where
  | file (name mode : Text)
  /-- A match in `subject`: the groups, the whole match first, and the names of groups. -/
  | found (subject : Text) (groups : List (Option Group)) (names : List (Text × Nat))
  | moment (m : Moment)

/-- The objects of a run. -/
structure Heap where
  lists : Array (Array Value)
  tuples : Array (Array Value)
  dicts : Array (Array Entry)
  sets : Array (Array Member)
  records : Array Record
  /-- The number of marks handed out. -/
  marks : Nat

namespace Heap

/-- The list of arguments that a library shows, which is there from the start. -/
def argumentsRef : Ref := 0

/-- The tuple without elements, of which there is only one. -/
def emptyTupleRef : Ref := 0

/-- The objects at the start of a run. -/
def initial : Heap where
  lists := #[#[.text "python"]]
  tuples := #[#[]]
  dicts := #[]
  sets := #[]
  records := #[]
  marks := 0

def list (h : Heap) (r : Ref) : Array Value := h.lists.getD r #[]

def tuple (h : Heap) (r : Ref) : Array Value := h.tuples.getD r #[]

def dict (h : Heap) (r : Ref) : Array Entry := h.dicts.getD r #[]

def set (h : Heap) (r : Ref) : Array Member := h.sets.getD r #[]

def record? (h : Heap) (r : Ref) : Option Record := h.records[r]?

/-- The heap with one more list, and the list. -/
def newList (h : Heap) (items : Array Value) : Value × Heap :=
  let r := h.lists.size
  (.list r, { h with lists := h.lists.push items })

/-- The heap with the tuple of some elements, and the tuple. -/
def newTuple (h : Heap) (items : Array Value) : Value × Heap :=
  if items.isEmpty then (.tuple emptyTupleRef, h)
  else
    let r := h.tuples.size
    (.tuple r, { h with tuples := h.tuples.push items })

def newDict (h : Heap) (entries : Array Entry) : Value × Heap :=
  let r := h.dicts.size
  (.dict r, { h with dicts := h.dicts.push entries })

def newSet (h : Heap) (members : Array Member) : Value × Heap :=
  let r := h.sets.size
  (.set r, { h with sets := h.sets.push members })

def newRecord (h : Heap) (record : Record) : Value × Heap :=
  let r := h.records.size
  (.record r, { h with records := h.records.push record })

/-- The value of a double; every NaN is an object of its own. -/
def newFloat (h : Heap) (x : Float) : Value × Heap :=
  if x == x then (.float x, h) else (.nan h.marks, { h with marks := h.marks + 1 })

/-- The heap with one more element at the end of a list. -/
def pushList (h : Heap) (r : Ref) (v : Value) : Heap :=
  { h with lists := h.lists.modify r (·.push v) }

/-- The heap with one element of a list replaced. -/
def setListItem (h : Heap) (r : Ref) (i : Nat) (v : Value) : Heap :=
  { h with lists := h.lists.modify r (·.setIfInBounds i v) }

/-- The heap with all elements of a list replaced. -/
def replaceList (h : Heap) (r : Ref) (items : Array Value) : Heap :=
  { h with lists := h.lists.modify r fun _ => items }

end Heap

/-- The entries with the value under a key replaced, or with a new entry at the end. -/
def Entry.put (entries : Array Entry) (key : Key) (keyValue value : Value) : Array Entry :=
  match entries.findIdx? (·.key == key) with
  | some i => entries.modify i fun e => { e with value := value }
  | none => entries.push ⟨key, keyValue, value⟩

/-- The value under a key. -/
def Entry.find? (entries : Array Entry) (key : Key) : Option Value :=
  (Array.find? (·.key == key) entries).map Entry.value

/-- The members with one more at the end, unless it is among them. -/
def Member.insert (members : Array Member) (key : Key) (value : Value) : Array Member :=
  if members.any (·.key == key) then members else members.push ⟨key, value⟩

/-- The heap with the value under a key of a mapping set. -/
def Heap.putEntry (h : Heap) (r : Ref) (key : Key) (keyValue value : Value) : Heap :=
  { h with dicts := h.dicts.modify r fun entries => Entry.put entries key keyValue value }

end Scriptlet
