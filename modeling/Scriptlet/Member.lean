import Scriptlet.Value.Printing

/-
  The members of libraries and records.

  A library holds constants, functions and other libraries under fixed names; a record holds what was
  true when it was made. No member ever changes. Names are listed in the order of their texts.
-/

namespace Scriptlet

namespace Library

/-- The members of a library. -/
def members (l : Library) : List (Text × Value) :=
  let functions := l.functions.map fun (name, f) => ((name : Text), Value.function (.library f))
  let constants : List (Text × Value) := match l with
    | .math =>
      [("pi", .float 3.141592653589793), ("e", .float 2.718281828459045)]
    | .datetime => [("datetime", .library .clock)]
    | .os => [("path", .library .path)]
    | .system =>
      [("version", .text "3.11.0 (simulated)"), ("platform", .text "mcp-sandbox"),
       ("argv", .list Heap.argumentsRef)]
    | _ => []
  constants ++ functions

end Library

namespace Record

/-- The members of the record with the reference `r`. -/
def members (r : Ref) (record : Record) : List (Text × Value) :=
  let own (name : String) (m : Method) : Text × Value := (name, .function (.method r m))
  match record with
  | .file name mode =>
    [("name", .text name), ("mode", .text mode), ("content", .text ("simulated content of " ++ name)),
     own "read" .read, own "write" .write, own "close" .close]
  | .found _ _ _ => [own "group" .group, own "groups" .groups, own "start" .start, own "end" .stop]
  | .moment m =>
    let c := m.calendar
    [("year", .int c.year), ("month", .int c.month), ("day", .int c.day), ("hour", .int c.hour),
     ("minute", .int c.minute), ("second", .int c.second), own "isoformat" .isoformat]

end Record

/-- A library or record as scripts see it: a name and members. -/
structure Module where
  name : Text
  members : List (Text × Value)

namespace Module

/-- The member with a name. -/
def find? (m : Module) (name : Text) : Option Value := m.members.lookup name

/-- The member with a name, which has to be there. -/
def member (m : Module) (name : Text) : Except Fault Value :=
  match m.find? name with
  | some v => .ok v
  | none => .error (.badName ("module '" ++ m.name ++ "' has no attribute '" ++ name ++ "'"))

/-- The names of the members, sorted. -/
def names (m : Module) : List Text := Text.sorted (m.members.map (·.1))

end Module

/-- A library as a module. -/
def Library.toModule (l : Library) : Module := ⟨l.name, l.members⟩

namespace Heap

/-- The module that a value is, if it is one. -/
def module? (h : Heap) (v : Value) : Option Module :=
  match v with
  | .library l => some l.toModule
  | .record r => (h.record? r).map fun record => ⟨record.name, record.members r⟩
  | _ => none

end Heap

end Scriptlet
