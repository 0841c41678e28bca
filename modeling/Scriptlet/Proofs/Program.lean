import Scriptlet.Proofs.Source.Lines
import Scriptlet.Proofs.Run

/-
  Programs as trees, and what they mean.

  A script is a list of lines, and execution finds its blocks again in every pass. Here a program is
  a tree: statements one after the other, each header with the program below it. The module says

    1. how a program is written: `Written depth p ls` holds of every way to indent its lines, each
       unit of indentation being four spaces or a tab;
    2. what a program means: `Runs limits levels task s ending`, a relation that never looks at lines.
       It runs the body of a loop over elements once for every element that the sequence had when the
       loop began, tests the condition of a `while` before each of at most 10000 runs of its body,
       and stops at the first fault.

  Expressions and simple lines are the leaves: what they do is taken from evaluation and from
  `simpleLine`.
-/

namespace Scriptlet

/-- A program: simple lines and headers, each header with the program below it. -/
inductive Program where
  | done
  | simple (line : Text) (next : Program)
  | header (h : Header) (body next : Program)

/-! ## How programs are written -/

/-- A piece of a line: it holds something, no line break and no comment, and no blanks at its ends. -/
structure IsPiece (t : Text) : Prop where
  nonempty : t ≠ []
  oneLine : t.IsOneLine
  uncommented : Source.IsUncommented t
  trimmed : t.trim = t

instance (t : Text) : Decidable (IsPiece t) :=
  decidable_of_iff (t ≠ [] ∧ (∀ c ∈ t, c.isLineBreak = false) ∧ (∀ c ∈ t, c.val ≠ 35) ∧ t.trim = t)
    ⟨fun ⟨h₁, h₂, h₃, h₄⟩ => ⟨h₁, h₂, h₃, h₄⟩, fun ⟨h₁, h₂, h₃, h₄⟩ => ⟨h₁, h₂, h₃, h₄⟩⟩

/-- The words that a header begins with, and the two that no line begins with. -/
def headerWords : List Text := ["for", "if", "while", "elif", "else"]

/-- A line that is no header. -/
structure IsSimpleLine (line : Text) : Prop extends IsPiece line where
  notHeader : ∀ word ∈ headerWords, Text.startsWithWord word line = false

instance (line : Text) : Decidable (IsSimpleLine line) :=
  decidable_of_iff (IsPiece line ∧ ∀ word ∈ headerWords, Text.startsWithWord word line = false)
    ⟨fun ⟨h₁, h₂⟩ => ⟨h₁, h₂⟩, fun ⟨h₁, h₂⟩ => ⟨h₁, h₂⟩⟩

/-- A name that a loop can bind. -/
structure IsTarget (name : Text) : Prop where
  identifier : name.isIdentifier = true
  notKeyword : name ∉ Token.keywords

instance (name : Text) : Decidable (IsTarget name) :=
  decidable_of_iff (name.isIdentifier = true ∧ Token.keywords.contains name = false)
    ⟨fun ⟨h₁, h₂⟩ => ⟨h₁, by simpa using h₂⟩, fun ⟨h₁, h₂⟩ => ⟨h₁, by simpa using h₂⟩⟩

namespace Header

/-- The line that says a header. -/
def text : Header → Text
  | .forEach targets items => "for " ++ (Text.join ", " targets ++ (" in " ++ (items ++ ":")))
  | .onlyIf condition => "if " ++ (condition ++ ":")
  | .whileTrue condition => "while " ++ (condition ++ ":")

def WellFormed : Header → Prop
  | .forEach targets items => targets ≠ [] ∧ (∀ name ∈ targets, IsTarget name) ∧ IsPiece items
  | .onlyIf condition => IsPiece condition
  | .whileTrue condition => IsPiece condition

instance : (h : Header) → Decidable h.WellFormed
  | .forEach targets items =>
    inferInstanceAs (Decidable (targets ≠ [] ∧ (∀ name ∈ targets, IsTarget name) ∧ IsPiece items))
  | .onlyIf condition => inferInstanceAs (Decidable (IsPiece condition))
  | .whileTrue condition => inferInstanceAs (Decidable (IsPiece condition))

end Header

/-- A way to write so many units of indentation. -/
inductive Indentation : Nat → Text → Prop where
  | none : Indentation 0 []
  | spaces {depth : Nat} {pad : Text} : Indentation depth pad → Indentation (depth + 1) ("    " ++ pad)
  | tab {depth : Nat} {pad : Text} : Indentation depth pad → Indentation (depth + 1) ("\t" ++ pad)

namespace Program

def WellFormed : Program → Prop
  | .done => True
  | .simple line next => IsSimpleLine line ∧ next.WellFormed
  | .header h body next => h.WellFormed ∧ body.WellFormed ∧ next.WellFormed

def decideWellFormed : (p : Program) → Decidable p.WellFormed
  | .done => inferInstanceAs (Decidable True)
  | .simple line next =>
    have := next.decideWellFormed
    inferInstanceAs (Decidable (IsSimpleLine line ∧ next.WellFormed))
  | .header h body next =>
    have := body.decideWellFormed
    have := next.decideWellFormed
    inferInstanceAs (Decidable (h.WellFormed ∧ body.WellFormed ∧ next.WellFormed))

instance (p : Program) : Decidable p.WellFormed := p.decideWellFormed

/-- The lines of a program at a depth, each indented in one way or the other. -/
inductive Written : Nat → Program → List Text → Prop where
  | done {depth : Nat} : Written depth .done []
  | simple {depth : Nat} {pad line : Text} {next : Program} {ls : List Text} :
      Indentation depth pad → Written depth next ls →
      Written depth (.simple line next) ((pad ++ line) :: ls)
  | header {depth : Nat} {pad : Text} {h : Header} {body next : Program} {bs ls : List Text} :
      Indentation depth pad → Written (depth + 1) body bs → Written depth next ls →
      Written depth (.header h body next) ((pad ++ h.text) :: (bs ++ ls))

end Program

/-! ## What programs mean -/

/-- How a run ends: in a state, with a fault or without one. -/
abbrev Ending := EStateM.Result Fault State Unit

namespace State

/-- The state inside a block. -/
def enter (s : State) : State := { s with depth := s.depth + 1 }

/-- The state behind a block. -/
def leave (s : State) : State := { s with depth := s.depth - 1 }

/-- The state with variables bound one after the other. -/
def bindAll (s : State) (bindings : List (Text × Value)) : State :=
  bindings.foldl (fun s binding => { s with vars := s.vars.set binding.1 binding.2 }) s

end State

/-- The ending of a block by the ending of what is inside. -/
def Ending.leave : Ending → Ending
  | .ok () s => .ok () s.leave
  | .error fault s => .error fault s.leave

/-- What a session gives when it ends so. -/
def Ending.after (session : Session) : Ending → Except Fault Unit × Session
  | .ok () s => (.ok (), { session with state := s })
  | .error fault s => (.error fault, { session with state := s })

/-- The elements of a list or tuple. -/
def Heap.sequence? (h : Heap) : Value → Option (List Value)
  | .list r => some (h.list r).toList
  | .tuple r => some (h.tuple r).toList
  | _ => none

namespace Program

open Engine (room)

/-- The fault of a loop over a value that is no sequence. -/
def notIterable (items : Text) (v : Value) : Fault :=
  match v.kind with
  | .ok k => .badType ("'" ++ k.name ++ "' object is not iterable in for loop: " ++ items)
  | .error fault => fault

/-- The fault of blocks nested too deeply. -/
def tooNested (limits : Limits) : Fault :=
  .limit ("blocks nested deeper than " ++ Text.ofInt limits.maxNestingDepth ++ " levels")

/-- The fault of a condition that still holds when its loop has run as often as it may. -/
def tooManyIterations : Fault :=
  .runtime ("while loop exceeded " ++ Text.ofNat maxWhileIterations ++
    " iterations, possible infinite loop")

/-- What the expression `text` gives. -/
def value (limits : Limits) (levels : Nat) (text : Text) : Run Value :=
  ((room limits levels).below 1).evaluate text

/-- What a line does that is no header. -/
def simpleLine (limits : Limits) (levels : Nat) (line : Text) : Run Unit := do
  let s ← Line.readStatement line
  Execution.statement limits (room limits levels) line s

/-- Whether the expression `text` gives something true. -/
def condition (limits : Limits) (levels : Nat) (text : Text) (s : State) :
    EStateM.Result Fault State Bool :=
  match value limits levels text s with
  | .error fault s => .error fault s
  | .ok v s =>
    match s.heap.truthy v with
    | .ok b => .ok b s
    | .error fault => .error fault s

/-- What the targets of a loop are bound to for one element. -/
def shares (levels : Nat) (targets : List Text) (item : Value) (h : Heap) :
    Except Fault (List Value) :=
  if targets.length ≤ 1 then .ok [item] else h.unpack (levels / 2) item targets.length

/-- What is to be done: a block, a program inside one, a header with its body, or what is left of a
loop. -/
inductive Task where
  | block (p : Program)
  | program (p : Program)
  | header (h : Header) (body : Program)
  /-- The body for each of these elements. -/
  | each (targets : List Text) (body : Program) (items : List Value)
  /-- The body while the condition holds, at most so many times. -/
  | again (text : Text) (body : Program) (times : Nat)

/-- The meaning of programs; `levels` is the room for nesting that is left. -/
inductive Runs (limits : Limits) : Nat → Task → State → Ending → Prop where
  | noRoom {p : Program} {s : State} : Runs limits 0 (.block p) s (.error .tooDeep s)
  | refused {n : Nat} {p : Program} {s : State} :
      limits.maxNestingDepth < (s.depth + 1 : Nat) →
      Runs limits (n + 1) (.block p) s (.error (tooNested limits) s)
  | entered {n : Nat} {p : Program} {s : State} {ending : Ending} :
      (s.depth + 1 : Nat) ≤ limits.maxNestingDepth →
      Runs limits n (.program p) s.enter ending →
      Runs limits (n + 1) (.block p) s ending.leave
  | done {n : Nat} {s : State} : Runs limits n (.program .done) s (.ok () s)
  | simple {n : Nat} {line : Text} {next : Program} {s t : State} {ending : Ending} :
      simpleLine limits n line s = .ok () t →
      Runs limits n (.program next) t ending →
      Runs limits n (.program (.simple line next)) s ending
  | simpleFails {n : Nat} {line : Text} {next : Program} {s t : State} {fault : Fault} :
      simpleLine limits n line s = .error fault t →
      Runs limits n (.program (.simple line next)) s (.error fault t)
  | header {n : Nat} {h : Header} {body next : Program} {s t : State} {ending : Ending} :
      Runs limits n (.header h body) s (.ok () t) →
      Runs limits n (.program next) t ending →
      Runs limits n (.program (.header h body next)) s ending
  | headerFails {n : Nat} {h : Header} {body next : Program} {s t : State} {fault : Fault} :
      Runs limits n (.header h body) s (.error fault t) →
      Runs limits n (.program (.header h body next)) s (.error fault t)
  | skipped {n : Nat} {text : Text} {body : Program} {s t : State} :
      condition limits n text s = .ok false t →
      Runs limits n (.header (.onlyIf text) body) s (.ok () t)
  | taken {n : Nat} {text : Text} {body : Program} {s t : State} {ending : Ending} :
      condition limits n text s = .ok true t →
      Runs limits (n - 1) (.block body) t ending →
      Runs limits n (.header (.onlyIf text) body) s ending
  | onlyIfFails {n : Nat} {text : Text} {body : Program} {s t : State} {fault : Fault} :
      condition limits n text s = .error fault t →
      Runs limits n (.header (.onlyIf text) body) s (.error fault t)
  | whileTrue {n : Nat} {text : Text} {body : Program} {s : State} {ending : Ending} :
      Runs limits n (.again text body 10000) s ending →
      Runs limits n (.header (.whileTrue text) body) s ending
  | againEnds {n times : Nat} {text : Text} {body : Program} {s t : State} :
      condition limits n text s = .ok false t →
      Runs limits n (.again text body times) s (.ok () t)
  | againFails {n times : Nat} {text : Text} {body : Program} {s t : State} {fault : Fault} :
      condition limits n text s = .error fault t →
      Runs limits n (.again text body times) s (.error fault t)
  | againExceeded {n : Nat} {text : Text} {body : Program} {s t : State} :
      condition limits n text s = .ok true t →
      Runs limits n (.again text body 0) s (.error tooManyIterations t)
  | again {n times : Nat} {text : Text} {body : Program} {s t u : State} {ending : Ending} :
      condition limits n text s = .ok true t →
      Runs limits (n - 1) (.block body) t (.ok () u) →
      Runs limits n (.again text body times) u ending →
      Runs limits n (.again text body (times + 1)) s ending
  | againBodyFails {n times : Nat} {text : Text} {body : Program} {s t u : State} {fault : Fault} :
      condition limits n text s = .ok true t →
      Runs limits (n - 1) (.block body) t (.error fault u) →
      Runs limits n (.again text body (times + 1)) s (.error fault u)
  | itemsFail {n : Nat} {targets : List Text} {text : Text} {body : Program} {s t : State}
      {fault : Fault} :
      value limits n text s = .error fault t →
      Runs limits n (.header (.forEach targets text) body) s (.error fault t)
  | notSequence {n : Nat} {targets : List Text} {text : Text} {body : Program} {s t : State}
      {v : Value} :
      value limits n text s = .ok v t → t.heap.sequence? v = none →
      Runs limits n (.header (.forEach targets text) body) s (.error (notIterable text v) t)
  | forEach {n : Nat} {targets : List Text} {text : Text} {body : Program} {s t : State} {v : Value}
      {items : List Value} {ending : Ending} :
      value limits n text s = .ok v t → t.heap.sequence? v = some items →
      Runs limits n (.each targets body items) t ending →
      Runs limits n (.header (.forEach targets text) body) s ending
  | eachEnds {n : Nat} {targets : List Text} {body : Program} {s : State} :
      Runs limits n (.each targets body []) s (.ok () s)
  | eachFails {n : Nat} {targets : List Text} {body : Program} {item : Value} {items : List Value}
      {s : State} {fault : Fault} :
      shares n targets item s.heap = .error fault →
      Runs limits n (.each targets body (item :: items)) s (.error fault s)
  | each {n : Nat} {targets : List Text} {body : Program} {item : Value}
      {items values : List Value} {s t : State} {ending : Ending} :
      shares n targets item s.heap = .ok values →
      Runs limits (n - 1) (.block body) (s.bindAll (targets.zip values)) (.ok () t) →
      Runs limits n (.each targets body items) t ending →
      Runs limits n (.each targets body (item :: items)) s ending
  | eachBodyFails {n : Nat} {targets : List Text} {body : Program} {item : Value}
      {items values : List Value} {s t : State} {fault : Fault} :
      shares n targets item s.heap = .ok values →
      Runs limits (n - 1) (.block body) (s.bindAll (targets.zip values)) (.error fault t) →
      Runs limits n (.each targets body (item :: items)) s (.error fault t)

end Program

end Scriptlet
