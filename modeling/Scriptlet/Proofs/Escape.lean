import Scriptlet.Proofs.Run

/-
  Failures that escape from a script.

  An expression catches the failures of its parts and makes errors of them. What fails outside of
  every expression stops the script as a bare failure. The relations below follow a run to such a
  place, one rule for each way to get there:
    1. an integer literal with too many digits is read (`longDigits`),
    2. a whole expression, or a part of an assignment target, looks up a key that its mapping does not
       have and whose text cannot be made (`missingKey`),
    3. a value whose text cannot be made is shown, or reported as not to be unpacked (`shown`,
       `unpacked`),
    4. an entry is stored under a tuple that holds what is no key (`stored`).
-/

namespace Scriptlet

open Engine (room)

/-- The failure that a fault is, if it is no error of the script. -/
def Fault.failure? : Fault → Option Failure
  | .failure f | .unreported f => some f
  | .error _ | .tooDeep => none

/-- The step stops with the failure. -/
def Run.Fails {α : Type} (x : Run α) (s : State) (f : Failure) : Prop :=
  ∃ fault t, x s = .error fault t ∧ fault.failure? = some f

/-- One step of a list of steps fails, behind steps that do not. -/
inductive FailsAt {α : Type} (step : α → Run Unit) (fails : α → State → Failure → Prop) :
    List α → State → Failure → Prop where
  | here {a : α} {rest : List α} {s : State} {f : Failure} :
      fails a s f → FailsAt step fails (a :: rest) s f
  | later {a : α} {rest : List α} {s t : State} {f : Failure} :
      step a s = .ok () t → FailsAt step fails rest t f → FailsAt step fails (a :: rest) s f

section

variable (limits : Limits)

/-! ## Expressions -/

/-- A failure escapes from an expression that has been read from the text, with so many levels of
nesting to go. -/
inductive NodeEscapes : Nat → Text → Expr → State → Failure → Prop where
  | missingKey {n : Nat} {text : Text} {span : Span} {target index : Expr} {s t u : State} {r : Ref}
      {v : Value} {key : Key} {f : Failure} :
      ((room limits n).below 1).evaluateNode text target s = .ok (.dict r) t →
      ((room limits n).below 1).evaluateNode text index t = .ok v u →
      u.heap.keyIn v "subscript" = .ok key →
      Entry.find? (u.heap.dict r) key = none →
      u.heap.plainRepr n v = .error (.failure f) →
      NodeEscapes (n + 1) text (.subscript span target index) s f

/-- A failure escapes from the evaluation of a text. -/
inductive TextEscapes : Nat → Text → State → Failure → Prop where
  | longDigits {n : Nat} {text : Text} {s : State} {digits : Nat} :
      Expr.parse (n - Evaluation.readingLevels) text.trim = .error (.longInteger digits) →
      TextEscapes (n + 1) text s ⟨.badValue, longDigitsText digits⟩
  | node {n : Nat} {text : Text} {e : Expr} {s : State} {f : Failure} :
      Expr.parse (n - Evaluation.readingLevels) text.trim = .ok e →
      NodeEscapes limits n text.trim e s f →
      TextEscapes (n + 1) text s f

/-! ## Statements -/

/-- A failure escapes from storing a value in a place. -/
inductive PlaceEscapes (n : Nat) (text : Text) : Expr → State → Failure → Prop where
  | container {span : Span} {container key : Expr} {s : State} {f : Failure} :
      NodeEscapes limits n text container s f →
      PlaceEscapes n text (.subscript span container key) s f
  | key {span : Span} {container key : Expr} {s t : State} {v : Value} {f : Failure} :
      (Engine.tower limits n 0).evaluateNode text container s = .ok v t →
      NodeEscapes limits n text key t f →
      PlaceEscapes n text (.subscript span container key) s f
  | stored {span : Span} {container key : Expr} {s t u : State} {r : Ref} {k : Value} {f : Failure} :
      (Engine.tower limits n 0).evaluateNode text container s = .ok (.dict r) t →
      (Engine.tower limits n 0).evaluateNode text key t = .ok k u →
      u.heap.keyIn k "item assignment" = .error (.failure f) →
      PlaceEscapes n text (.subscript span container key) s f

/-- A failure escapes from binding a value to a target. -/
inductive BindingEscapes (n : Nat) (target : Text) (value : Value) (isAugmented : Bool) :
    State → Failure → Prop where
  | longDigits {s : State} {digits : Nat} :
      Expr.parse (n - Evaluation.readingLevels) target = .error (.longInteger digits) →
      BindingEscapes n target value isAugmented s ⟨.badValue, longDigitsText digits⟩
  | unpacked {span : Span} {items : List Expr} {s : State} {f : Failure} :
      Expr.parse (n - Evaluation.readingLevels) target = .ok (.tuple span items) →
      isAugmented = false →
      s.heap.unpack (n / 2) value items.length = .error (.failure f) →
      BindingEscapes n target value isAugmented s f
  | part {span : Span} {items : List Expr} {values : List Value} {s : State} {f : Failure} :
      Expr.parse (n - Evaluation.readingLevels) target = .ok (.tuple span items) →
      isAugmented = false →
      s.heap.unpack (n / 2) value items.length = .ok values →
      FailsAt (fun p => Evaluation.assign ((room limits n).below 4) target.trim p.1 p.2)
        (fun p => PlaceEscapes limits (n - 4) target.trim p.1) (items.zip values) s f →
      BindingEscapes n target value isAugmented s f
  | whole {e : Expr} {s : State} {f : Failure} :
      Expr.parse (n - Evaluation.readingLevels) target = .ok e →
      (∀ span items, e ≠ .tuple span items) →
      PlaceEscapes limits (n - 4) target.trim e s f →
      BindingEscapes n target value isAugmented s f

/-- The text that an assignment evaluates. -/
def assignedText (target operator expression : Text) : Text :=
  if operator = "=" then expression else Execution.augmented target operator expression

/-- An assignment evaluates a text and binds its target to the value. -/
theorem Execution.assignment_eq {r : Room} {target operator expression : Text}
    (hsides : (target.isEmpty || expression.isEmpty) = false) :
    assignment r target operator expression = (do
      let v ← (r.below 2).evaluate (assignedText target operator expression)
      bindTarget r target v (operator != "=")) := by
  have htext : (if operator != "=" then augmented target operator expression else expression) =
      assignedText target operator expression := by
    unfold assignedText
    by_cases h : operator = "=" <;> simp [h]
  unfold assignment
  rw [if_neg (by rw [hsides]; exact Bool.false_ne_true)]
  simp only [htext]

/-- A failure escapes from a statement. -/
inductive StatementEscapes (n : Nat) (line : Text) : Statement → State → Failure → Prop where
  | assigned {target operator expression : Text} {s : State} {f : Failure} :
      target ≠ [] → expression ≠ [] →
      TextEscapes limits (n - 2) (assignedText target operator expression) s f →
      StatementEscapes n line (.assign target operator expression) s f
  | bound {target operator expression : Text} {s t : State} {v : Value} {f : Failure} :
      target ≠ [] → expression ≠ [] →
      ((room limits n).below 2).evaluate (assignedText target operator expression) s = .ok v t →
      BindingEscapes limits n target v (operator != "=") t f →
      StatementEscapes n line (.assign target operator expression) s f
  | evaluated {text : Text} {s : State} {f : Failure} :
      TextEscapes limits (n - 1) text s f →
      StatementEscapes n line (.expression text) s f
  | shown {text : Text} {s t : State} {v : Value} {f : Failure} :
      ((room limits n).below 1).evaluate text s = .ok v t →
      v ≠ .none → v ≠ .text "" → Execution.beginsWithPrint text = false →
      t.heap.format (n / 2) v = .error (.failure f) →
      StatementEscapes n line (.expression text) s f

/-! ## Blocks -/

/-- What is being executed: a block, lines inside one, a header with its body, or what is left of a
loop. -/
inductive Activity where
  | block (lines : List Text)
  | lines (lines : List Text)
  | header (h : Header) (body : List Text)
  /-- The body for each of these elements. -/
  | each (targets : List Text) (body : List Text) (items : List Value)
  /-- The body while the condition holds, at most so many times. -/
  | again (condition : Text) (body : List Text) (times : Nat)

/-- What a loop does before its body, for one element. -/
def bindShares (n : Nat) (targets : List Text) (item : Value) : Run Unit := do
  let values ← Execution.distribute (room limits n).printing targets.length item
  for (name, v) in targets.zip values do
    Run.bind name v

/-- A failure escapes from what is being executed. -/
inductive Escapes : Nat → Activity → State → Failure → Prop where
  | block {n : Nat} {ls : List Text} {s : State} {f : Failure} :
      (s.depth + 1 : Nat) ≤ limits.maxNestingDepth →
      Escapes n (.lines ls) { s with depth := s.depth + 1 } f →
      Escapes (n + 1) (.block ls) s f
  | statement {n : Nat} {line : Text} {rest : List Text} {st : Statement} {s : State} {f : Failure} :
      Line.read line.trim = .ok (.statement st) →
      StatementEscapes limits n line.trim st s f →
      Escapes n (.lines (line :: rest)) s f
  | behindStatement {n : Nat} {line : Text} {rest : List Text} {st : Statement} {s t : State}
      {f : Failure} :
      Line.read line.trim = .ok (.statement st) →
      Execution.statement limits (room limits n) line.trim st s = .ok () t →
      Escapes n (.lines rest) t f →
      Escapes n (.lines (line :: rest)) s f
  | header {n : Nat} {line : Text} {rest : List Text} {h : Header} {s : State} {f : Failure} :
      Line.read line.trim = .ok (.header h) →
      Escapes n (.header h (Source.block rest).1) s f →
      Escapes n (.lines (line :: rest)) s f
  | behindHeader {n : Nat} {line : Text} {rest : List Text} {h : Header} {s t : State} {f : Failure} :
      Line.read line.trim = .ok (.header h) →
      Execution.header (room limits n) h (Source.block rest).1 s = .ok () t →
      Escapes n (.lines (rest.drop (Source.block rest).2)) t f →
      Escapes n (.lines (line :: rest)) s f
  | condition {n : Nat} {condition : Text} {body : List Text} {s : State} {f : Failure} :
      TextEscapes limits (n - 1) condition s f →
      Escapes n (.header (.onlyIf condition) body) s f
  | onlyIf {n : Nat} {condition : Text} {body : List Text} {s t : State} {f : Failure} :
      Execution.holds (room limits n) condition s = .ok true t →
      Escapes (n - 1) (.block body) t f →
      Escapes n (.header (.onlyIf condition) body) s f
  | whileTrue {n : Nat} {condition : Text} {body : List Text} {s : State} {f : Failure} :
      Escapes n (.again condition body maxWhileIterations) s f →
      Escapes n (.header (.whileTrue condition) body) s f
  | againCondition {n times : Nat} {condition : Text} {body : List Text} {s : State} {f : Failure} :
      TextEscapes limits (n - 1) condition s f →
      Escapes n (.again condition body times) s f
  | againBody {n times : Nat} {condition : Text} {body : List Text} {s t : State} {f : Failure} :
      Execution.holds (room limits n) condition s = .ok true t →
      Escapes (n - 1) (.block body) t f →
      Escapes n (.again condition body (times + 1)) s f
  | again {n times : Nat} {condition : Text} {body : List Text} {s t u : State} {f : Failure} :
      Execution.holds (room limits n) condition s = .ok true t →
      ((room limits n).below 1).runLines body t = .ok () u →
      Escapes n (.again condition body times) u f →
      Escapes n (.again condition body (times + 1)) s f
  | items {n : Nat} {targets : List Text} {items : Text} {body : List Text} {s : State} {f : Failure} :
      TextEscapes limits (n - 1) items s f →
      Escapes n (.header (.forEach targets items) body) s f
  | forEach {n : Nat} {targets : List Text} {items : Text} {body : List Text} {s t : State} {v : Value}
      {elements : List Value} {f : Failure} :
      ((room limits n).below 1).evaluate items s = .ok v t →
      Execution.loopItems items v t = .ok elements t →
      Escapes n (.each targets body elements) t f →
      Escapes n (.header (.forEach targets items) body) s f
  | unpacked {n : Nat} {targets : List Text} {body : List Text} {item : Value} {rest : List Value}
      {s : State} {f : Failure} :
      1 < targets.length →
      s.heap.unpack (n / 2) item targets.length = .error (.failure f) →
      Escapes n (.each targets body (item :: rest)) s f
  | eachBody {n : Nat} {targets : List Text} {body : List Text} {item : Value} {rest : List Value}
      {s t : State} {f : Failure} :
      bindShares limits n targets item s = .ok () t →
      Escapes (n - 1) (.block body) t f →
      Escapes n (.each targets body (item :: rest)) s f
  | each {n : Nat} {targets : List Text} {body : List Text} {item : Value} {rest : List Value}
      {s t u : State} {f : Failure} :
      bindShares limits n targets item s = .ok () t →
      ((room limits n).below 1).runLines body t = .ok () u →
      Escapes n (.each targets body rest) u f →
      Escapes n (.each targets body (item :: rest)) s f

/-- A failure escapes from a script, run from the state. -/
def ScriptEscapes (source : Text) (s : State) (f : Failure) : Prop :=
  (source.length : Int) ≤ limits.maxSourceLength ∧ Source.cleanLines source ≠ [] ∧
    Escapes limits Engine.startLevels (.block (Source.cleanLines source)) s f

end

end Scriptlet
