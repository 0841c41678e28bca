import Mathlib.Data.List.ReduceOption
import Mathlib.Logic.Relation
import Scriptlet.Proofs.Run

/-
  Where an evaluation is.

  The evaluation of an expression comes to its operands, one after the other, and each of them is evaluated
  in the state that the ones before it have left. A place is an expression with the state that it is
  evaluated in; `Operand` leads from a place to the places of the operands that the evaluation there comes
  to. Whether it comes to an operand depends on the values of those before it, as for `and` and `or`,
  comparisons and slices.

  What is proved:
    1. `Operand.propagates` — where an operand fails, the expression fails in the same way.
-/

namespace Scriptlet

open Engine (room)

/-! ## Operands of an expression -/

namespace Expr

/-- What is evaluated of a callee: a method is looked up in its target when it is called. -/
def called : Expr → Expr
  | .attribute _ target _ => target
  | e => e

/-- The operand that is evaluated before all others, if there is one. -/
def first? (limits : Limits) : Expr → Option Expr
  | .attribute _ e _ | .subscript _ e _ | .sliced _ e _ _ _ _ | .unary _ _ e | .binary _ _ e _
  | .boolean _ _ e _ | .compare _ e _ => some e
  | .call _ callee args keywords =>
    if args.length + keywords.length > limits.maxCallArguments then none else some callee.called
  | .literal _ _ | .name _ _ | .list _ _ | .tuple _ _ | .set _ _ | .dict _ _ => none

/-- What is evaluated of a display: all keys of a mapping come before its values. -/
def elements : Expr → List Expr
  | .list _ items | .tuple _ items | .set _ items => items
  | .dict _ entries => entries.map (·.1) ++ entries.map (·.2)
  | _ => []

end Expr

/-! ## Places -/

/-- Where an evaluation is: at an expression, in a state, with room for so many levels. -/
structure Place where
  levels : Nat
  expr : Expr
  state : State

section

variable (limits : Limits) (text : Text)

/-- What the evaluation at the place gives. -/
def Place.outcome (p : Place) : EStateM.Result Fault State Value :=
  (Engine.tower limits p.levels 0).evaluateNode text p.expr p.state

/-- The values of expressions, so many levels below a room. -/
def Place.valuesBelow (levels k : Nat) (items : List Expr) : Run (List Value) :=
  Evaluation.values ((room limits levels).below k) text items

open Place (valuesBelow)

/-- The evaluation at a place comes to an operand. -/
inductive Operand : Place → Place → Prop
  | first {n : Nat} {e x : Expr} {s : State} : e.first? limits = some x →
    Operand ⟨n + 1, e, s⟩ ⟨n - 1, x, s⟩
  | element {n : Nat} {e x : Expr} {front behind : List Expr} {vs : List Value} {s t : State} :
    e.elements = front ++ x :: behind → valuesBelow limits text n 3 front s = .ok vs t →
    Operand ⟨n + 1, e, s⟩ ⟨n - 3, x, t⟩
  | index {n : Nat} {span : Span} {target index : Expr} {v : Value} {s t : State} :
    Place.outcome limits text ⟨n - 1, target, s⟩ = .ok v t →
    Operand ⟨n + 1, .subscript span target index, s⟩ ⟨n - 1, index, t⟩
  | bound {n : Nat} {span bounds : Span} {target x : Expr} {lower upper step : Option Expr}
      {front behind : List Expr} {v : Value} {vs : List Value} {s t u : State} :
    Place.outcome limits text ⟨n - 1, target, s⟩ = .ok v t → Operation.requireSliceable v = .ok () →
    [lower, upper, step].reduceOption = front ++ x :: behind →
    valuesBelow limits text n 1 front t = .ok vs u →
    Operand ⟨n + 1, .sliced span target bounds lower upper step, s⟩ ⟨n - 1, x, u⟩
  | right {n : Nat} {span : Span} {op : BinaryOp} {left right : Expr} {v : Value} {s t : State} :
    Place.outcome limits text ⟨n - 1, left, s⟩ = .ok v t →
    Operand ⟨n + 1, .binary span op left right, s⟩ ⟨n - 1, right, t⟩
  /-- The second operand, if the first one does not decide. -/
  | other {n : Nat} {span : Span} {op : BoolOp} {left right : Expr} {v : Value} {s t : State} :
    Place.outcome limits text ⟨n - 1, left, s⟩ = .ok v t → t.heap.truthy v = .ok (op == .and) →
    Operand ⟨n + 1, .boolean span op left right, s⟩ ⟨n - 1, right, t⟩
  /-- An operand of a chain of comparisons that have held so far. -/
  | compared {n : Nat} {span : Span} {op : CompareOp} {left x : Expr}
      {front behind : List (CompareOp × Expr)} {v : Value} {s t u : State} :
    Place.outcome limits text ⟨n - 1, left, s⟩ = .ok v t →
    Evaluation.comparisons ((room limits n).below 1) (room limits n) text v front t = .ok true u →
    Operand ⟨n + 1, .compare span left (front ++ (op, x) :: behind), s⟩ ⟨n - 1, x, u⟩
  | argument {n : Nat} {span : Span} {callee x : Expr} {front behind : List Expr}
      {keywords : List (Span × Text × Expr)} {v : Value} {vs : List Value} {s t u : State} :
    ¬ (front ++ x :: behind).length + keywords.length > limits.maxCallArguments →
    Place.outcome limits text ⟨n - 1, callee.called, s⟩ = .ok v t →
    valuesBelow limits text n 3 front t = .ok vs u →
    Operand ⟨n + 1, .call span callee (front ++ x :: behind) keywords, s⟩ ⟨n - 3, x, u⟩
  | keyword {n : Nat} {span whole : Span} {label : Text} {callee x : Expr} {args : List Expr}
      {front behind : List (Span × Text × Expr)} {v : Value} {vs ws : List Value}
      {s t u r : State} :
    ¬ args.length + (front ++ (whole, label, x) :: behind).length > limits.maxCallArguments →
    Place.outcome limits text ⟨n - 1, callee.called, s⟩ = .ok v t →
    valuesBelow limits text n 3 args t = .ok vs u →
    valuesBelow limits text n 2 (front.map (·.2.2)) u = .ok ws r →
    Operand ⟨n + 1, .call span callee args (front ++ (whole, label, x) :: behind), s⟩ ⟨n - 2, x, r⟩

/-- The evaluation at a place comes to another place. -/
def Comes : Place → Place → Prop := Relation.ReflTransGen (Operand limits text)

end

/-! ## Failures go up -/

namespace Place

variable {limits : Limits} {text : Text}

theorem outcome_below (n k : Nat) (x : Expr) (s : State) :
    ((room limits n).below k).evaluateNode text x s = outcome limits text ⟨n - k, x, s⟩ := by
  show (Engine.tower limits n k).evaluateNode text x s = _
  rw [Engine.tower_below]
  rfl

end Place

namespace Evaluation

variable {limits : Limits} {text : Text} {engine : Engine} {x : Expr} {s t u : State} {fault : Fault}

/-- Nothing is evaluated behind an expression that fails. -/
theorem values_append_error {front : List Expr} {vs : List Value} (behind : List Expr)
    (hfront : values engine text front s = .ok vs t)
    (hx : engine.evaluateNode text x t = .error fault u) :
    values engine text (front ++ x :: behind) s = .error fault u := by
  unfold values at *
  rw [List.mapM_append, Run.bind_of_ok hfront, List.mapM_cons, bind_assoc, Run.bind_of_error hx]

theorem comparisons_append_error {r : Room} {op : CompareOp} {front : List (CompareOp × Expr)} {v : Value}
    (behind : List (CompareOp × Expr)) (hfront : comparisons engine r text v front s = .ok true t)
    (hx : engine.evaluateNode text x t = .error fault u) :
    comparisons engine r text v (front ++ (op, x) :: behind) s = .error fault u := by
  induction front generalizing v s with
  | nil =>
    cases hfront
    exact Run.bind_of_error hx _
  | cons step front ih =>
    obtain ⟨w, s₁, hw, hfront⟩ := Run.bind_ok_iff.mp hfront
    obtain ⟨holds, s₂, hholds, hfront⟩ := Run.bind_ok_iff.mp hfront
    refine (Run.bind_of_ok hw _).trans ((Run.bind_of_ok hholds _).trans ?_)
    cases holds with
    | false => cases hfront
    | true => exact ih hfront

/-- The arguments by name, behind those that are done. -/
def named (engine : Engine) (text : Text) (keywords : List (Span × Text × Expr))
    (done : List (Text × Value)) : Run (List (Text × Value)) :=
  keywords.foldlM (fun done (_, name, e) => do
    let v ← engine.evaluateNode text e
    return putKeyword name v done) done

theorem arguments_eq (r : Room) (text : Text) (args : List Expr) (keywords : List (Span × Text × Expr)) :
    arguments r text args keywords = (do
      let positional ← values (r.below 3) text args
      let keywords ← named (r.below 2) text keywords []
      return ⟨positional, keywords⟩) := rfl

/-- Arguments by name fail where the expressions behind their names do. -/
theorem named_error_iff {keywords : List (Span × Text × Expr)} {done : List (Text × Value)} :
    named engine text keywords done s = .error fault t ↔
      values engine text (keywords.map (·.2.2)) s = .error fault t := by
  unfold values
  induction keywords generalizing done s with
  | nil => exact ⟨fun h => (by cases h), fun h => (by cases h)⟩
  | cons keyword keywords ih =>
    rw [List.map_cons, List.mapM_cons, named, List.foldlM_cons, bind_assoc, Run.bind_apply, Run.bind_apply]
    cases hv : engine.evaluateNode text keyword.2.2 s with
    | error other u => exact ⟨fun h => (by cases h; rfl), fun h => (by cases h; rfl)⟩
    | ok v u =>
      simp only [pure_bind, Run.bind_pure_error_iff]
      exact ih

/-- The bounds of a slice fail where those that are there do. -/
theorem bounds_error_iff {bounds : List (Option Expr)} :
    bounds.mapM (bound engine text) s = .error fault t ↔
      values engine text bounds.reduceOption s = .error fault t := by
  unfold values
  induction bounds generalizing s with
  | nil => exact Iff.rfl
  | cons o bounds ih =>
    cases o with
    | none =>
      rw [List.reduceOption_cons_of_none, List.mapM_cons, bound, pure_bind, Run.bind_pure_error_iff]
      exact ih
    | some e =>
      rw [List.reduceOption_cons_of_some, List.mapM_cons, List.mapM_cons, bound, Run.bind_apply,
        Run.bind_apply]
      cases engine.evaluateNode text e s with
      | error other u => exact Iff.rfl
      | ok v u =>
        simp only [Run.bind_pure_error_iff]
        exact ih

/-- What a call does when its callee and its arguments have been evaluated. -/
def applied (limits : Limits) (r : Room) (callee : Expr) (v : Value) (given : Arguments) : Run Value := do
  match callee with
  | .attribute _ _ name =>
    match (← get).heap.module? v with
    | some m =>
      let f ← requireCallable (← m.member name)
      (r.below 0).call f given
    | none => callMethod limits v name given
  | _ =>
    let f ← requireCallable v
    (r.below 0).call f given

theorem call_eq {limits : Limits} {r : Room} {callee : Expr} {args : List Expr}
    {keywords : List (Span × Text × Expr)}
    (hfew : ¬ args.length + keywords.length > limits.maxCallArguments) :
    call limits r text callee args keywords = (do
      let v ← (r.below 1).evaluateNode text callee.called
      let given ← arguments r text args keywords
      applied limits r callee v given) := by
  unfold call
  rw [if_neg hfew]
  cases callee <;> rfl

theorem sliced_eq {limits : Limits} {r : Room} {span bounds : Span} {target : Expr}
    {lower upper step : Option Expr} :
    nodeValue limits r text (.sliced span target bounds lower upper step) = (do
      let v ← (r.below 1).evaluateNode text target
      Operation.requireSliceable v
      let parts ← [lower, upper, step].mapM (bound (r.below 1) text)
      return .ok (← Operation.slice v (parts.getD 0 .none) (parts.getD 1 .none) (parts.getD 2 .none))) := by
  unfold nodeValue
  simp only [List.mapM_cons, List.mapM_nil, bind_assoc, pure_bind]
  rfl

theorem nodeValue_error_of_first {limits : Limits} {r : Room} {e : Expr}
    (hfirst : e.first? limits = some x) (hx : (r.below 1).evaluateNode text x s = .error fault t) :
    nodeValue limits r text e s = .error fault t := by
  cases e with
  | literal _ _ | name _ _ | list _ _ | tuple _ _ | set _ _ | dict _ _ => cases hfirst
  | call span callee args keywords =>
    rw [Expr.first?] at hfirst
    split at hfirst
    · cases hfirst
    · rename_i hfew
      cases hfirst
      refine Run.bind_pure_error_iff.mpr ?_
      rw [call_eq hfew]
      exact Run.bind_of_error hx _
  | boolean span op left right =>
    cases hfirst
    exact Run.bind_pure_error_iff.mpr (Run.bind_of_error hx _)
  | _ =>
    cases hfirst
    exact Run.bind_of_error hx _

theorem nodeValue_error_of_elements {limits : Limits} {r : Room} {e : Expr}
    (hvalues : values (r.below 3) text e.elements s = .error fault t) :
    nodeValue limits r text e s = .error fault t := by
  cases e with
  | list _ _ | tuple _ _ | set _ _ => exact Run.bind_of_error hvalues _
  | dict span entries =>
    unfold Expr.elements values at hvalues
    rw [List.mapM_append] at hvalues
    rcases Run.bind_error hvalues with hkeys | ⟨ks, u, hkeys, hvalues⟩
    · exact Run.bind_of_error hkeys _
    · exact (Run.bind_of_ok hkeys _).trans (Run.bind_of_error (Run.bind_pure_error_iff.mp hvalues) _)
  | _ => cases hvalues

end Evaluation

open Evaluation

variable {limits : Limits} {text : Text} {n : Nat} {e : Expr} {x : Place} {s t : State} {fault : Fault}

/-- Where an operand fails, the expression fails in the same way. -/
theorem Operand.propagates (h : Operand limits text ⟨n + 1, e, s⟩ x)
    (hx : x.outcome limits text = .error fault t) :
    nodeValue limits (room limits n) text e s = .error fault t := by
  -- What is in front of the operand ends, then the operand fails, and nothing comes behind it.
  cases h with
  | first hfirst =>
    rw [← Place.outcome_below] at hx
    exact nodeValue_error_of_first hfirst hx
  | @element _ _ _ _ behind _ _ _ helements hfront =>
    rw [← Place.outcome_below] at hx
    have hvalues := values_append_error behind hfront hx
    rw [← helements] at hvalues
    exact nodeValue_error_of_elements hvalues
  | index htarget =>
    rw [← Place.outcome_below] at hx htarget
    exact (Run.bind_of_ok htarget _).trans (Run.bind_of_error hx _)
  | @bound _ _ _ _ _ _ _ _ _ behind _ _ _ _ _ htarget hsliceable hbounds hfront =>
    rw [← Place.outcome_below] at hx htarget
    have hvalues := values_append_error behind hfront hx
    rw [← hbounds, ← bounds_error_iff] at hvalues
    rw [sliced_eq, Run.bind_of_ok htarget, Run.bind_of_ok (Run.liftM_ok_iff.mpr ⟨hsliceable, rfl⟩)]
    exact Run.bind_of_error hvalues _
  | right hleft =>
    rw [← Place.outcome_below] at hx hleft
    exact (Run.bind_of_ok hleft _).trans (Run.bind_of_error hx _)
  | other hleft htruthy =>
    rw [← Place.outcome_below] at hx hleft
    refine Run.bind_pure_error_iff.mpr ((Run.bind_of_ok hleft _).trans ?_)
    rw [Run.bind_of_ok (Run.look_ok_iff.mpr ⟨htruthy, rfl⟩), if_pos (beq_self_eq_true _)]
    exact hx
  | compared hleft hfront =>
    rw [← Place.outcome_below] at hx hleft
    refine (Run.bind_of_ok hleft _).trans (Run.bind_pure_error_iff.mpr ?_)
    exact comparisons_append_error _ hfront hx
  | @argument _ _ _ _ _ behind _ _ _ _ _ _ hfew hcallee hfront =>
    rw [← Place.outcome_below] at hx hcallee
    have hvalues := values_append_error behind hfront hx
    refine Run.bind_pure_error_iff.mpr ?_
    rw [call_eq hfew, Run.bind_of_ok hcallee, arguments_eq]
    exact Run.bind_of_error (Run.bind_of_error hvalues _) _
  | keyword hfew hcallee hargs hfront =>
    rw [← Place.outcome_below] at hx hcallee
    refine Run.bind_pure_error_iff.mpr ?_
    rw [call_eq hfew, Run.bind_of_ok hcallee, arguments_eq]
    refine Run.bind_of_error ((Run.bind_of_ok hargs _).trans (Run.bind_of_error ?_ _)) _
    rw [named_error_iff, List.map_append]
    exact values_append_error _ hfront hx

end Scriptlet
