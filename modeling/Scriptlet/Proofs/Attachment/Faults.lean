import Scriptlet.Proofs.Attachment
import Scriptlet.Proofs.Kinds.Running
import Scriptlet.Proofs.Scope.Running

/-
  Why an expression fails.

  An expression fails as one of its operands does, or by what it does with their values itself, or by the
  function that it calls. What it does itself stops with faults that are attached to nothing. So does a
  function, unless it evaluates or executes a text: the engines of `Engine.sealed` stop with an alarm then,
  and a call that does the same with them as in the run is closed.

  What is proved:
    1. `blame_of_nodeValue` — which of the three an expression fails by.
    2. `Call.IsClosed.isDetached` — a closed call stops with faults that are attached to nothing.
-/

namespace Scriptlet

open Engine (room)

/-! ## Calls at a place -/

/-- The function that a value is. -/
def Value.function? : Value → Option Function
  | .function f => some f
  | _ => Option.none

/-- The function that is called, if it is no method of a list: the member of a module, or the value of the
callee. -/
def Heap.functionOf (h : Heap) (callee : Expr) (v : Value) : Option Function :=
  match callee with
  | .attribute _ _ name => (h.module? v).bind fun m => (m.find? name).bind Value.function?
  | _ => v.function?

section

variable (limits : Limits) (text : Text)

/-- The evaluation at a place calls a function. -/
inductive Place.Calls : Place → Function → Arguments → State → Prop
  | call {n : Nat} {span : Span} {callee : Expr} {args : List Expr}
      {keywords : List (Span × Text × Expr)} {v : Value} {f : Function} {given : Arguments}
      {s t u : State} :
    ¬ args.length + keywords.length > limits.maxCallArguments →
    Place.outcome limits text ⟨n - 1, callee.called, s⟩ = .ok v t →
    Evaluation.arguments (room limits n) text args keywords t = .ok given u →
    u.heap.functionOf callee v = some f →
    Calls ⟨n + 1, .call span callee args keywords, s⟩ f given u

/-- Why an expression stops with a fault. -/
inductive Blame (n : Nat) (e : Expr) (s : State) (fault : Fault) (t : State) : Prop
  | operand {x : Place} : Operand limits text ⟨n + 1, e, s⟩ x →
    x.outcome limits text = .error fault t → Blame n e s fault t
  | own : fault.isDetached = true → Blame n e s fault t
  | call {f : Function} {given : Arguments} {u : State} :
    Place.Calls limits text ⟨n + 1, e, s⟩ f given u →
    (Engine.tower limits n 0).call f given u = .error fault t → Blame n e s fault t

end

/-! ## What is attached to nothing -/

/-- Everything may change, and what stops is attached to nothing. -/
def Scope.loose : Scope where
  origin := .initial
  lists _ := True
  found _ := True
  faults fault := fault.isDetached = true
  detached _ h := h

theorem Scope.loose_keeps (h : Heap) : Scope.loose.Keeps h := fun _ _ hr _ => absurd trivial hr

theorem Run.isDetached_of_minds {α : Type} {x : Run α} {s t : State} {fault : Fault}
    (h : ∀ text, Run.Minds .loose text x) (hx : x s = .error fault t) : fault.isDetached = true := by
  -- What stops with some other alarm has not stopped with this one.
  obtain ⟨text, htext⟩ := Watch.exists_alarm_ne (x s)
  rcases h text s (Scope.loose_keeps _) with ⟨u, halarm⟩ | ⟨-, hremains⟩
  · exact absurd halarm (htext u)
  · rw [hx] at hremains
    exact hremains.2

/-! ## Failures of lists of operands -/

namespace Evaluation

variable {limits : Limits} {text : Text} {engine : Engine} {s t : State} {fault : Fault}

/-- Of expressions that fail one fails, behind others that do not. -/
theorem exists_of_values_error {items : List Expr} (h : values engine text items s = .error fault t) :
    ∃ front x behind vs u, items = front ++ x :: behind ∧ values engine text front s = .ok vs u ∧
      engine.evaluateNode text x u = .error fault t := by
  unfold values at *
  induction items generalizing s with
  | nil => cases h
  | cons e items ih =>
    rw [List.mapM_cons] at h
    rcases Run.bind_error h with h | ⟨v, u, hv, h⟩
    · exact ⟨[], e, items, [], s, rfl, rfl, h⟩
    · obtain ⟨front, x, behind, vs, r, rfl, hfront, hx⟩ := ih (Run.bind_pure_error_iff.mp h)
      refine ⟨e :: front, x, behind, v :: vs, r, rfl, ?_, hx⟩
      rw [List.mapM_cons, Run.bind_of_ok hv, Run.bind_of_ok hfront]
      rfl

theorem exists_of_comparisons_error {r : Room} {v : Value} {rest : List (CompareOp × Expr)}
    (h : comparisons engine r text v rest s = .error fault t) :
    (∃ front op x behind u, rest = front ++ (op, x) :: behind ∧
        comparisons engine r text v front s = .ok true u ∧
        engine.evaluateNode text x u = .error fault t) ∨ fault.isDetached = true := by
  induction rest generalizing v s with
  | nil => cases h
  | cons step rest ih =>
    obtain ⟨op, e⟩ := step
    rcases Run.bind_error h with h | ⟨w, u, hw, h⟩
    · exact .inl ⟨[], op, e, rest, s, rfl, rfl, h⟩
    rcases Run.bind_error h with h | ⟨holds, u', hholds, h⟩
    · exact .inr (Run.isDetached_of_minds (fun _ => .read fun _ => Operation.detached_compare) h)
    cases holds with
    | false => cases h
    | true =>
      refine (ih h).imp_left ?_
      rintro ⟨front, op', x, behind, r', rfl, hfront, hx⟩
      exact ⟨(op, e) :: front, op', x, behind, r', rfl,
        (Run.bind_of_ok hw _).trans ((Run.bind_of_ok hholds _).trans hfront), hx⟩

end Evaluation

/-! ## Calls -/

namespace Engine

variable (limits : Limits) (text : Text)

/-- The engines of a run that stops with the alarm where a text is to be evaluated or executed. -/
def sealed : Nat → Nat → Engine
  | 0, _ => exhausted
  | levels + 1, 0 => {
      evaluate _ := throw (alarm text)
      evaluateNode _ _ := throw (alarm text)
      runLines _ := throw (alarm text)
      call := Call.function limits ⟨sealed levels, levels⟩ }
  | levels + 1, further + 1 => sealed levels further

/-- Calls do the same in the sealed engines as in the run, until they stop with the alarm. -/
theorem sealed_within (levels further : Nat) :
    Engine.Within .loose text (sealed limits text levels further) (tower limits levels further) := by
  induction levels generalizing further with
  | zero =>
    exact ⟨fun _ => .detached rfl, fun _ _ => .detached rfl, fun _ => .detached rfl,
      fun _ _ => .detached rfl⟩
  | succ levels ih =>
    cases further with
    | zero =>
      exact ⟨fun _ => .alarm, fun _ _ => .alarm, fun _ => .alarm,
        fun f given => Call.within_function ih fun _ _ => trivial⟩
    | succ further => exact ih further

end Engine

/-- The call evaluates and executes no text: it does the same where that is not possible. -/
def Call.IsClosed (limits : Limits) (levels : Nat) (f : Function) (given : Arguments) (s : State) : Prop :=
  ∀ text, (Engine.sealed limits text levels 0).call f given s = (Engine.tower limits levels 0).call f given s

/-- A call that evaluates and executes no text stops with what is attached to nothing. -/
theorem Call.IsClosed.isDetached {limits : Limits} {levels : Nat} {f : Function} {given : Arguments}
    {s t : State} {fault : Fault} (h : Call.IsClosed limits levels f given s)
    (hcall : (Engine.tower limits levels 0).call f given s = .error fault t) :
    fault.isDetached = true := by
  -- The call does not end with this alarm, so the sealed engines do all that the run does.
  obtain ⟨text, htext⟩ := Watch.exists_alarm_ne ((Engine.tower limits levels 0).call f given s)
  rcases (Engine.sealed_within limits text levels 0).call f given s (Scope.loose_keeps _) with
    ⟨u, halarm⟩ | ⟨hsame, hremains⟩
  · exact absurd ((h text).symm.trans halarm) (htext u)
  · rw [← hsame, hcall] at hremains
    exact hremains.2

/-! ## Expressions -/

section

variable {limits : Limits} {text : Text} {n : Nat} {s t u : State} {fault : Fault}

/-- What fails by itself stops with what is attached to nothing. -/
theorem Blame.of_minds {α : Type} {e : Expr} {x : Run α} (hx : ∀ text, Run.Minds .loose text x)
    (h : x u = .error fault t) : Blame limits text n e s fault t :=
  .own (Run.isDetached_of_minds hx h)

namespace Evaluation

theorem blame_of_elements {e : Expr}
    (h : values ((room limits n).below 3) text e.elements s = .error fault t) :
    Blame limits text n e s fault t := by
  obtain ⟨front, x, behind, vs, u, helements, hfront, hx⟩ := exists_of_values_error h
  rw [Place.outcome_below] at hx
  exact .operand (.element helements hfront) hx

theorem applied_member {span : Span} {target : Expr} {name : Text} {v : Value} {given : Arguments}
    {m : Module} (hm : u.heap.module? v = some m) :
    applied limits (room limits n) (.attribute span target name) v given u = (do
      let f ← requireCallable (← m.member name)
      (Engine.tower limits n 0).call f given : Run Value) u := by
  refine (Run.bind_of_ok (Run.get_apply u) _).trans ?_
  rw [hm]
  rfl

theorem applied_method {span : Span} {target : Expr} {name : Text} {v : Value} {given : Arguments}
    (hm : u.heap.module? v = none) :
    applied limits (room limits n) (.attribute span target name) v given u =
      callMethod limits v name given u := by
  refine (Run.bind_of_ok (Run.get_apply u) _).trans ?_
  rw [hm]

/-- Calling what has been evaluated fails by the function, or by there being none. -/
theorem applied_error {callee : Expr} {v : Value} {given : Arguments}
    (h : applied limits (room limits n) callee v given u = .error fault t) :
    fault.isDetached = true ∨ ∃ f, u.heap.functionOf callee v = some f ∧
      (Engine.tower limits n 0).call f given u = .error fault t := by
  have hfunction : ∀ w : Value, (do
        let f ← requireCallable w
        (Engine.tower limits n 0).call f given : Run Value) u = .error fault t →
      fault.isDetached = true ∨ ∃ f, w.function? = some f ∧
        (Engine.tower limits n 0).call f given u = .error fault t := by
    intro w h
    rcases Run.bind_error h with h | ⟨f, u', hf, h⟩
    · exact .inl (Run.isDetached_of_minds (fun _ => .computed detached_requireCallable) h)
    · obtain ⟨hcallable, rfl⟩ := Run.liftM_ok_iff.mp hf
      cases w with
      | function g =>
        cases hcallable
        exact .inr ⟨_, rfl, h⟩
      | _ =>
        obtain ⟨k, -, hrefused⟩ := bind_ok hcallable
        cases hrefused
  cases callee with
  | «attribute» span target name =>
    cases hm : u.heap.module? v with
    | none =>
      rw [applied_method hm] at h
      exact .inl (Run.isDetached_of_minds (fun _ => minds_callMethod fun _ _ => trivial) h)
    | some m =>
      rw [applied_member hm] at h
      rcases Run.bind_error h with h | ⟨w, u', hw, h⟩
      · exact .inl (Run.isDetached_of_minds (fun _ => .computed detached_member) h)
      · obtain ⟨hmember, rfl⟩ := Run.liftM_ok_iff.mp hw
        have hfind : m.find? name = some w := by
          unfold Module.member at hmember
          split at hmember
          · cases hmember
            assumption
          · cases hmember
        refine (hfunction w h).imp_right ?_
        rintro ⟨f, hf, hcall⟩
        refine ⟨f, ?_, hcall⟩
        simp only [Heap.functionOf, hm, Option.bind_some, hfind, hf]
  | _ => exact hfunction v h

/-- What evaluates its first operand and goes on with the value fails as the operand does, or behind it. -/
theorem blame_behind_first {α : Type} {e x : Expr} {rest : Value → Run α} (hfirst : e.first? limits = some x)
    (h : (((room limits n).below 1).evaluateNode text x >>= rest) s = .error fault t)
    (hrest : ∀ v u, Place.outcome limits text ⟨n - 1, x, s⟩ = .ok v u → rest v u = .error fault t →
      Blame limits text n e s fault t) :
    Blame limits text n e s fault t := by
  rcases Run.bind_error h with h | ⟨v, u, hv, h⟩
  · rw [Place.outcome_below] at h
    exact .operand (.first hfirst) h
  · rw [Place.outcome_below] at hv
    exact hrest v u hv h

theorem blame_of_call {span : Span} {callee : Expr} {args : List Expr}
    {keywords : List (Span × Text × Expr)}
    (h : call limits (room limits n) text callee args keywords s = .error fault t) :
    Blame limits text n (.call span callee args keywords) s fault t := by
  by_cases hmany : args.length + keywords.length > limits.maxCallArguments
  · unfold call at h
    rw [if_pos hmany] at h
    cases h
    exact .own rfl
  rw [call_eq hmany] at h
  refine blame_behind_first (if_neg hmany) h fun v u hv h => ?_
  rcases Run.bind_error h with h | ⟨given, r, hgiven, h⟩
  · rw [arguments_eq] at h
    rcases Run.bind_error h with h | ⟨vs, r, hvs, h⟩
    · obtain ⟨front, x, behind, ws, r, rfl, hfront, hx⟩ := exists_of_values_error h
      rw [Place.outcome_below] at hx
      exact .operand (.argument hmany hv hfront) hx
    · -- An argument by name is an expression behind its name.
      have hnamed := named_error_iff.mp (Run.bind_pure_error_iff.mp h)
      obtain ⟨_, x, _, ws, r', hmap, hfront, hx⟩ := exists_of_values_error hnamed
      obtain ⟨front, rest, rfl, rfl, hrest⟩ := List.map_eq_append_iff.mp hmap
      obtain ⟨⟨whole, label, e⟩, behind, rfl, rfl, -⟩ := List.map_eq_cons_iff.mp hrest
      rw [Place.outcome_below] at hx
      exact .operand (.keyword hmany hv hvs hfront) hx
  · rcases applied_error h with hown | ⟨f, hf, hcall⟩
    · exact .own hown
    · exact .call (.call hmany hv hgiven hf) hcall

/-- All keys of a mapping are evaluated before its values, and the entries are made then. -/
theorem blame_of_dict {span : Span} {entries : List (Expr × Expr)}
    (h : nodeValue limits (room limits n) text (.dict span entries) s = .error fault t) :
    Blame limits text n (.dict span entries) s fault t := by
  have helements : values ((room limits n).below 3) text (Expr.dict span entries).elements s =
      .error fault t → Blame limits text n (.dict span entries) s fault t := blame_of_elements
  unfold Expr.elements values at helements
  rw [List.mapM_append] at helements
  rcases Run.bind_error h with h | ⟨keys, u, hkeys, h⟩
  · exact helements (Run.bind_of_error h _)
  rcases Run.bind_error h with h | ⟨vs, u', -, h⟩
  · exact helements ((Run.bind_of_ok hkeys _).trans (Run.bind_of_error h _))
  rcases Run.bind_error h with h | ⟨made, u'', -, h⟩
  · have hmade : ∀ heap : Heap, Detached ((keys.zip vs).foldlM (fun done entry => do
        return Entry.put done (← heap.keyIn entry.1 "dict display") entry.1 entry.2) #[]) :=
      fun _ => .foldlM fun _ _ => Heap.detached_keyIn.bind fun _ _ => .pure
    exact .of_minds (fun _ => .read hmade) h
  · cases h

theorem blame_of_sliced {span bounds : Span} {target : Expr} {lower upper step : Option Expr}
    (h : nodeValue limits (room limits n) text (.sliced span target bounds lower upper step) s =
      .error fault t) :
    Blame limits text n (.sliced span target bounds lower upper step) s fault t := by
  rw [sliced_eq] at h
  refine blame_behind_first rfl h fun v u hv h => ?_
  rcases Run.bind_error h with h | ⟨⟨⟩, u', hlifted, h⟩
  · exact .of_minds (fun _ => .computed Operation.detached_requireSliceable) h
  obtain ⟨hsliceable, rfl⟩ := Run.liftM_ok_iff.mp hlifted
  rcases Run.bind_error h with h | ⟨parts, u', -, h⟩
  · obtain ⟨front, x, behind, vs, r, hbounds, hfront, hx⟩ :=
      exists_of_values_error (bounds_error_iff.mp h)
    rw [Place.outcome_below] at hx
    exact .operand (.bound hv hsliceable hbounds hfront) hx
  · exact .of_minds (fun _ => Operation.minds_slice) (Run.bind_pure_error_iff.mp h)

/-- The second operand of `and` and `or` is evaluated where the first one does not decide. -/
theorem blame_of_boolean {span : Span} {op : BoolOp} {left right : Expr}
    (h : nodeValue limits (room limits n) text (.boolean span op left right) s = .error fault t) :
    Blame limits text n (.boolean span op left right) s fault t := by
  refine blame_behind_first rfl (Run.bind_pure_error_iff.mp h) fun v u hv h => ?_
  rcases Run.bind_error h with h | ⟨holds, u', hholds, h⟩
  · exact .of_minds (fun _ => .read fun _ => Heap.detached_truthy) h
  obtain ⟨htruthy, rfl⟩ := Run.look_ok_iff.mp hholds
  by_cases hdecides : (holds == (op == .and)) = true
  · rw [if_pos hdecides, Place.outcome_below] at h
    rw [beq_iff_eq] at hdecides
    exact .operand (.other hv (hdecides ▸ htruthy)) h
  · rw [if_neg hdecides] at h
    cases h

/-- An expression fails as an operand does, or by itself, or by the function that it calls. -/
theorem blame_of_nodeValue {e : Expr} (h : nodeValue limits (room limits n) text e s = .error fault t) :
    Blame limits text n e s fault t := by
  cases e with
  | literal span c => cases h
  | name span id =>
    exact .own (Run.isDetached_of_minds (fun _ => minds_lookUp id) (Run.bind_pure_error_iff.mp h))
  | list span items =>
    rcases Run.bind_error h with h | ⟨vs, u, -, h⟩
    · exact blame_of_elements h
    · exact .of_minds (fun _ => Run.minds_newList vs) (Run.bind_pure_error_iff.mp h)
  | tuple span items =>
    rcases Run.bind_error h with h | ⟨vs, u, -, h⟩
    · exact blame_of_elements h
    · exact .of_minds (fun _ => Run.minds_newTuple vs) (Run.bind_pure_error_iff.mp h)
  | set span items =>
    rcases Run.bind_error h with h | ⟨vs, u, -, h⟩
    · exact blame_of_elements h
    rcases Run.bind_error h with h | ⟨members, u', -, h⟩
    · exact .of_minds (fun _ => .read fun _ => Heap.detached_membersOf) h
    · cases h
  | dict span entries => exact blame_of_dict h
  | «attribute» span target name =>
    exact blame_behind_first rfl h fun v u _ h =>
      .of_minds (fun _ => minds_attributeOf name) (Run.bind_pure_error_iff.mp h)
  | subscript span target index =>
    refine blame_behind_first rfl h fun v u hv h => ?_
    rcases Run.bind_error h with h | ⟨w, u', -, h⟩
    · rw [Place.outcome_below] at h
      exact .operand (.index hv) h
    · exact .of_minds (fun _ => .read fun _ => Heap.detached_lookUp) h
  | sliced span target bounds lower upper step => exact blame_of_sliced h
  | call span callee args keywords => exact blame_of_call (Run.bind_pure_error_iff.mp h)
  | unary span op operand =>
    exact blame_behind_first rfl h fun v u _ h =>
      .of_minds (fun _ => Operation.minds_unary) (Run.bind_pure_error_iff.mp h)
  | binary span op left right =>
    refine blame_behind_first rfl h fun v u hv h => ?_
    rcases Run.bind_error h with h | ⟨w, u', -, h⟩
    · rw [Place.outcome_below] at h
      exact .operand (.right hv) h
    · exact .of_minds (fun _ => Operation.minds_binary) (Run.bind_pure_error_iff.mp h)
  | boolean span op left right => exact blame_of_boolean h
  | compare span left rest =>
    refine blame_behind_first rfl h fun v u hv h => ?_
    rcases exists_of_comparisons_error (Run.bind_pure_error_iff.mp h) with
      ⟨front, op, x, behind, u', rfl, hfront, hx⟩ | hown
    · rw [Place.outcome_below] at hx
      exact .operand (.compared hv hfront) hx
    · exact .own hown

end Evaluation

end

end Scriptlet
