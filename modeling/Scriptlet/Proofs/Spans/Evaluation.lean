import Scriptlet.Proofs.Attachment
import Scriptlet.Proofs.Parse.Chains

/-
  Evaluation does not look at spans.

  Spans say where an expression stands in the text that it was read from, and evaluation uses them for
  what an error is attached to and for nothing else. So two expressions that are the same without their
  spans have the same value and the same effects, and fail with the same error up to its attachment,
  whatever texts they were read from.

  What is proved:
    1. `Run.Alike` — being the same up to attachments is kept by whatever runs are put together with.
    2. `Engine.evaluateNode_alike` — expressions that differ in their spans are evaluated alike.
-/

namespace Scriptlet

/-! ## The same up to attachments -/

/-- The fault without what it is attached to. -/
def Fault.detached : Fault → Fault
  | .error e => .error { e with source := none }
  | fault => fault

namespace Run

variable {α β γ : Type}

/-- Both end in the same state, with the same value or with faults that differ in what they are attached
to. -/
def Alike (x y : Run α) : Prop := mapFault Fault.detached x = mapFault Fault.detached y

namespace Alike

variable {x y z : Run α}

theorem refl (x : Run α) : Alike x x := Eq.refl _

theorem symm (h : Alike x y) : Alike y x := Eq.symm h

theorem trans (h : Alike x y) (h' : Alike y z) : Alike x z := Eq.trans h h'

theorem mapFault_bind (f : Fault → Fault) (x : Run α) (g : α → Run β) :
    mapFault f (x >>= g) = mapFault f x >>= fun a => mapFault f (g a) := by
  funext s
  rw [mapFault_apply, bind_apply, bind_apply, mapFault_apply]
  cases x s <;> rfl

theorem bind {f g : α → Run β} (h : Alike x y) (hfg : ∀ a, Alike (f a) (g a)) :
    Alike (x >>= f) (y >>= g) := by
  unfold Alike
  rw [mapFault_bind, mapFault_bind, h, funext hfg]

/-- What attaches faults does the same, up to attachments, to faults that are attached to anything. -/
theorem attached {f g k : Fault → Fault} (h : Alike x y) (hf : ∀ a, (f a).detached = k a.detached)
    (hg : ∀ a, (g a).detached = k a.detached) : Alike (mapFault f x) (mapFault g y) := by
  have hmap : ∀ {f : Fault → Fault} (x : Run α), (∀ a, (f a).detached = k a.detached) →
      mapFault Fault.detached (mapFault f x) = mapFault k (mapFault Fault.detached x) := by
    intro f x hf
    funext s
    simp only [mapFault_apply]
    cases x s with
    | ok a t => rfl
    | error fault t => exact congrArg (EStateM.Result.error · t) (hf fault)
  unfold Alike
  rw [hmap x hf, hmap y hg, h]

theorem mapM {f : α → Run γ} {g : β → Run γ} {φ : α → β} (h : ∀ a, Alike (f a) (g (φ a))) (as : List α) :
    Alike (as.mapM f) ((as.map φ).mapM g) := by
  induction as with
  | nil => exact refl _
  | cons a as ih =>
    rw [List.map_cons, List.mapM_cons, List.mapM_cons]
    exact (h a).bind fun b => ih.bind fun bs => refl _

theorem foldlM {f : γ → α → Run γ} {g : γ → β → Run γ} {φ : α → β}
    (h : ∀ c a, Alike (f c a) (g c (φ a))) (as : List α) (c : γ) :
    Alike (as.foldlM f c) ((as.map φ).foldlM g c) := by
  induction as generalizing c with
  | nil => exact refl _
  | cons a as ih =>
    rw [List.map_cons, List.foldlM_cons, List.foldlM_cons]
    exact (h c a).bind fun d => ih d

end Alike

end Run

theorem Fault.detached_within (source : Text) (fault : Fault) :
    (fault.within source).detached = (fault.detached.within []).detached := by
  cases fault with
  | error e =>
    obtain ⟨kind, text, attachment⟩ := e
    cases attachment <;> rfl
  | failure f | unreported f =>
    obtain ⟨kind, text⟩ := f
    cases kind <;> rfl
  | tooDeep => rfl

theorem Fault.detached_leaving (source : Text) (fault : Fault) :
    (fault.leaving source).detached = (fault.detached.leaving []).detached := by
  cases fault with
  | error e =>
    obtain ⟨kind, text, attachment⟩ := e
    cases attachment <;> rfl
  | failure f | unreported f | tooDeep => rfl

/-! ## Evaluation -/

open Run (Alike)

/-- The engine evaluates an expression like the one without its spans, whatever texts they are from. -/
def Engine.IgnoresSpans (engine : Engine) : Prop :=
  ∀ text text' e, Alike (engine.evaluateNode text e) (engine.evaluateNode text' e.bare)

namespace Evaluation

variable {limits : Limits} {room : Room} {engine : Engine} (text text' : Text)

section

variable (h : engine.IgnoresSpans)

include h

theorem values_alike (items : List Expr) :
    Alike (values engine text items) (values engine text' (Expr.bareItems items)) := by
  rw [Expr.bareItems_eq]
  exact .mapM (h text text') items

theorem bound_alike (e : Option Expr) :
    Alike (bound engine text e) (bound engine text' (Expr.barePart e)) := by
  cases e with
  | none => exact .refl _
  | some e => exact h text text' e

theorem comparisons_alike (v : Value) (rest : List (CompareOp × Expr)) :
    Alike (comparisons engine room text v rest)
      (comparisons engine room text' v (Expr.bareOperands rest)) := by
  induction rest generalizing v with
  | nil => exact .refl _
  | cons operand rest ih =>
    obtain ⟨op, e⟩ := operand
    rw [comparisons, Expr.bareOperands, comparisons]
    refine (h text text' e).bind fun right => (Alike.refl _).bind fun holds => ?_
    cases holds with
    | false => exact .refl _
    | true => exact ih right

theorem boolean_alike (op : BoolOp) (left right : Expr) :
    Alike (boolean engine text op left right) (boolean engine text' op left.bare right.bare) := by
  refine (h text text' left).bind fun v => (Alike.refl _).bind fun holds => ?_
  split
  · exact h text text' right
  · exact .refl _

end

variable (h : ∀ k, (room.below k).IgnoresSpans)

include h

theorem arguments_alike (args : List Expr) (keywords : List (Span × Text × Expr)) :
    Alike (arguments room text args keywords)
      (arguments room text' (Expr.bareItems args) (Expr.bareKeywords keywords)) := by
  rw [Expr.bareKeywords_eq]
  refine (values_alike text text' (h 3) args).bind fun positional => ?_
  refine (Alike.foldlM (fun done keyword => ?_) keywords []).bind fun named => .refl _
  exact (h 2 text text' keyword.2.2).bind fun v => .refl _

theorem call_alike (callee : Expr) (args : List Expr) (keywords : List (Span × Text × Expr)) :
    Alike (call limits room text callee args keywords)
      (call limits room text' callee.bare (Expr.bareItems args) (Expr.bareKeywords keywords)) := by
  have hargs : (Expr.bareItems args).length = args.length := by rw [Expr.bareItems_eq, List.length_map]
  have hkeywords : (Expr.bareKeywords keywords).length = keywords.length := by
    rw [Expr.bareKeywords_eq, List.length_map]
  by_cases hmany : args.length + keywords.length > limits.maxCallArguments
  · unfold call
    rw [hargs, hkeywords, if_pos hmany, if_pos hmany]
    exact rfl
  · have hcalled : callee.bare.called = callee.called.bare := by cases callee <;> rfl
    have happlied : applied limits room callee.bare = applied limits room callee := by cases callee <;> rfl
    rw [call_eq hmany, call_eq (by rw [hargs, hkeywords]; exact hmany), hcalled, happlied]
    exact (h 1 text text' callee.called).bind fun v =>
      (arguments_alike text text' h args keywords).bind fun given => .refl _

theorem nodeValue_alike (e : Expr) :
    Alike (nodeValue limits room text e) (nodeValue limits room text' e.bare) := by
  cases e with
  | literal span c | name span id => exact .refl _
  | list span items | tuple span items =>
    exact (values_alike text text' (h 3) items).bind fun vs => .refl _
  | set span items => exact (values_alike text text' (h 3) items).bind fun vs => .refl _
  | dict span entries =>
    have hkeys : (Expr.bareEntries entries).map (·.1) = Expr.bareItems (entries.map (·.1)) := by
      rw [Expr.bareEntries_eq, Expr.bareItems_eq, List.map_map, List.map_map]
      rfl
    have hvalues : (Expr.bareEntries entries).map (·.2) = Expr.bareItems (entries.map (·.2)) := by
      rw [Expr.bareEntries_eq, Expr.bareItems_eq, List.map_map, List.map_map]
      rfl
    rw [Expr.bare, nodeValue, nodeValue, hkeys, hvalues]
    exact (values_alike text text' (h 3) _).bind fun keys =>
      (values_alike text text' (h 3) _).bind fun vs => .refl _
  | «attribute» span target name => exact (h 1 text text' target).bind fun v => .refl _
  | subscript span target index =>
    exact (h 1 text text' target).bind fun v => (h 1 text text' index).bind fun i => .refl _
  | sliced span target place lower upper step =>
    refine (h 1 text text' target).bind fun v => (Alike.refl _).bind fun _ => ?_
    exact (bound_alike text text' (h 1) lower).bind fun l => (bound_alike text text' (h 1) upper).bind
      fun u => (bound_alike text text' (h 1) step).bind fun s => .refl _
  | call span callee args keywords =>
    exact (call_alike text text' h callee args keywords).bind fun v => .refl _
  | unary span op operand => exact (h 1 text text' operand).bind fun v => .refl _
  | binary span op left right =>
    exact (h 1 text text' left).bind fun l => (h 1 text text' right).bind fun r => .refl _
  | boolean span op left right =>
    exact (boolean_alike text text' (h 1) op left right).bind fun v => .refl _
  | compare span left rest =>
    exact (h 1 text text' left).bind fun v =>
      (comparisons_alike text text' (h 1) v rest).bind fun b => .refl _

theorem node_alike (e : Expr) : Alike (node limits room text e) (node limits room text' e.bare) := by
  exact ((nodeValue_alike text text' h e).attached (k := fun fault => (fault.within []).detached)
    (Fault.detached_within _) (Fault.detached_within _)).bind fun found => .refl _

end Evaluation

namespace Engine

variable {limits : Limits}

theorem tower_ignoresSpans (limits : Limits) (n k : Nat) : (tower limits n k).IgnoresSpans := by
  induction n generalizing k with
  | zero => exact fun _ _ _ => .refl _
  | succ n ih =>
    cases k with
    | zero => exact fun text text' e => Evaluation.node_alike text text' ih e
    | succ k => exact ih k

/-- Expressions that differ in their spans are evaluated alike, whatever texts they are from. -/
theorem evaluateNode_alike (n k : Nat) (text text' : Text) {e e' : Expr} (h : e.bare = e'.bare) :
    Alike ((tower limits n k).evaluateNode text e) ((tower limits n k).evaluateNode text' e') := by
  have hbare := tower_ignoresSpans limits n k
  refine (hbare text text e).trans ?_
  rw [h]
  exact (hbare text' text e').symm

end Engine

end Scriptlet
