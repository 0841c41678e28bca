import Scriptlet.Evaluation
import Scriptlet.Proofs.Kinds.Calls

/-
  Evaluation that keeps kinds.

  What is proved:
    1. `tracks_call` — calls keep kinds, be it of a function or of a method.
    2. `tracks_node`, `tracks_evaluate` — the values of expressions and of texts have kinds.
    3. `tracks_assign` — so has what they are assigned to.
-/

namespace Scriptlet

namespace Evaluation

open Run

variable {text source : Text} {v w : Value} {limits : Limits}

/-! ## Names and attributes -/

theorem keeps_lookUp (name : Text) : Keeps text (lookUp name) Value.HasKind := by
  unfold lookUp
  refine Tracks.get.bind fun s hs => ?_
  cases hv : s.vars.find? name with
  | some v => exact .pure (hs.find? hv)
  | none =>
    simp only
    cases Builtin.ofName? name with
    | some f => exact .pure rfl
    | none => exact .throw

theorem keeps_attributeOf (name : Text) : Keeps text (attributeOf v name) Value.HasKind := by
  unfold attributeOf
  refine Tracks.get.bind fun s _ => ?_
  cases hm : s.heap.module? v with
  | some m => exact .lift (Heap.module?_member name hm)
  | none => exact Tracks.liftAny.bind fun _ _ => .throw

theorem keeps_callMethod {name : Text} {arguments : Arguments} (harguments : arguments.HaveKinds) :
    Keeps text (callMethod limits v name arguments) Value.HasKind := by
  unfold callMethod
  refine Tracks.liftAny.bind fun _ _ => ?_
  cases v with
  | list r =>
    refine .ite (fun _ => ?_) fun _ => Tracks.liftAny.bind fun _ _ => .throw
    split
    · rename_i v hpositional _
      refine Tracks.get.bind fun _ _ => Tracks.liftAny.bind fun _ _ => ?_
      have hv : v.HasKind := harguments.positional v (by rw [hpositional]; exact List.mem_cons_self)
      exact (Tracks.change fun h hh => hh.pushList r hv).bind fun _ _ => .pure rfl
    · exact .throw
  | _ => exact Tracks.liftAny.bind fun _ _ => .throw

/-! ## Arguments -/

/-- An argument by name takes the place that a variable of that name would. -/
theorem putKeyword_eq_bind (name : Text) (v : Value) (done : List (Text × Value)) :
    putKeyword name v done = Variables.bind name v done := by
  induction done with
  | nil => rfl
  | cons q rest ih => simp only [putKeyword, Variables.bind, ih, beq_iff_eq]

theorem mem_putKeyword {name : Text} {done : List (Text × Value)} {p : Text × Value}
    (hp : p ∈ putKeyword name v done) : p.2 = v ∨ p ∈ done := by
  rw [putKeyword_eq_bind] at hp
  exact (Run.mem_bind hp).imp_left (congrArg Prod.snd)

section

variable {below other : Nat → Engine} {n : Nat}
  (hbelow : ∀ k, Engine.Tracks text (below k) (other k))

include hbelow

theorem tracks_values (k : Nat) (items : List Expr) :
    Run.Tracks text (values (below k) source items) (values (other k) source items)
      fun vs => ∀ v ∈ vs, v.HasKind :=
  Tracks.mapM fun e _ => (hbelow k).evaluateNode source e

theorem tracks_arguments {args : List Expr} {keywords : List (Span × Text × Expr)} :
    Run.Tracks text (arguments ⟨below, n⟩ source args keywords)
      (arguments ⟨other, n⟩ source args keywords) Arguments.HaveKinds := by
  refine (tracks_values hbelow 3 args).bind fun positional hpositional => ?_
  have hnothing : ∀ p ∈ ([] : List (Text × Value)), p.2.HasKind :=
    fun p hp => absurd hp List.not_mem_nil
  refine (Tracks.foldlM hnothing fun keyword _ done hdone => ?_).bind fun named hnamed =>
    .pure ⟨hpositional, hnamed⟩
  refine ((hbelow 2).evaluateNode source _).bind fun v hv => .pure fun p hp => ?_
  rcases mem_putKeyword hp with h | hp
  · rw [h]
    exact hv
  · exact hdone p hp

theorem tracks_call {callee : Expr} {args : List Expr} {keywords : List (Span × Text × Expr)} :
    Run.Tracks text (call limits ⟨below, n⟩ source callee args keywords)
      (call limits ⟨other, n⟩ source callee args keywords) Value.HasKind := by
  have hplain : Run.Tracks text
      (do
        let v ← (below 1).evaluateNode source callee
        let given ← arguments ⟨below, n⟩ source args keywords
        let f ← requireCallable v
        (below 0).call f given)
      (do
        let v ← (other 1).evaluateNode source callee
        let given ← arguments ⟨other, n⟩ source args keywords
        let f ← requireCallable v
        (other 0).call f given) Value.HasKind := by
    refine ((hbelow 1).evaluateNode source callee).bind fun v _ => ?_
    refine (tracks_arguments hbelow).bind fun given hgiven => ?_
    exact Tracks.liftAny.bind fun f _ => (hbelow 0).call f hgiven
  unfold call
  refine .ite (fun _ => .throwBind) fun _ => ?_
  cases callee with
  | «attribute» span target name =>
    refine ((hbelow 1).evaluateNode source target).bind fun v _ => ?_
    refine (tracks_arguments hbelow).bind fun given hgiven => Tracks.get.bind fun s _ => ?_
    cases s.heap.module? v with
    | some m =>
      exact Tracks.liftAny.bind fun _ _ => Tracks.liftAny.bind fun f _ => (hbelow 0).call f hgiven
    | none => exact keeps_callMethod hgiven
  | _ => exact hplain

/-! ## Expressions -/

theorem tracks_bound {e : Option Expr} :
    Run.Tracks text (bound (below 1) source e) (bound (other 1) source e) Value.HasKind := by
  cases e with
  | none => exact .pure rfl
  | some e => exact (hbelow 1).evaluateNode source e

theorem tracks_comparisons {rest : List (CompareOp × Expr)} :
    Run.Tracks text (comparisons (below 1) ⟨below, n⟩ source v rest)
      (comparisons (other 1) ⟨other, n⟩ source v rest) fun _ => True := by
  induction rest generalizing v with
  | nil => exact .pure trivial
  | cons step rest ih =>
    obtain ⟨op, e⟩ := step
    unfold comparisons
    refine ((hbelow 1).evaluateNode source e).bind fun w _ => Tracks.lookAny.bind fun holds _ => ?_
    exact .ite (fun _ => ih) fun _ => .pure trivial

theorem tracks_boolean {op : BoolOp} {left right : Expr} :
    Run.Tracks text (boolean (below 1) source op left right) (boolean (other 1) source op left right)
      Value.HasKind := by
  refine ((hbelow 1).evaluateNode source left).bind fun v hv => Tracks.lookAny.bind fun _ _ => ?_
  exact .ite (fun _ => (hbelow 1).evaluateNode source right) fun _ => .pure hv

/-- What is found is a value with a kind, if it is a value. -/
def FoundKind (found : Found) : Prop := ∀ v, found = .ok v → v.HasKind

omit hbelow in
theorem tracks_found {x y : Run Value} (h : Run.Tracks text x y Value.HasKind) :
    Run.Tracks text (do return .ok (← x) : Run Found) (do return .ok (← y)) FoundKind := by
  refine h.bind fun v hv => .pure fun w hw => ?_
  cases hw
  exact hv

theorem tracks_nodeValue {e : Expr} :
    Run.Tracks text (nodeValue limits ⟨below, n⟩ source e) (nodeValue limits ⟨other, n⟩ source e)
      FoundKind := by
  have hnode : ∀ k e, Run.Tracks text ((below k).evaluateNode source e)
      ((other k).evaluateNode source e) Value.HasKind := fun k e => (hbelow k).evaluateNode source e
  have hvalues : ∀ items, Run.Tracks text (values (below 3) source items)
      (values (other 3) source items) fun vs => ∀ v ∈ vs, v.HasKind :=
    fun items => tracks_values hbelow 3 items
  cases e with
  | literal span c =>
    refine .pure fun v hv => ?_
    cases hv
    cases c <;> rfl
  | name span id => exact tracks_found (keeps_lookUp id)
  | list span items => exact (hvalues items).bind fun vs hvs => tracks_found (keeps_newList hvs)
  | tuple span items => exact (hvalues items).bind fun vs hvs => tracks_found (keeps_newTuple hvs)
  | set span items =>
    refine (hvalues items).bind fun vs hvs => ?_
    refine (Tracks.look fun h _ => Heap.membersOf_haveKinds "set display" hvs).bind fun ms hms => ?_
    exact tracks_found (.make fun h hh => hh.newSet hms)
  | dict span entries =>
    refine (hvalues _).bind fun ks hks => (hvalues _).bind fun vs hvs => ?_
    refine (Tracks.look fun h _ =>
      Gives.foldlM Entry.HaveKinds.empty fun p hp done hdone => ?_).bind fun made hmade => ?_
    · obtain ⟨hk, hv⟩ := List.of_mem_zip hp
      exact Gives.any.bind fun key _ => .pure (hdone.put (hks _ hk) (hvs _ hv))
    · exact tracks_found (.make fun h hh => hh.newDict hmade)
  | «attribute» span target name =>
    exact (hnode 1 target).bind fun v _ => tracks_found (keeps_attributeOf name)
  | subscript span target index =>
    refine (hnode 1 target).bind fun v _ => (hnode 1 index).bind fun w _ => ?_
    exact .look fun h hh => hh.lookUp n
  | sliced span target bounds lower upper step =>
    refine (hnode 1 target).bind fun v hv => Tracks.liftAny.bind fun _ _ => ?_
    refine (tracks_bound hbelow).bind fun _ _ => (tracks_bound hbelow).bind fun _ _ => ?_
    exact (tracks_bound hbelow).bind fun _ _ => tracks_found (Operation.keeps_slice hv)
  | call span callee args keywords => exact tracks_found (tracks_call hbelow)
  | unary span op operand =>
    exact (hnode 1 operand).bind fun v hv => tracks_found (Operation.keeps_unary op hv)
  | binary span op left right =>
    refine (hnode 1 left).bind fun v hv => (hnode 1 right).bind fun w hw => ?_
    exact tracks_found (Operation.keeps_binary op hv hw)
  | boolean span op left right => exact tracks_found (tracks_boolean hbelow)
  | compare span left rest =>
    refine (hnode 1 left).bind fun v _ => (tracks_comparisons hbelow).bind fun b _ => ?_
    refine .pure fun w hw => ?_
    cases hw
    rfl

theorem tracks_node {e : Expr} :
    Run.Tracks text (node limits ⟨below, n⟩ source e) (node limits ⟨other, n⟩ source e)
      Value.HasKind := by
  refine (Tracks.mapFault rfl (tracks_nodeValue hbelow)).bind fun found hfound => ?_
  cases found with
  | ok v => exact .pure (hfound v rfl)
  | error f => exact .throw

theorem tracks_evaluate :
    Run.Tracks text (evaluate ⟨below, n⟩ source) (evaluate ⟨other, n⟩ source) Value.HasKind := by
  refine .mapFault rfl ?_
  exact Tracks.liftAny.bind fun e _ => (hbelow 0).evaluateNode _ e

theorem tracks_assign {k : Nat} {target : Expr} (hv : v.HasKind) :
    Run.Tracks text (assign (below k) source target v) (assign (other k) source target v)
      fun _ => True := by
  cases target with
  | name span id => exact keeps_bind id hv
  | subscript span container key =>
    refine ((hbelow k).evaluateNode source container).bind fun c _ => ?_
    refine ((hbelow k).evaluateNode source key).bind fun w hw => ?_
    exact Operation.keeps_store hw hv
  | _ => exact .throw

end

end Evaluation

end Scriptlet
