import Scriptlet.Evaluation
import Scriptlet.Proofs.Caps.Calls
import Scriptlet.Proofs.Kinds.Evaluation

/-
  Evaluation within a cap.

  What is proved:
    1. `follows_node` — the value of an expression fits the cap, unless the cap leaves the expression
       open; the values of its parts fit in either case.
    2. `follows_evaluate` — so does the value of a text.
    3. `follows_assign` — what is assigned leaves a state that fits loosely.
-/

namespace Scriptlet

namespace Evaluation

open Run

variable {cap : Cap} {text source : Text} {v w : Value} {limits : Limits}

/-! ## Names and attributes -/

theorem stays_lookUp (name : Text) : Stays cap true text (lookUp name) (Value.Fits cap) := by
  unfold lookUp
  refine Follows.get.bind fun s hs => ?_
  cases hv : s.vars.find? name with
  | some v => exact .pure (hs.find? hv)
  | none =>
    simp only
    cases Builtin.ofName? name with
    | some f => exact .pure trivial
    | none => exact .throw

/-- One more element fits, or it is refused. -/
theorem stays_callMethod {name : Text} {arguments : Arguments} (hcap : cap.IsOf limits)
    (harguments : arguments.Fit cap) :
    Stays cap true text (callMethod limits v name arguments) (Value.Fits cap) := by
  unfold callMethod
  refine Follows.liftAny.bind fun _ _ => ?_
  cases v with
  | list r =>
    refine .ite (fun _ => ?_) fun _ => Follows.liftAny.bind fun _ _ => .throw
    split
    · rename_i v hpositional _
      have hv : v.Fits cap :=
        harguments.positional v (by rw [hpositional]; exact List.mem_cons_self)
      refine .of fun s hs => ?_
      rw [bind_apply, get_apply]
      simp only
      rw [bind_apply, liftM_apply]
      cases hsize : requireSize limits ((s.heap.list r).size + 1) with
      | error fault => exact hs
      | ok u =>
        exact ⟨⟨hs.vars, hs.heap.pushList r hv (gives_requireSize hcap _ u hsize)⟩, trivial⟩
    · exact .throw
  | _ => exact Follows.liftAny.bind fun _ _ => .throw

section

variable {below other : Nat → Engine} {n : Nat}
  (hbelow : ∀ k, Engine.Follows cap text (below k) (other k))

include hbelow

/-! ## Arguments -/

theorem follows_values (k : Nat) (items : List Expr) :
    Run.Follows cap true text (values (below k) source items) (values (other k) source items)
      fun vs => vs.length = items.length ∧ ∀ v ∈ vs, v.Fits cap :=
  Follows.mapM fun e _ => ((hbelow k).evaluateNode source e).follows

theorem follows_arguments {args : List Expr} {keywords : List (Span × Text × Expr)} :
    Run.Follows cap true text (arguments ⟨below, n⟩ source args keywords)
      (arguments ⟨other, n⟩ source args keywords) (Arguments.Fit cap) := by
  refine (follows_values hbelow 3 args).bind fun positional ⟨_, hpositional⟩ => ?_
  have hnothing : ∀ p ∈ ([] : List (Text × Value)), p.2.Fits cap :=
    fun p hp => absurd hp List.not_mem_nil
  refine (Follows.foldlM hnothing fun keyword _ done hdone => ?_).bind fun named hnamed =>
    .pure ⟨hpositional, hnamed⟩
  refine ((hbelow 2).evaluateNode source _).follows.bind fun v hv => .pure fun p hp => ?_
  rcases mem_putKeyword hp with h | hp
  · rw [h]
    exact hv
  · exact hdone p hp

theorem follows_call {callee : Expr} {args : List Expr} {keywords : List (Span × Text × Expr)}
    (hcap : cap.IsOf limits) :
    Run.Follows cap true text (call limits ⟨below, n⟩ source callee args keywords)
      (call limits ⟨other, n⟩ source callee args keywords) (Value.Fits cap) := by
  have hplain : Run.Follows cap true text
      (do
        let v ← (below 1).evaluateNode source callee
        let given ← arguments ⟨below, n⟩ source args keywords
        let f ← requireCallable v
        (below 0).call f given)
      (do
        let v ← (other 1).evaluateNode source callee
        let given ← arguments ⟨other, n⟩ source args keywords
        let f ← requireCallable v
        (other 0).call f given) (Value.Fits cap) := by
    refine ((hbelow 1).evaluateNode source callee).follows.bind fun v _ => ?_
    refine (follows_arguments hbelow).bind fun given hgiven => ?_
    exact Follows.liftAny.bind fun f _ => ((hbelow 0).call f hgiven).follows
  unfold call
  refine .ite (fun _ => .throwBind) fun _ => ?_
  cases callee with
  | «attribute» span target name =>
    refine ((hbelow 1).evaluateNode source target).follows.bind fun v _ => ?_
    refine (follows_arguments hbelow).bind fun given hgiven => Follows.get.bind fun s _ => ?_
    cases s.heap.module? v with
    | some m =>
      exact Follows.liftAny.bind fun _ _ => Follows.liftAny.bind fun f _ =>
        ((hbelow 0).call f hgiven).follows
    | none => exact stays_callMethod hcap hgiven
  | _ => exact hplain

/-! ## Expressions -/

theorem follows_bound {e : Option Expr} :
    Run.Follows cap true text (bound (below 1) source e) (bound (other 1) source e)
      (Value.Fits cap) := by
  cases e with
  | none => exact .pure trivial
  | some e => exact ((hbelow 1).evaluateNode source e).follows

theorem follows_comparisons {rest : List (CompareOp × Expr)} :
    Run.Follows cap true text (comparisons (below 1) ⟨below, n⟩ source v rest)
      (comparisons (other 1) ⟨other, n⟩ source v rest) fun _ => True := by
  induction rest generalizing v with
  | nil => exact .pure trivial
  | cons step rest ih =>
    obtain ⟨op, e⟩ := step
    unfold comparisons
    refine ((hbelow 1).evaluateNode source e).follows.bind fun w _ => ?_
    refine Follows.lookAny.bind fun holds _ => ?_
    exact .ite (fun _ => ih) fun _ => .pure trivial

theorem follows_boolean {op : BoolOp} {left right : Expr} :
    Run.Follows cap true text (boolean (below 1) source op left right)
      (boolean (other 1) source op left right) (Value.Fits cap) := by
  refine ((hbelow 1).evaluateNode source left).follows.bind fun v hv => ?_
  refine Follows.lookAny.bind fun _ _ => ?_
  exact .ite (fun _ => ((hbelow 1).evaluateNode source right).follows) fun _ => .pure hv

/-- What is found fits the cap, if it is a value. -/
def FoundFits (cap : Cap) (found : Found) : Prop := ∀ v, found = .ok v → v.Fits cap

omit hbelow in
theorem follows_found {x y : Run Value} (h : Run.Follows cap true text x y (Value.Fits cap)) :
    Run.Follows cap true text (do return .ok (← x) : Run Found) (do return .ok (← y))
      (FoundFits cap) := by
  refine h.bind fun v hv => .pure fun w hw => ?_
  cases hw
  exact hv

omit hbelow in
/-- A literal fits, unless it is longer than a source. -/
theorem constant_fits {span : Span} {c : Literal} (hcap : cap.IsOf limits)
    (hclosed : ¬ Job.IsOpen limits (.node (.literal span c)) cap) : (constant c).Fits cap := by
  cases c with
  | int n =>
    refine Job.admitsInt_of_closed hclosed fun hn => ?_
    exact Nat.le_of_not_lt fun h => hn (hcap.admitsInt_of_source h)
  | text t =>
    refine Job.admitsSize_of_closed hclosed fun hn => ?_
    exact Int.not_le.mp fun h => hn (hcap.admitsSize_of_source h)
  | _ => trivial

/-- The value of an expression that the cap does not leave open. -/
theorem follows_nodeValue {e : Expr} (hcap : cap.IsOf limits)
    (hclosed : ¬ Job.IsOpen limits (.node e) cap) :
    Run.Follows cap true text (nodeValue limits ⟨below, n⟩ source e)
      (nodeValue limits ⟨other, n⟩ source e) (FoundFits cap) := by
  have hnode : ∀ k e, Run.Follows cap true text ((below k).evaluateNode source e)
      ((other k).evaluateNode source e) (Value.Fits cap) :=
    fun k e => ((hbelow k).evaluateNode source e).follows
  have hvalues : ∀ items, Run.Follows cap true text (values (below 3) source items)
      (values (other 3) source items) fun vs => vs.length = items.length ∧ ∀ v ∈ vs, v.Fits cap :=
    fun items => follows_values hbelow 3 items
  -- A display that is no longer than a source fits.
  have hsize : ∀ count : Nat, (limits.maxSourceLength < count → Job.MakesSize limits (.node e)) →
      cap.AdmitsSize count := fun count h => Job.admitsSize_of_closed hclosed fun hn =>
    h (Int.not_le.mp fun hle => hn (hcap.admitsSize_of_source hle))
  cases e with
  | literal span c =>
    refine .pure fun v hv => ?_
    cases hv
    exact constant_fits hcap hclosed
  | name span id => exact follows_found (stays_lookUp id)
  | list span items =>
    refine (hvalues items).bind fun vs ⟨hlength, hvs⟩ => follows_found (stays_newList ⟨?_, hvs⟩)
    exact hlength ▸ hsize items.length fun h => h
  | tuple span items =>
    refine (hvalues items).bind fun vs ⟨hlength, hvs⟩ => follows_found (stays_newTuple ⟨?_, hvs⟩)
    exact hlength ▸ hsize items.length fun h => h
  | set span items =>
    refine (hvalues items).bind fun vs ⟨hlength, hvs⟩ => ?_
    have hall : Value.AllFit cap vs := ⟨hlength ▸ hsize items.length fun h => h, hvs⟩
    refine (Follows.look fun h _ => Heap.membersOf_allFit "set display" hall).bind fun ms hms => ?_
    exact follows_found (.make fun h hh => hh.newSet hms)
  | dict span entries =>
    refine (hvalues _).bind fun ks ⟨hlength, hks⟩ => (hvalues _).bind fun vs ⟨_, hvs⟩ => ?_
    refine (Follows.look fun h _ => @Entry.gives_allFit cap _ _ _ fun p hp done hdone => ?_).bind
      fun made hmade => ?_
    · obtain ⟨hk, hv⟩ := List.of_mem_zip hp
      exact Gives.any.bind fun key _ =>
        .pure ⟨Entry.size_put_le _ _ _ _, hdone.put (hks _ hk) (hvs _ hv)⟩
    · refine follows_found (.make fun h hh => hh.newDict hmade.2 ?_)
      refine (hsize entries.length fun h => h).mono (Nat.le_trans hmade.1 ?_)
      rw [List.length_zip, hlength, List.length_map]
      exact Nat.min_le_left _ _
  | «attribute» span target name =>
    -- Members may be integers as well as texts, so that every cap leaves them open.
    cases cap with
    | bits most => exact absurd trivial hclosed
    | size most => exact absurd trivial hclosed
  | subscript span target index =>
    refine (hnode 1 target).bind fun v hv => (hnode 1 index).bind fun w _ => ?_
    exact .look fun h hh => hh.lookUp hcap hv n
  | sliced span target bounds lower upper step =>
    refine (hnode 1 target).bind fun v hv => Follows.liftAny.bind fun _ _ => ?_
    refine (follows_bound hbelow).bind fun _ _ => (follows_bound hbelow).bind fun _ _ => ?_
    exact (follows_bound hbelow).bind fun _ _ => follows_found (Operation.stays_slice hv)
  | call span callee args keywords => exact follows_found (follows_call hbelow hcap)
  | unary span op operand =>
    exact (hnode 1 operand).bind fun v hv => follows_found (Operation.stays_unary hcap op hv)
  | binary span op left right =>
    refine (hnode 1 left).bind fun v hv => (hnode 1 right).bind fun w hw => ?_
    refine follows_found (Operation.stays_binary hcap op hv hw fun hop k => ?_)
    refine Job.admitsInt_of_closed hclosed fun _ => ?_
    rcases hop with rfl | rfl <;> trivial
  | boolean span op left right => exact follows_found (follows_boolean hbelow)
  | compare span left rest =>
    refine (hnode 1 left).bind fun v _ => (follows_comparisons hbelow).bind fun b _ => ?_
    refine .pure fun w hw => ?_
    cases hw
    trivial

/-- The value of an expression that the cap leaves open: its parts fit, and it is the same. -/
theorem agrees_nodeValue {e : Expr} (hopen : Job.IsOpen limits (.node e) cap) :
    Run.Agrees cap true text (nodeValue limits ⟨below, n⟩ source e)
      (nodeValue limits ⟨other, n⟩ source e) := by
  have hvalues : ∀ items, Run.Follows cap true text (values (below 3) source items)
      (values (other 3) source items) fun vs => vs.length = items.length ∧ ∀ v ∈ vs, v.Fits cap :=
    fun items => follows_values hbelow 3 items
  cases e with
  | literal span c => exact .same
  | list span items | tuple span items | set span items =>
    exact (hvalues items).bindAgrees fun _ _ => .same
  | dict span entries =>
    exact (hvalues _).bindAgrees fun _ _ => (hvalues _).bindAgrees fun _ _ => .same
  | «attribute» span target name =>
    exact ((hbelow 1).evaluateNode source target).follows.bindAgrees fun _ _ => .same
  | binary span op left right =>
    refine ((hbelow 1).evaluateNode source left).follows.bindAgrees fun _ _ => ?_
    exact ((hbelow 1).evaluateNode source right).follows.bindAgrees fun _ _ => .same
  | _ => cases cap <;> cases hopen

theorem follows_node {e : Expr} (hcap : cap.IsOf limits)
    (hclosed : ¬ Job.IsOpen limits (.node e) cap) :
    Run.Follows cap true text (node limits ⟨below, n⟩ source e) (node limits ⟨other, n⟩ source e)
      (Value.Fits cap) := by
  refine (Follows.mapFault rfl (follows_nodeValue hbelow hcap hclosed)).bind fun found hfound => ?_
  cases found with
  | ok v => exact .pure (hfound v rfl)
  | error f => exact .throw

theorem agrees_node {e : Expr} (hopen : Job.IsOpen limits (.node e) cap) :
    Run.Agrees cap true text (node limits ⟨below, n⟩ source e) (node limits ⟨other, n⟩ source e) :=
  (Agrees.mapFault rfl (agrees_nodeValue hbelow hopen)).bindSame

theorem follows_evaluate :
    Run.Follows cap true text (evaluate ⟨below, n⟩ source) (evaluate ⟨other, n⟩ source)
      (Value.Fits cap) := by
  refine .mapFault rfl ?_
  exact Follows.liftAny.bind fun e _ => ((hbelow 0).evaluateNode _ e).follows

theorem follows_assign {k : Nat} {target : Expr} (hv : v.Fits cap) :
    Run.Follows cap false text (assign (below k) source target v) (assign (other k) source target v)
      fun _ => True := by
  cases target with
  | name span id => exact stays_bind id (.inl hv)
  | subscript span container key =>
    refine ((hbelow k).evaluateNode source container).follows.bind fun c _ => ?_
    refine ((hbelow k).evaluateNode source key).follows.bind fun w hw => ?_
    exact Operation.stays_store hw hv
  | _ => exact .throw

end

end Evaluation

end Scriptlet
