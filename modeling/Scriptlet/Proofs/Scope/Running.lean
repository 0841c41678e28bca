import Scriptlet.Execution
import Scriptlet.Proofs.Scope.Calls

/-
  Evaluation and execution in a scope.

  Here a scope admits all faults, and a list that expressions come to may change: of what evaluation and
  execution do themselves, appending and the assignment of an item change a list, and both change one
  that an expression has come to.

  What is proved:
    1. `Evaluation.within_node`, `Evaluation.within_evaluate` — expressions stay in the scope.
    2. `Execution.within_block` — so do the lines of a block.
-/

namespace Scriptlet

open Run

variable {scope : Scope} {text : Text} {v w : Value} {limits : Limits}

/-! ## Names, attributes and methods -/

namespace Evaluation

theorem minds_lookUp (name : Text) : Minds scope text (lookUp name) := by
  refine Within.get.next fun s => ?_
  cases s.vars.find? name with
  | some v => exact .give
  | none =>
    simp only
    cases Builtin.ofName? name with
    | some f => exact .give
    | none => exact .detached rfl

theorem detached_member {m : Module} {name : Text} : Detached (m.member name) := by
  unfold Module.member
  split
  · exact .pure
  · exact .throw rfl

theorem minds_noAttribute {α : Type} {name : Text} :
    Minds scope text (do throw (← noAttribute v name) : Run α) := by
  refine .report (v.detached_kind.bind fun _ _ => .pure) fun fault h => ?_
  obtain ⟨k, -, hfault⟩ := bind_ok h
  cases hfault
  rfl

theorem minds_attributeOf (name : Text) : Minds scope text (attributeOf v name) := by
  refine Within.get.next fun s => ?_
  cases s.heap.module? v with
  | some m => exact .computed detached_member
  | none => exact minds_noAttribute

theorem detached_requireCallable : Detached (requireCallable v) := by
  unfold requireCallable
  split
  · exact .pure
  · exact (Value.detached_kind _).bind fun _ _ => .throw rfl

theorem minds_callMethod {name : Text} {arguments : Arguments}
    (hlists : ∀ r, v = .list r → scope.lists r) :
    Minds scope text (callMethod limits v name arguments) := by
  unfold callMethod
  refine (Within.computed v.detached_kind).next fun _ => ?_
  cases v with
  | list r =>
    refine .ite ?_ minds_noAttribute
    split
    · refine Within.get.next fun _ => (Within.computed detached_requireSize).next fun _ => ?_
      exact (Within.change fun _ hh => hh.modify (hlists r rfl) _).next fun _ => .give
    · exact .detached rfl
  | _ => exact minds_noAttribute

end Evaluation

/-! ## Open scopes -/

/-- A scope that admits all faults, and changes of the lists that its expressions come to. -/
structure Scope.IsOpen (scope : Scope) : Prop where
  faults : ∀ fault, scope.faults fault
  lists : ∀ r, scope.found (.list r) → scope.lists r

theorem Scope.IsOpen.raises {scope : Scope} (hopen : scope.IsOpen) {α : Type} {x : Except Fault α} :
    Raises x scope.faults := fun fault _ => hopen.faults fault

variable (hopen : scope.IsOpen)

include hopen

theorem Run.Within.lookAny {α : Type} {read : Heap → Except Fault α} :
    Minds scope text (Run.look read) := .look fun _ => hopen.raises

theorem Run.Within.liftAny {α : Type} {x : Except Fault α} : Minds scope text (liftM x : Run α) :=
  .lift hopen.raises

namespace Evaluation

variable {source : Text}

theorem minds_store {key value : Value} (hlists : ∀ r, v = .list r → scope.lists r) :
    Minds scope text (Operation.store source v key value) := by
  unfold Operation.store
  refine (Within.liftAny hopen).next fun k => ?_
  cases v with
  | list r =>
    refine (Within.liftAny hopen).next fun _ => ?_
    refine Within.next (.mapFault rfl (fun _ _ => hopen.faults _) (.liftAny hopen)) fun index => ?_
    refine Within.get.next fun s => ?_
    split
    · exact .change fun _ hh => hh.modify (hlists r rfl) _
    · exact .throw (hopen.faults _)
  | dict r =>
    exact (Within.lookAny hopen).next fun found => .change fun _ hh => hh.of_lists rfl
  | _ => exact .throw (hopen.faults _)

section

variable {below other : Nat → Engine} {n : Nat}
  (hbelow : ∀ k, Engine.Within scope text (below k) (other k))

include hbelow

/-! ## Calls -/

omit hopen in
theorem within_values (k : Nat) (items : List Expr) :
    Run.Within scope text (values (below k) source items) (values (other k) source items)
      fun _ => True :=
  Within.any (.mapM fun e => (hbelow k).evaluateNode source e)

omit hopen in
theorem within_arguments {args : List Expr} {keywords : List (Span × Text × Expr)} :
    Run.Within scope text (arguments ⟨below, n⟩ source args keywords)
      (arguments ⟨other, n⟩ source args keywords) fun _ => True := by
  refine (within_values hbelow 3 args).next fun positional => ?_
  refine (Within.foldlM fun done keyword => ?_).next fun named => .give
  exact ((hbelow 2).evaluateNode source _).any.next fun v => .give

theorem within_call {callee : Expr} {args : List Expr} {keywords : List (Span × Text × Expr)} :
    Run.Within scope text (call limits ⟨below, n⟩ source callee args keywords)
      (call limits ⟨other, n⟩ source callee args keywords) fun _ => True := by
  have hplain : Run.Within scope text
      (do
        let v ← (below 1).evaluateNode source callee
        let given ← arguments ⟨below, n⟩ source args keywords
        let f ← requireCallable v
        (below 0).call f given)
      (do
        let v ← (other 1).evaluateNode source callee
        let given ← arguments ⟨other, n⟩ source args keywords
        let f ← requireCallable v
        (other 0).call f given) fun _ => True := by
    refine ((hbelow 1).evaluateNode source callee).any.next fun v => ?_
    refine (within_arguments hbelow).next fun given => ?_
    exact (Within.liftAny hopen).next fun f => (hbelow 0).call f given
  unfold call
  refine .ite (.throwBind (hopen.faults _)) ?_
  cases callee with
  | «attribute» span target name =>
    refine ((hbelow 1).evaluateNode source target).bind fun v hv => ?_
    refine (within_arguments hbelow).next fun given => Within.get.next fun s => ?_
    cases s.heap.module? v with
    | some m =>
      exact (Within.liftAny hopen).next fun _ => (Within.liftAny hopen).next fun f =>
        (hbelow 0).call f given
    | none => exact minds_callMethod fun r hr => hopen.lists r (hr ▸ hv)
  | _ => exact hplain

/-! ## Expressions -/

omit hopen in
theorem within_bound {e : Option Expr} :
    Run.Within scope text (bound (below 1) source e) (bound (other 1) source e) fun _ => True := by
  cases e with
  | none => exact .give
  | some e => exact ((hbelow 1).evaluateNode source e).any

theorem within_comparisons {rest : List (CompareOp × Expr)} :
    Run.Within scope text (comparisons (below 1) ⟨below, n⟩ source v rest)
      (comparisons (other 1) ⟨other, n⟩ source v rest) fun _ => True := by
  induction rest generalizing v with
  | nil => exact .give
  | cons step rest ih =>
    obtain ⟨op, e⟩ := step
    refine ((hbelow 1).evaluateNode source e).any.next fun w => ?_
    exact (Within.lookAny hopen).next fun holds => .ite ih .give

theorem within_boolean {op : BoolOp} {left right : Expr} :
    Run.Within scope text (boolean (below 1) source op left right)
      (boolean (other 1) source op left right) fun _ => True := by
  refine ((hbelow 1).evaluateNode source left).any.next fun v => ?_
  refine (Within.lookAny hopen).next fun _ => ?_
  exact .ite ((hbelow 1).evaluateNode source right).any .give

theorem within_nodeValue {e : Expr} :
    Run.Within scope text (nodeValue limits ⟨below, n⟩ source e) (nodeValue limits ⟨other, n⟩ source e)
      fun _ => True := by
  have hnode : ∀ e, Run.Within scope text ((below 1).evaluateNode source e)
      ((other 1).evaluateNode source e) fun _ => True :=
    fun e => ((hbelow 1).evaluateNode source e).any
  have hvalues : ∀ items, Run.Within scope text (values (below 3) source items)
      (values (other 3) source items) fun _ => True := within_values hbelow 3
  have hfound : ∀ {x y : Run Value}, Run.Within scope text x y (fun _ => True) →
      Run.Within scope text (do return .ok (← x) : Run Found) (do return .ok (← y))
        fun _ => True := fun h => h.next fun _ => .give
  cases e with
  | literal span c => exact .give
  | name span id => exact hfound (minds_lookUp id)
  | list span items => exact (hvalues items).next fun vs => hfound (minds_newList vs)
  | tuple span items => exact (hvalues items).next fun vs => hfound (minds_newTuple vs)
  | set span items =>
    refine (hvalues items).next fun vs => (Within.lookAny hopen).next fun members => ?_
    exact hfound (.make fun _ hh => hh.of_lists rfl)
  | dict span entries =>
    refine (hvalues _).next fun ks => (hvalues _).next fun vs => ?_
    exact (Within.lookAny hopen).next fun made => hfound (.make fun _ hh => hh.of_lists rfl)
  | «attribute» span target name =>
    exact (hnode target).next fun v => hfound (minds_attributeOf name)
  | subscript span target index =>
    exact (hnode target).next fun v => (hnode index).next fun w => .lookAny hopen
  | sliced span target bounds lower upper step =>
    refine (hnode target).next fun v => (Within.liftAny hopen).next fun _ => ?_
    refine (within_bound hbelow).next fun _ => (within_bound hbelow).next fun _ => ?_
    exact (within_bound hbelow).next fun _ => hfound Operation.minds_slice
  | call span callee args keywords => exact hfound (within_call hopen hbelow)
  | unary span op operand => exact (hnode operand).next fun v => hfound Operation.minds_unary
  | binary span op left right =>
    exact (hnode left).next fun v => (hnode right).next fun w => hfound Operation.minds_binary
  | boolean span op left right => exact hfound (within_boolean hopen hbelow)
  | compare span left rest =>
    exact (hnode left).next fun v => (within_comparisons hopen hbelow).next fun b => .give

theorem within_node {e : Expr} :
    Run.Within scope text (node limits ⟨below, n⟩ source e) (node limits ⟨other, n⟩ source e)
      fun _ => True := by
  refine (Within.mapFault rfl (fun _ _ => hopen.faults _) (within_nodeValue hopen hbelow)).next
    fun found => ?_
  cases found with
  | ok v => exact .give
  | error f => exact .throw (hopen.faults _)

theorem within_evaluate :
    Run.Within scope text (evaluate ⟨below, n⟩ source) (evaluate ⟨other, n⟩ source)
      fun _ => True :=
  .mapFault rfl (fun _ _ => hopen.faults _)
    ((Within.liftAny hopen).next fun e => ((hbelow 0).evaluateNode _ e).any)

theorem within_assign {k : Nat} {target : Expr} :
    Run.Within scope text (assign (below k) source target v) (assign (other k) source target v)
      fun _ => True := by
  cases target with
  | name span id => exact minds_bind id v
  | subscript span container key =>
    refine ((hbelow k).evaluateNode source container).bind fun c hc => ?_
    refine ((hbelow k).evaluateNode source key).any.next fun w => ?_
    exact minds_store hopen fun r hr => hopen.lists r (hr ▸ hc)
  | _ => exact .throw (hopen.faults _)

end

end Evaluation

namespace Execution

/-! ## Statements -/

theorem minds_importName (line : Text) (l : Library) (name : Text) :
    Minds scope text (importName line l name) := by
  unfold importName
  refine .ite ?_ (.ite (.throw (hopen.faults _)) ?_)
  · refine Within.next (.forIn fun member _ => ?_) fun _ => .give
    exact (Within.liftAny hopen).next fun v => (minds_bind member v).next fun _ => .give
  · cases l.toModule.find? name with
    | some v => exact minds_bind name v
    | none => exact .throw (hopen.faults _)

theorem minds_loopItems {items : Text} : Minds scope text (loopItems items v) := by
  refine Within.get.next fun s => (Within.liftAny hopen).next fun _ => ?_
  cases v with
  | list r | tuple r => exact .give
  | _ => exact .throw (hopen.faults _)

theorem minds_distribute {levels count : Nat} : Minds scope text (distribute levels count v) :=
  .ite (.lookAny hopen) .give

section

variable {below other : Nat → Engine} {n : Nat}
  (hbelow : ∀ k, Engine.Within scope text (below k) (other k))

include hbelow

theorem within_bindTarget {target : Text} {isAugmented : Bool} :
    Run.Within scope text (bindTarget ⟨below, n⟩ target v isAugmented)
      (bindTarget ⟨other, n⟩ target v isAugmented) fun _ => True := by
  unfold bindTarget
  cases Evaluation.read n target with
  | error fault => cases fault <;> exact .throwBind (hopen.faults _)
  | ok e =>
    have hread : Minds scope text (pure e : Run Expr) := .give
    refine hread.next fun e => ?_
    cases e with
    | tuple span items =>
      refine .ite (.throwBind (hopen.faults _)) ((Within.lookAny hopen).next fun values => ?_)
      refine Within.next (.forIn fun p _ => ?_) fun _ => .give
      exact (Evaluation.within_assign hopen hbelow).next fun _ => .give
    | _ => exact Evaluation.within_assign hopen hbelow

theorem within_assignment {target operator expression : Text} :
    Run.Within scope text (assignment ⟨below, n⟩ target operator expression)
      (assignment ⟨other, n⟩ target operator expression) fun _ => True :=
  .ite (.throwBind (hopen.faults _))
    (((hbelow 2).evaluate _).next fun _ => within_bindTarget hopen hbelow)

theorem within_echo {source : Text} :
    Run.Within scope text (echo limits ⟨below, n⟩ source) (echo limits ⟨other, n⟩ source)
      fun _ => True :=
  ((hbelow 1).evaluate source).next fun _ =>
    .ite ((Within.lookAny hopen).next fun line => minds_write limits line) .give

theorem within_statement {line : Text} {s : Statement} :
    Run.Within scope text (statement limits ⟨below, n⟩ line s) (statement limits ⟨other, n⟩ line s)
      fun _ => True := by
  cases s with
  | pass => exact .give
  | importModule module => exact (Within.liftAny hopen).next fun l => minds_bind module _
  | importNames module names =>
    refine (Within.liftAny hopen).next fun l => Within.next (.forIn fun name _ => ?_) fun _ => .give
    exact (minds_importName hopen line l name).next fun _ => .give
  | assign target operator expression => exact within_assignment hopen hbelow
  | expression source => exact within_echo hopen hbelow

/-! ## Blocks -/

theorem within_forEach {targets : List Text} {items : Text} {body : List Text} :
    Run.Within scope text (forEach ⟨below, n⟩ targets items body)
      (forEach ⟨other, n⟩ targets items body) fun _ => True := by
  refine ((hbelow 1).evaluate items).next fun v => (minds_loopItems hopen).next fun elements => ?_
  refine Within.next (.forIn fun item _ => (minds_distribute hopen).next fun values => ?_) fun _ => .give
  refine Within.next (.forIn fun p _ => (minds_bind p.1 p.2).next fun _ => .give) fun _ => ?_
  exact ((hbelow 1).runLines body).next fun _ => .give

theorem within_holds {condition : Text} :
    Run.Within scope text (holds ⟨below, n⟩ condition) (holds ⟨other, n⟩ condition) fun _ => True :=
  ((hbelow 1).evaluate condition).next fun _ => .lookAny hopen

theorem within_whileTrue {condition : Text} {body : List Text} {times : Nat} :
    Run.Within scope text (whileTrue ⟨below, n⟩ condition body times)
      (whileTrue ⟨other, n⟩ condition body times) fun _ => True := by
  induction times with
  | zero => exact (within_holds hopen hbelow).next fun _ => .ite (.throw (hopen.faults _)) .give
  | succ times ih =>
    refine (within_holds hopen hbelow).next fun _ => .ite ?_ .give
    exact ((hbelow 1).runLines body).next fun _ => ih

theorem within_header {h : Header} {body : List Text} :
    Run.Within scope text (header ⟨below, n⟩ h body) (header ⟨other, n⟩ h body) fun _ => True := by
  cases h with
  | forEach targets items => exact within_forEach hopen hbelow
  | onlyIf condition =>
    exact (within_holds hopen hbelow).next fun _ => .ite ((hbelow 1).runLines body) .give
  | whileTrue condition => exact within_whileTrue hopen hbelow

theorem within_sequence {ls : List Text} :
    Run.Within scope text (sequence limits ⟨below, n⟩ ls) (sequence limits ⟨other, n⟩ ls)
      fun _ => True := by
  -- A header takes lines with it, so the induction is on the number of lines that are left.
  induction hlength : ls.length using Nat.strongRecOn generalizing ls with
  | ind length ih =>
    subst hlength
    cases ls with
    | nil =>
      unfold sequence
      exact .give
    | cons line rest =>
      unfold sequence
      refine (Within.liftAny hopen).next fun l => ?_
      cases l with
      | statement s => exact (within_statement hopen hbelow).next fun _ => ih rest.length (by simp) rfl
      | header h =>
        exact (within_header hopen hbelow).next fun _ => ih _ (length_drop_lt line rest _) rfl

theorem within_block {ls : List Text} :
    Run.Within scope text (block limits ⟨below, n⟩ ls) (block limits ⟨other, n⟩ ls)
      fun _ => True := by
  refine Within.next (.modify fun _ => rfl) fun _ => .thenAlways (fun _ => rfl) ?_
  exact Within.get.next fun s => .ite (.throwBind (hopen.faults _)) (within_sequence hopen hbelow)

end

end Execution

end Scriptlet
