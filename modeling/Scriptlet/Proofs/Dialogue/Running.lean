import Scriptlet.Proofs.Dialogue

/-
  Evaluation is a dialogue with execution.

  `Engine.asking limits answer` are the engines of a run in which `answer` executes all lines. Calls and
  evaluation come back to the engines below them, so they converse if those do; by induction on the
  levels all engines converse. Only the functions that are given a room are gone through: what the
  others do needs no answers.

  What is proved:
    1. `Engine.asking_converses` — what an asking engine does is a dialogue.
    2. `Engine.asking_tower` — asking engines whose answers are those of the run are the engines of the
       run.
-/

namespace Scriptlet

open Run

/-- All that the engine does is a dialogue with who executes lines. -/
structure Engine.Converses (engine : Reentry → Engine) : Prop where
  evaluate : ∀ source, Run.Converses fun answer => (engine answer).evaluate source
  evaluateNode : ∀ source e, Run.Converses fun answer => (engine answer).evaluateNode source e
  runLines : ∀ ls, Run.Converses fun answer => (engine answer).runLines ls
  call : ∀ f arguments, Run.Converses fun answer => (engine answer).call f arguments

section

variable {below : Reentry → Nat → Engine} {levels : Nat} {v w : Value}
  (hbelow : ∀ k, Engine.Converses fun answer => below answer k)

/-! ## Calls -/

namespace Traversal

include hbelow

theorem converses_sortedBy (chosen : Option Function) :
    Run.Converses fun answer => sortedBy (below answer 1) levels v w chosen := by
  unfold sortedBy
  refine Converses.look.bind fun values => Converses.look.bind fun backwards => ?_
  refine (Converses.mapM fun u => ?_).bind fun keyed => Converses.look.bind fun pairs => .newList
  cases chosen with
  | none => exact .pure _
  | some f => exact ((hbelow 1).call f _).bind fun _ => .pure _

theorem converses_sorted {key : Value} :
    Run.Converses fun answer => sorted ⟨below answer, levels⟩ v w key := by
  by_cases hkey : key = .none
  · simp only [hkey, sorted_none]
    exact converses_sortedBy hbelow none
  · simp only [sorted_keyed hkey]
    exact Converses.lift.bind fun f => converses_sortedBy hbelow (some f)

theorem converses_filter : Run.Converses fun answer => filter ⟨below answer, levels⟩ v w := by
  refine Converses.look.bind fun values => ?_
  cases v with
  | none => exact (Converses.filterM fun u => .look).bind fun kept => .newList
  | _ =>
    refine Converses.lift.bind fun f => (Converses.filterM fun u => ?_).bind fun kept => .newList
    exact ((hbelow 2).call f _).bind fun _ => .look

theorem converses_map {collections : List Value} :
    Run.Converses fun answer => map ⟨below answer, levels⟩ v collections := by
  refine Converses.lift.bind fun f => .ite .throwBind (Converses.look.bind fun columns => ?_)
  exact (Converses.mapM fun row => (hbelow 2).call f _).bind fun results => .newList

end Traversal

namespace Call

variable {limits : Limits}

include hbelow

theorem converses_builtin {b : Bound} (f : Builtin) :
    Run.Converses fun answer => builtin limits ⟨below answer, levels⟩ f b := by
  -- What executes nothing does the same whatever engine is below it.
  have hidle : Run.Acts limits anyName (builtin limits ⟨Engine.tower limits 0, levels⟩ f b) :=
    acts_builtin (Engine.tower_acts binds_anyName 0) f
  cases f with
  | sorted => exact Traversal.converses_sorted hbelow
  | filter => exact Traversal.converses_filter hbelow
  | map => exact Traversal.converses_map hbelow
  | eval => exact Converses.lift.bind fun _ => (hbelow 2).evaluate _
  | exec => exact Converses.lift.bind fun _ => ((hbelow 3).runLines _).bind fun _ => .pure _
  | _ => exact .acts limits hidle

theorem converses_function (f : Function) (arguments : Arguments) :
    Run.Converses fun answer => function limits ⟨below answer, levels⟩ f arguments := by
  have hidle : Run.Acts limits anyName (function limits ⟨Engine.tower limits 0, levels⟩ f arguments) :=
    acts_function (Engine.tower_acts binds_anyName 0) f arguments
  cases f with
  | builtin f => exact Converses.lift.bind fun b => converses_builtin hbelow f
  | library f => exact .acts limits hidle
  | method owner m => exact .acts limits hidle

end Call

/-! ## Expressions -/

namespace Evaluation

variable {limits : Limits} {source : Text}

include hbelow

theorem converses_values (k : Nat) (items : List Expr) :
    Run.Converses fun answer => values (below answer k) source items :=
  Converses.mapM fun e => (hbelow k).evaluateNode source e

theorem converses_arguments {args : List Expr} {keywords : List (Span × Text × Expr)} :
    Run.Converses fun answer => arguments ⟨below answer, levels⟩ source args keywords := by
  refine (converses_values hbelow 3 args).bind fun positional => ?_
  refine (Converses.foldlM fun done keyword => ?_).bind fun named => .pure _
  exact ((hbelow 2).evaluateNode source _).bind fun v => .pure _

theorem converses_call {callee : Expr} {args : List Expr} {keywords : List (Span × Text × Expr)} :
    Run.Converses fun answer => call limits ⟨below answer, levels⟩ source callee args keywords := by
  have hplain : Run.Converses fun answer => (do
      let v ← (below answer 1).evaluateNode source callee
      let given ← arguments ⟨below answer, levels⟩ source args keywords
      let f ← requireCallable v
      (below answer 0).call f given : Run Value) := by
    refine ((hbelow 1).evaluateNode source callee).bind fun v => ?_
    refine (converses_arguments hbelow).bind fun given => ?_
    exact Converses.lift.bind fun f => (hbelow 0).call f given
  refine .ite .throwBind ?_
  cases callee with
  | «attribute» span target name =>
    refine ((hbelow 1).evaluateNode source target).bind fun v => ?_
    refine (converses_arguments hbelow).bind fun given => Converses.get.bind fun s => ?_
    cases s.heap.module? v with
    | some m => exact Converses.lift.bind fun _ => Converses.lift.bind fun f => (hbelow 0).call f given
    | none => exact .acts limits acts_callMethod
  | _ => exact hplain

theorem converses_bound {e : Option Expr} :
    Run.Converses fun answer => bound (below answer 1) source e := by
  cases e with
  | none => exact .pure _
  | some e => exact (hbelow 1).evaluateNode source e

theorem converses_comparisons {rest : List (CompareOp × Expr)} :
    Run.Converses fun answer =>
      comparisons (below answer 1) ⟨below answer, levels⟩ source v rest := by
  induction rest generalizing v with
  | nil => exact .pure _
  | cons step rest ih =>
    obtain ⟨op, e⟩ := step
    have hholds : ∀ w, Run.Converses fun _ =>
        Run.look fun h => Operation.compare h levels op v w := fun w => .look
    refine ((hbelow 1).evaluateNode source e).bind fun w => (hholds w).bind fun holds => ?_
    exact .ite ih (.pure _)

theorem converses_boolean {op : BoolOp} {left right : Expr} :
    Run.Converses fun answer => boolean (below answer 1) source op left right := by
  refine ((hbelow 1).evaluateNode source left).bind fun v => Converses.look.bind fun _ => ?_
  exact .ite ((hbelow 1).evaluateNode source right) (.pure _)

theorem converses_nodeValue (e : Expr) :
    Run.Converses fun answer => nodeValue limits ⟨below answer, levels⟩ source e := by
  have hnode : ∀ k e, Run.Converses fun answer => (below answer k).evaluateNode source e :=
    fun k e => (hbelow k).evaluateNode source e
  have hvalues : ∀ items, Run.Converses fun answer => values (below answer 3) source items :=
    converses_values hbelow 3
  have hfound : ∀ {x : Reentry → Run Value}, Run.Converses x →
      Run.Converses fun answer => (do return .ok (← x answer) : Run Found) :=
    fun hx => hx.bind fun v => .pure _
  have hacts : ∀ {x : Run Value}, Run.Acts limits anyName x →
      Run.Converses fun _ => (do return .ok (← x) : Run Found) :=
    fun hx => .acts limits (hx.bind fun v => .pure _)
  cases e with
  | literal span c => exact .pure _
  | name span id => exact hacts (acts_lookUp id)
  | list span items => exact (hvalues items).bind fun vs => hacts .newList
  | tuple span items => exact (hvalues items).bind fun vs => hacts .newTuple
  | set span items => exact (hvalues items).bind fun vs => .acts limits (acts_setDisplay vs)
  | dict span entries =>
    refine (hvalues _).bind fun ks => (hvalues _).bind fun vs => ?_
    exact .acts limits (acts_dictDisplay (ks.zip vs))
  | «attribute» span target name =>
    exact (hnode 1 target).bind fun v => hacts (acts_attributeOf name)
  | subscript span target index =>
    have hfind : ∀ v w, Run.Converses fun _ => Run.look fun h => h.lookUp levels v w :=
      fun v w => .look
    exact (hnode 1 target).bind fun v => (hnode 1 index).bind fun w => hfind v w
  | sliced span target bounds lower upper step =>
    refine (hnode 1 target).bind fun v => Converses.lift.bind fun _ => ?_
    refine (converses_bound hbelow).bind fun _ => (converses_bound hbelow).bind fun _ => ?_
    exact (converses_bound hbelow).bind fun _ => hacts Operation.acts_slice
  | call span callee args keywords => exact hfound (converses_call hbelow)
  | unary span op operand =>
    exact (hnode 1 operand).bind fun v => hacts (Operation.acts_unary op)
  | binary span op left right =>
    refine (hnode 1 left).bind fun v => (hnode 1 right).bind fun w => ?_
    exact hacts (Operation.acts_binary op)
  | boolean span op left right => exact hfound (converses_boolean hbelow)
  | compare span left rest =>
    exact (hnode 1 left).bind fun v => (converses_comparisons hbelow).bind fun b => .pure _

theorem converses_node (e : Expr) :
    Run.Converses fun answer => node limits ⟨below answer, levels⟩ source e := by
  refine (Converses.mapFault (converses_nodeValue hbelow e)).bind fun found => ?_
  cases found with
  | ok v => exact .pure _
  | error f => exact .throw

theorem converses_evaluate :
    Run.Converses fun answer => evaluate ⟨below answer, levels⟩ source := by
  have hread : Run.Converses fun _ => (liftM (read levels source.trim) : Run Expr) := .lift
  exact .mapFault (hread.bind fun e => (hbelow 0).evaluateNode _ e)

theorem converses_assign {k : Nat} {target : Expr} :
    Run.Converses fun answer => assign (below answer k) source target v := by
  cases target with
  | name span id => exact .acts .standard (.binds trivial)
  | subscript span container key =>
    refine ((hbelow k).evaluateNode source container).bind fun c => ?_
    refine ((hbelow k).evaluateNode source key).bind fun w => ?_
    exact .acts .standard Operation.acts_store
  | _ => exact .throw

end Evaluation

/-! ## Statements -/

namespace Execution

variable {limits : Limits}

include hbelow

theorem converses_bindTarget {target : Text} {isAugmented : Bool} :
    Run.Converses fun answer => bindTarget ⟨below answer, levels⟩ target v isAugmented := by
  unfold bindTarget
  dsimp only
  cases Evaluation.read levels target with
  | error fault => cases fault <;> exact .throwBind
  | ok e =>
    refine (Converses.pure e).bind fun e => ?_
    cases e with
    | tuple span items =>
      have hunpack : Run.Converses fun _ =>
          Run.look fun h => h.unpack (levels / 2) v items.length := .look
      refine .ite .throwBind (hunpack.bind fun values => ?_)
      refine Converses.bind (.forIn fun p _ => ?_) fun _ => .pure _
      exact (Evaluation.converses_assign hbelow).bind fun _ => .pure _
    | _ => exact Evaluation.converses_assign hbelow

theorem converses_assignment {target operator expression : Text} :
    Run.Converses fun answer =>
      assignment ⟨below answer, levels⟩ target operator expression :=
  .ite .throwBind (((hbelow 2).evaluate _).bind fun _ => converses_bindTarget hbelow)

theorem converses_echo {line : Text} :
    Run.Converses fun answer => echo limits ⟨below answer, levels⟩ line := by
  have hshown : ∀ v, Run.Converses fun _ => (do
      Run.write limits (← Run.look fun h => h.format (levels / 2) v) : Run Unit) :=
    fun v => Converses.look.bind fun _ => .acts limits .write
  exact ((hbelow 1).evaluate line).bind fun v => .ite (hshown v) (.pure _)

theorem converses_statement {line : Text} (s : Statement) :
    Run.Converses fun answer => statement limits ⟨below answer, levels⟩ line s := by
  have hidle : Run.Acts limits anyName (statement limits ⟨Engine.tower limits 0, levels⟩ line s) :=
    acts_statement (Engine.tower_acts binds_anyName 0) binds_anyName s
  cases s with
  | assign target operator expression => exact converses_assignment hbelow
  | expression source => exact converses_echo hbelow
  | _ => exact .acts limits hidle

theorem converses_holds {condition : Text} :
    Run.Converses fun answer => holds ⟨below answer, levels⟩ condition :=
  ((hbelow 1).evaluate condition).bind fun _ => .look

end Execution

end

/-! ## Engines -/

namespace Engine

/-- The engine with room for so many levels, less the levels further down, in which `answer` executes
all lines. -/
def asking (limits : Limits) (answer : Reentry) : Nat → Nat → Engine
  | 0, _ => { exhausted with runLines := answer 0 }
  | levels + 1, 0 =>
    { step limits ⟨asking limits answer levels, levels⟩ with runLines := answer (levels + 1) }
  | levels + 1, further + 1 => asking limits answer levels further

/-- What is run with so many levels below it when `answer` executes all lines. -/
def askingRoom (limits : Limits) (answer : Reentry) (levels : Nat) : Room :=
  ⟨asking limits answer levels, levels⟩

/-- The answers of the run itself. -/
def reentry (limits : Limits) : Reentry := fun levels => (tower limits levels 0).runLines

theorem asking_converses (limits : Limits) (levels further : Nat) :
    Engine.Converses fun answer => asking limits answer levels further := by
  induction levels generalizing further with
  | zero => exact ⟨fun _ => .throw, fun _ _ => .throw, fun ls => .asks 0 ls, fun _ _ => .throw⟩
  | succ levels ih =>
    cases further with
    | zero =>
      exact ⟨fun _ => Evaluation.converses_evaluate ih, fun _ => Evaluation.converses_node ih,
        fun ls => .asks (levels + 1) ls, Call.converses_function ih⟩
    | succ further => exact ih further

/-- Asking engines that the run answers are the engines of the run. -/
theorem asking_tower (limits : Limits) (levels further : Nat) :
    asking limits (reentry limits) levels further = tower limits levels further := by
  induction levels generalizing further with
  | zero => rfl
  | succ levels ih =>
    cases further with
    | zero =>
      have hbelow : asking limits (reentry limits) levels = tower limits levels := funext ih
      simp only [asking, hbelow]
      rfl
    | succ further => exact ih further

theorem askingRoom_tower (limits : Limits) (levels : Nat) :
    askingRoom limits (reentry limits) levels = room limits levels := by
  unfold askingRoom room
  rw [show asking limits (reentry limits) levels = tower limits levels from
    funext (asking_tower limits levels)]

end Engine

end Scriptlet
