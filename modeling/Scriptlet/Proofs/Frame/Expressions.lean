import Scriptlet.Proofs.Attachment.Whole
import Scriptlet.Proofs.Effects.Running
import Scriptlet.Proofs.Frame

/-
  What expressions may change.

  An expression without calls makes objects at most. With calls an expression may change lists and
  mappings, write and draw, but variables are bound by statements only, and the one function by which an
  expression comes to statements is the one that executes texts. That an evaluation does not come to it is
  said by an alarm in its place: nothing in an expression catches an error, so the alarm would be seen.

  What is proved:
    1. `Engine.tower_grows` — expressions without calls make objects at most, by induction on the levels
       below them.
    2. `Engine.barredTower_acts` — with the alarm nothing is bound, by the effects of all functions.
    3. `Evaluation.frame` — both for all expressions and texts, from all states, however they end.
-/

namespace Scriptlet

/-! ## Expressions without calls -/

/-- No node of the expression is a call. -/
def Expr.IsCallFree (e : Expr) : Prop := ∀ n, e.HasNode n → n.isCall = false

theorem Expr.IsCallFree.child {e child : Expr} (h : e.IsCallFree) (hchild : child ∈ e.children) :
    child.IsCallFree :=
  fun n hn => h n (.inside hchild hn)

/-- The engine makes objects at most where it evaluates an expression without calls. -/
def Engine.GrowsWithoutCalls (engine : Engine) : Prop :=
  ∀ text (e : Expr), e.IsCallFree → Run.Grows (engine.evaluateNode text e)

namespace Evaluation

open Run (Grows)

variable {limits : Limits} {room : Room} {text : Text} {e : Expr}

theorem grows_lookUp (name : Text) : Grows (lookUp name) := by
  unfold lookUp
  refine Grows.get.bind fun s => ?_
  split
  · exact .pure
  · split
    · exact .pure
    · exact .throw

theorem grows_attributeOf {v : Value} (name : Text) : Grows (attributeOf v name) := by
  unfold attributeOf
  refine Grows.get.bind fun s => ?_
  split
  · exact .lift
  · exact Grows.lift.bind fun _ => .throw

section

variable (hbelow : ∀ k, (room.below k).GrowsWithoutCalls)

include hbelow

theorem grows_values (k : Nat) {items : List Expr} (hitems : ∀ item ∈ items, item.IsCallFree) :
    Grows (values (room.below k) text items) :=
  .mapM fun item hitem => hbelow k text item (hitems item hitem)

theorem grows_bound {bound? : Option Expr} (hbound : ∀ e ∈ bound?, e.IsCallFree) :
    Grows (bound (room.below 1) text bound?) := by
  cases bound? with
  | none => exact .pure
  | some e => exact hbelow 1 text e (hbound e rfl)

theorem grows_comparisons {v : Value} {rest : List (CompareOp × Expr)}
    (hrest : ∀ step ∈ rest, step.2.IsCallFree) :
    Grows (comparisons (room.below 1) room text v rest) := by
  induction rest generalizing v with
  | nil => exact .pure
  | cons step rest ih =>
    obtain ⟨op, e⟩ := step
    refine (hbelow 1 text e (hrest _ List.mem_cons_self)).bind fun w => Grows.look.bind fun holds => ?_
    exact .ite (ih fun step hstep => hrest step (List.mem_cons_of_mem _ hstep)) .pure

theorem grows_boolean {op : BoolOp} {left right : Expr} (hleft : left.IsCallFree)
    (hright : right.IsCallFree) : Grows (boolean (room.below 1) text op left right) := by
  refine (hbelow 1 text left hleft).bind fun v => Grows.look.bind fun _ => ?_
  exact .ite (hbelow 1 text right hright) .pure

/-- One case for each kind of node: all that it evaluates are children, which have no calls either. -/
theorem grows_nodeValue (he : e.IsCallFree) : Grows (nodeValue limits room text e) := by
  have hnode : ∀ child ∈ e.children, Grows ((room.below 1).evaluateNode text child) :=
    fun child hchild => hbelow 1 text child (he.child hchild)
  have hfound : ∀ {x : Run Value}, Grows x → Grows (do return .ok (← x) : Run Found) :=
    fun hx => hx.bind fun v => .pure
  cases e with
  | literal span c => exact .pure
  | name span id => exact hfound (grows_lookUp id)
  | list span items =>
    exact (grows_values hbelow 3 fun _ h => he.child h).bind fun vs => hfound .newList
  | tuple span items =>
    exact (grows_values hbelow 3 fun _ h => he.child h).bind fun vs => hfound .newTuple
  | set span items =>
    refine (grows_values hbelow 3 fun _ h => he.child h).bind fun vs => Grows.look.bind fun members => ?_
    exact hfound .newSet
  | dict span entries =>
    have hentry : ∀ entry ∈ entries, entry.1.IsCallFree ∧ entry.2.IsCallFree := fun entry h =>
      ⟨he.child (List.mem_flatMap.mpr ⟨entry, h, List.mem_cons_self⟩),
        he.child (List.mem_flatMap.mpr ⟨entry, h, List.mem_cons_of_mem _ List.mem_cons_self⟩)⟩
    have hkeys : ∀ key ∈ entries.map (·.1), key.IsCallFree :=
      List.forall_mem_map.mpr fun entry h => (hentry entry h).1
    have hvalues : ∀ value ∈ entries.map (·.2), value.IsCallFree :=
      List.forall_mem_map.mpr fun entry h => (hentry entry h).2
    refine (grows_values hbelow 3 hkeys).bind fun ks => (grows_values hbelow 3 hvalues).bind fun vs => ?_
    exact Grows.look.bind fun made => hfound .newDict
  | «attribute» span target name =>
    exact (hnode target List.mem_cons_self).bind fun v => hfound (grows_attributeOf name)
  | subscript span target index =>
    refine (hnode target List.mem_cons_self).bind fun v => ?_
    exact (hnode index (List.mem_cons_of_mem _ List.mem_cons_self)).bind fun w => .look
  | sliced span target bounds lower upper step =>
    have hbounds : ∀ b ∈ [lower, upper, step], ∀ e ∈ b, e.IsCallFree := by
      intro b hb e hmem
      refine he.child (List.mem_cons_of_mem _ ?_)
      simp only [List.mem_cons, List.not_mem_nil, or_false] at hb
      rcases hb with rfl | rfl | rfl <;> simp [Option.mem_def.mp hmem]
    refine (hnode target List.mem_cons_self).bind fun v => Grows.lift.bind fun _ => ?_
    refine (grows_bound hbelow (hbounds lower (by simp))).bind fun _ => ?_
    refine (grows_bound hbelow (hbounds upper (by simp))).bind fun _ => ?_
    exact (grows_bound hbelow (hbounds step (by simp))).bind fun _ => hfound Operation.grows_slice
  | call span callee args keywords => exact absurd (he _ (.here _)) Bool.noConfusion
  | unary span op operand =>
    exact (hnode operand List.mem_cons_self).bind fun v => hfound (Operation.grows_unary op)
  | binary span op left right =>
    refine (hnode left List.mem_cons_self).bind fun v => ?_
    refine (hnode right (List.mem_cons_of_mem _ List.mem_cons_self)).bind fun w => ?_
    exact hfound (Operation.grows_binary op)
  | boolean span op left right =>
    exact hfound (grows_boolean hbelow (he.child List.mem_cons_self)
      (he.child (List.mem_cons_of_mem _ List.mem_cons_self)))
  | compare span left rest =>
    refine (hnode left List.mem_cons_self).bind fun v => Grows.bind ?_ fun b => .pure
    exact grows_comparisons hbelow fun step h =>
      he.child (List.mem_cons_of_mem _ (List.mem_map.mpr ⟨step, h, rfl⟩))

theorem grows_node (he : e.IsCallFree) : Grows (node limits room text e) := by
  refine (Grows.mapFault (grows_nodeValue hbelow he)).bind fun found => ?_
  cases found with
  | ok v => exact .pure
  | error f => exact .throw

end

end Evaluation

/-- By induction on the levels: the engine that is left without any evaluates nothing. -/
theorem Engine.tower_grows (limits : Limits) (n k : Nat) : (tower limits n k).GrowsWithoutCalls := by
  induction n generalizing k with
  | zero => exact fun _ _ _ => .throw
  | succ n ih =>
    cases k with
    | zero => exact fun _ _ he => Evaluation.grows_node ih he
    | succ k => exact ih k

/-! ## The function that executes texts -/

namespace Engine

/-- The engine with an alarm in the place of the function that executes texts. -/
def barred (text : Text) (engine : Engine) : Engine where
  evaluate := engine.evaluate
  evaluateNode := engine.evaluateNode
  runLines := engine.runLines
  call f given := if f = .builtin .exec then throw (alarm text) else engine.call f given

/-- The stack of engines, each of them with the alarm. -/
def barredTower (text : Text) (limits : Limits) : Nat → Nat → Engine
  | 0, _ => exhausted
  | levels + 1, 0 => (step limits ⟨barredTower text limits levels, levels⟩).barred text
  | levels + 1, further + 1 => barredTower text limits levels further

/-- What is done with the engine does not come to the function that executes texts, neither itself nor in
what it evaluates and calls: with an alarm in the place of the function it ends in the same way, whatever
the alarm says. -/
def NeverExecutes {α : Type} (limits : Limits) (n : Nat) (part : Engine → Run α) (s : State) : Prop :=
  ∀ text, part (barredTower text limits n 0) s = part (tower limits n 0) s

/-- The engine that does not execute lines. -/
def idle (engine : Engine) : Engine where
  evaluate := engine.evaluate
  evaluateNode := engine.evaluateNode
  runLines _ := throw .tooDeep
  call := engine.call

end Engine

/-- The room with engines that do not execute lines. -/
def Room.idle (room : Room) : Room := ⟨fun k => (room.below k).idle, room.levels⟩

section

variable {limits : Limits} {room : Room} {text : Text}

/-- No other function executes lines. -/
theorem Call.function_idle {f : Function} (hf : f ≠ .builtin .exec) (given : Arguments) :
    function limits room.idle f given = function limits room f given := by
  cases f with
  | builtin f =>
    have hbuiltin : ∀ b, builtin limits room.idle f b = builtin limits room f b := by
      intro b
      cases f with
      | exec => exact absurd rfl hf
      | _ => rfl
    simp only [function, hbuiltin]
  | library f => rfl
  | method owner m => rfl

theorem Evaluation.comparisons_idle {v : Value} {rest : List (CompareOp × Expr)} :
    comparisons (room.idle.below 1) room.idle text v rest = comparisons (room.below 1) room text v rest := by
  induction rest generalizing v with
  | nil => rfl
  | cons step rest ih =>
    obtain ⟨op, e⟩ := step
    simp only [comparisons, ih]
    rfl

/-- No node executes lines but by a call. -/
theorem Evaluation.node_idle (e : Expr) : node limits room.idle text e = node limits room text e := by
  have hvalue : nodeValue limits room.idle text e = nodeValue limits room text e := by
    cases e with
    | compare span left rest =>
      simp only [nodeValue, comparisons_idle]
      rfl
    | _ => rfl
  simp only [node, hvalue]

end

/-- No name at all. -/
def noName : Text → Prop := fun _ => False

/-- By induction on the levels: what executes lines is left out, as nothing but the function with the
alarm comes to it. -/
theorem Engine.barredTower_acts (text : Text) (limits : Limits) (n k : Nat) :
    Engine.Acts limits noName (barredTower text limits n k).idle := by
  induction n generalizing k with
  | zero => exact ⟨fun _ => .throw, fun _ _ => .throw, fun _ => .throw, fun _ _ => .throw⟩
  | succ n ih =>
    cases k with
    | succ k => exact ih k
    | zero =>
      let room : Room := ⟨barredTower text limits n, n⟩
      have hbelow : ∀ k, Engine.Acts limits noName (room.idle.below k) := ih
      refine ⟨fun source => ?_, fun source e => ?_, fun _ => .throw, fun f given => ?_⟩
      · change Run.Acts limits noName (Evaluation.evaluate room.idle source)
        exact Evaluation.acts_evaluate hbelow
      · change Run.Acts limits noName (Evaluation.node limits room source e)
        rw [← Evaluation.node_idle]
        exact Evaluation.acts_node hbelow e
      · change Run.Acts limits noName
          (if f = .builtin .exec then throw (alarm text) else Call.function limits room f given)
        by_cases hf : f = .builtin .exec
        · rw [if_pos hf]
          exact .throw
        · rw [if_neg hf, ← Call.function_idle hf]
          exact Call.acts_function hbelow f given

/-- Where no name is bound the variables stay. -/
theorem NamedEffects.vars_eq {limits : Limits} {s t : State} (h : NamedEffects limits noName s t) :
    t.vars = s.vars := by
  induction h with
  | trans _ _ ihs iht => exact iht.trans ihs
  | bound _ _ hname => exact hname.elim
  | block _ _ ih => exact ih
  | _ => rfl

/-- What never comes to the function that executes texts ends as it does with the alarm, and with the
alarm nothing is bound. -/
theorem Engine.NeverExecutes.vars_eq {α : Type} {limits : Limits} {n : Nat} {part : Engine → Run α}
    {s : State} (h : NeverExecutes limits n part s)
    (hpart : ∀ engine : Engine, Engine.Acts limits noName engine.idle → Run.Acts limits noName (part engine)) :
    ((part (tower limits n 0)).after s).vars = s.vars := by
  have hafter : (part (tower limits n 0)).after s = (part (barredTower [] limits n 0)).after s := by
    unfold Run.after
    rw [h []]
  rw [hafter]
  exact (hpart _ (barredTower_acts [] limits n 0) s).vars_eq

namespace Evaluation

open Engine (tower NeverExecutes)

/-- A text without calls is one that is no expression, or one that is read as an expression without
calls. -/
theorem grows_evaluate {limits : Limits} {n : Nat} {text : Text}
    (hfree : ∀ e, read (n - 1) text.trim = .ok e → e.IsCallFree) :
    Run.Grows ((tower limits n 0).evaluate text) := by
  cases n with
  | zero => exact .throw
  | succ n =>
    refine .mapFault (.liftBind fun e he => ?_)
    exact Engine.tower_grows limits n 0 _ e (hfree e he)

/-- Whether it ends with a value or with a fault: an expression without calls makes objects at most, and
leaves variables, output and what is in the objects that were there as they are; and an expression that
does not come to the function that executes texts leaves the variables bound to the values that they were
bound to. Both are so of expressions that have been read and of the texts that they are read from. -/
theorem frame (limits : Limits) (n : Nat) (text : Text) (e : Expr) (s : State) :
    (e.IsCallFree → ∃ heap, s.heap.Grows heap ∧
      ((tower limits n 0).evaluateNode text e).after s = { s with heap := heap }) ∧
    (NeverExecutes limits n (·.evaluateNode text e) s →
      (((tower limits n 0).evaluateNode text e).after s).vars = s.vars) ∧
    ((∀ e, read (n - 1) text.trim = .ok e → e.IsCallFree) → ∃ heap, s.heap.Grows heap ∧
      ((tower limits n 0).evaluate text).after s = { s with heap := heap }) ∧
    (NeverExecutes limits n (·.evaluate text) s →
      (((tower limits n 0).evaluate text).after s).vars = s.vars) := by
  refine ⟨fun he => Engine.tower_grows limits n 0 text e he s, fun h => ?_,
    fun hfree => grows_evaluate hfree s, fun h => ?_⟩
  · exact h.vars_eq fun engine hacts => hacts.evaluateNode text e
  · exact h.vars_eq fun engine hacts => hacts.evaluate text

/-- A state in which a name is bound to a list of one element. -/
def oneList : State := { State.initial ⟨0⟩ 0 with vars := ⟨[("xs", .list 0)]⟩ }

/-- An element put at the end of the list. -/
def appending : Expr :=
  .call ⟨0, 12⟩ (.attribute ⟨0, 9⟩ (.name ⟨0, 2⟩ "xs") "append") [.literal ⟨10, 11⟩ (.int 1)] []

theorem appending_appends :
    (tower .standard 6 0).evaluateNode "xs.append(1)" appending oneList =
      .ok .none { oneList with heap := oneList.heap.pushList 0 (.int 1) } := rfl

theorem appending_neverExecutes :
    NeverExecutes .standard 6 (·.evaluateNode "xs.append(1)" appending) oneList := by
  intro text
  have hbarred : (Engine.barredTower text .standard 6 0).evaluateNode "xs.append(1)" appending oneList =
      .ok .none { oneList with heap := oneList.heap.pushList 0 (.int 1) } := rfl
  exact hbarred.trans appending_appends.symm

/-- A call changes the list, and the name is bound to the list still. -/
theorem frame_append :
    NeverExecutes .standard 6 (·.evaluateNode "xs.append(1)" appending) oneList ∧
      (((tower .standard 6 0).evaluateNode "xs.append(1)" appending).after oneList).heap.list 0 =
        #[.text "python", .int 1] ∧
      (((tower .standard 6 0).evaluateNode "xs.append(1)" appending).after oneList).vars =
        oneList.vars := by
  obtain ⟨-, hvars, -⟩ := frame .standard 6 "xs.append(1)" appending oneList
  refine ⟨appending_neverExecutes, ?_, hvars appending_neverExecutes⟩
  unfold Run.after
  rw [appending_appends]
  decide

end Evaluation

end Scriptlet
