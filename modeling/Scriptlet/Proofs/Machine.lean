import Mathlib.Data.Prod.Lex
import Mathlib.Logic.Relation
import Scriptlet.Proofs.Dialogue.Running
import Scriptlet.Proofs.Program.Running

/-
  Execution as a machine.

  Blocks are executed one inside the other: the body of a header inside the block of the header, and a
  text that a function executes inside the block of the line that it is called in. The machine goes
  from step to step and keeps the blocks in progress on a stack. A block goes on turn by turn: a turn
  executes one line up to the body below it, or begins the next pass of a loop. The lines that are
  left, the elements that a loop has taken out of its sequence, and the passes that a loop under a
  condition has made are what the block remembers.

  Nothing bounds the machine: how much room an execution has is asked of `Host`, which may grant any
  amount each time. The host that grants what is left is the run itself.

  What is proved:
    1. `converses_turn` — a turn is a dialogue with who executes lines.
    2. `finish_apply` — what is left of a block is its next turn, the body that the turn enters, and
       what is left then.
    3. `turn_lt` — every turn leaves less: lines, or elements, or passes.

  The machine itself is `next`; that it ends, and how deep it goes, is proved in the modules below.
-/

namespace Scriptlet

/-- The step ends with a value of this kind, if it ends with a value. -/
def Run.Yields {α : Type} (x : Run α) (good : α → Prop) : Prop :=
  ∀ s a t, x s = .ok a t → good a

namespace Run.Yields

variable {α β : Type} {good : α → Prop}

theorem pure {a : α} (ha : good a) : Yields (pure a : Run α) good := by
  intro s b t h
  cases h
  exact ha

/-- Nothing comes after a fault. -/
theorem throwBind {fault : Fault} {f : β → Run α} :
    Yields (MonadExcept.throw fault >>= f) good := by
  intro s a t h
  cases h

theorem bind {x : Run β} {f : β → Run α} (hf : ∀ b, Yields (f b) good) : Yields (x >>= f) good := by
  intro s a t h
  rw [bind_apply] at h
  cases hx : x s with
  | ok b u =>
    rw [hx] at h
    exact hf b u a t h
  | error fault u =>
    rw [hx] at h
    cases h

theorem ite {c : Prop} [Decidable c] {x y : Run α} (hx : c → Yields x good)
    (hy : ¬ c → Yields y good) : Yields (if c then x else y) good := by
  by_cases h : c
  · rw [if_pos h]
    exact hx h
  · rw [if_neg h]
    exact hy h

end Run.Yields

namespace Machine

open Engine (room askingRoom)

/-! ## Turns of a block -/

/-- What is left to do in a block. -/
inductive Todo where
  | lines (ls : List Text)
  /-- The body for each of the elements, and then the lines behind the loop. -/
  | each (targets body : List Text) (items : List Value) (rest : List Text)
  /-- The body while the condition holds, behind so many passes, and then the lines behind the loop. -/
  | again (condition : Text) (body : List Text) (passes : Nat) (rest : List Text)

/-- How a turn ends. -/
inductive Turn where
  | done
  | goes (todo : Todo)
  /-- A body is entered, and the block goes on behind it. -/
  | enters (body : List Text) (todo : Todo)

/-- What is left behind a turn, unless the block is done. -/
def Turn.todo? : Turn → Option Todo
  | done => none
  | goes todo => some todo
  | enters _ todo => some todo

variable (limits : Limits)

/-- A header up to its body; `rest` are the lines behind the body. -/
def header (room : Room) (h : Header) (body rest : List Text) : Run Turn := do
  match h with
  | .forEach targets items =>
    let v ← (room.below 1).evaluate items
    return .goes (.each targets body (← Execution.loopItems items v) rest)
  | .onlyIf condition =>
    if ← Execution.holds room condition then return .enters body (.lines rest)
    else return .goes (.lines rest)
  | .whileTrue condition => return .goes (.again condition body 0 rest)

/-- The next turn of a block. -/
def turn (room : Room) : Todo → Run Turn
  | .lines [] => return .done
  | .lines (line :: rest) => do
    match ← Line.read line.trim with
    | .statement s =>
      Execution.statement limits room line.trim s
      return .goes (.lines rest)
    | .header h => header room h (Source.block rest).1 (rest.drop (Source.block rest).2)
  | .each _ _ [] rest => return .goes (.lines rest)
  | .each targets body (item :: items) rest => do
    let values ← Execution.distribute room.printing targets.length item
    for (name, v) in targets.zip values do
      Run.bind name v
    return .enters body (.each targets body items rest)
  | .again condition body passes rest => do
    if ← Execution.holds room condition then
      if passes ≥ maxWhileIterations then throw Program.tooManyIterations
      return .enters body (.again condition body (passes + 1) rest)
    else return .goes (.lines rest)

section

variable {below : Reentry → Nat → Engine} {levels : Nat}
  (hbelow : ∀ k, Engine.Converses fun answer => below answer k)

include hbelow

theorem converses_header {h : Header} {body rest : List Text} :
    Run.Converses fun answer => header ⟨below answer, levels⟩ h body rest := by
  cases h with
  | forEach targets items =>
    refine ((hbelow 1).evaluate items).bind fun v => ?_
    exact (Run.Converses.acts .standard Execution.acts_loopItems).bind fun _ => .pure _
  | onlyIf condition =>
    exact (Execution.converses_holds hbelow).bind fun _ => .ite (.pure _) (.pure _)
  | whileTrue condition => exact .pure _

/-- What a block does in a turn is a dialogue with who executes the texts that its expressions ask
for. The body that the turn enters is not part of it. -/
theorem converses_turn (todo : Todo) :
    Run.Converses fun answer => turn limits ⟨below answer, levels⟩ todo := by
  match todo with
  | .lines [] => exact .pure _
  | .lines (line :: rest) =>
    refine Run.Converses.lift.bind fun l => ?_
    cases l with
    | statement s => exact (Execution.converses_statement hbelow s).bind fun _ => .pure _
    | header h => exact converses_header hbelow
  | .each targets body [] rest => exact .pure _
  | .each targets body (item :: items) rest =>
    have hshares : Run.Converses fun _ =>
        Execution.distribute (levels / 2) targets.length item := .acts limits Execution.acts_distribute
    refine hshares.bind fun values => Run.Converses.bind (.forIn fun p _ => ?_) fun _ => .pure _
    exact .acts limits ((Run.Acts.binds trivial).bind fun _ => .pure _)
  | .again condition body passes rest =>
    refine (Execution.converses_holds hbelow).bind fun _ => .ite (.ite .throwBind ?_) (.pure _)
    exact .pure _

end

/-! ## Turns and what is left -/

/-- All that is left of a block, done at once. -/
def finish (n : Nat) : Todo → Run Unit
  | .lines ls => Execution.sequence limits (room limits n) ls
  | .each targets body items rest => do
    Program.turns limits n targets body items
    Execution.sequence limits (room limits n) rest
  | .again condition body passes rest => do
    Execution.whileTrue (room limits n) condition body (maxWhileIterations - passes)
    Execution.sequence limits (room limits n) rest

/-- What a block does behind a turn. -/
def behind (n : Nat) : Outcome Turn → Ending
  | .ok .done t => .ok () t
  | .ok (.goes todo) t => finish limits n todo t
  | .ok (.enters body todo) t =>
    match (Engine.tower limits (n - 1) 0).runLines body t with
    | .ok () u => finish limits n todo u
    | .error fault u => .error fault u
  | .error fault t => .error fault t

/-- A header with its body and the lines behind it is the turn that opens it, with what is behind. -/
theorem header_apply {n : Nat} (h : Header) (body rest : List Text) (s : State) :
    (Execution.header (room limits n) h body >>= fun _ =>
        Execution.sequence limits (room limits n) rest) s =
      behind limits n (header (room limits n) h body rest s) := by
  cases h with
  | forEach targets items =>
    simp only [header, Run.bind_apply, Program.forEach_apply, Program.value]
    cases ((room limits n).below 1).evaluate items s with
    | error fault t => rfl
    | ok v t =>
      simp only [Program.loopItems_apply]
      cases t.heap.sequence? v with
      | none => rfl
      | some values => simp only [Run.pure_apply, behind, finish, Run.bind_apply]
  | onlyIf condition =>
    simp only [header, Run.bind_apply, Program.onlyIf_apply, Program.holds_apply]
    cases Program.condition limits n condition s with
    | error fault t => rfl
    | ok b t =>
      cases b with
      | false => rfl
      | true =>
        simp only [if_true, Run.pure_apply, behind, finish]
        cases (Engine.tower limits (n - 1) 0).runLines body t <;> rfl
  | whileTrue condition => rfl

theorem finish_lines_apply {n : Nat} (ls : List Text) (s : State) :
    finish limits n (.lines ls) s = behind limits n (turn limits (room limits n) (.lines ls) s) := by
  cases ls with
  | nil => simp only [finish, Execution.sequence]; rfl
  | cons line rest =>
    simp only [finish, turn, Execution.sequence, Run.bind_apply, Run.liftM_apply]
    cases Line.read line.trim with
    | error fault => rfl
    | ok l =>
      cases l with
      | statement st =>
        simp only [Run.bind_apply]
        cases Execution.statement limits (room limits n) line.trim st s with
        | error fault t => rfl
        | ok _ t => simp only [Run.pure_apply, behind, finish]
      | header h => exact header_apply limits h _ _ s

theorem finish_each_apply {n : Nat} (targets body : List Text) (items : List Value)
    (rest : List Text) (s : State) :
    finish limits n (.each targets body items rest) s =
      behind limits n (turn limits (room limits n) (.each targets body items rest) s) := by
  cases items with
  | nil => rfl
  | cons item items =>
    simp only [finish, turn, Run.bind_apply, Program.turns_cons_apply, Program.turn_apply,
      Program.distribute_apply]
    cases Program.shares n targets item s.heap with
    | error fault => rfl
    | ok values =>
      simp only
      rw [Program.forIn_bind_apply]
      simp only [Run.pure_apply, behind]
      cases (Engine.tower limits (n - 1) 0).runLines body (s.bindAll (targets.zip values)) with
      | error fault t => rfl
      | ok _ t => simp only [finish, Run.bind_apply]

theorem finish_again_apply {n : Nat} (condition : Text) (body : List Text) (passes : Nat)
    (rest : List Text) (s : State) :
    finish limits n (.again condition body passes rest) s =
      behind limits n (turn limits (room limits n) (.again condition body passes rest) s) := by
  simp only [finish, turn, Run.bind_apply, Program.holds_apply]
  by_cases hpasses : passes ≥ maxWhileIterations
  · -- No pass is left, but the condition is asked once more.
    rw [Nat.sub_eq_zero_of_le hpasses, Program.whileTrue_zero_apply]
    simp only [hpasses, if_true]
    cases Program.condition limits n condition s with
    | error fault t => rfl
    | ok b t => cases b <;> rfl
  · obtain ⟨left, hleft⟩ : ∃ left, maxWhileIterations - passes = left + 1 :=
      ⟨maxWhileIterations - passes - 1, by omega⟩
    have hnext : maxWhileIterations - (passes + 1) = left := by omega
    rw [hleft, Program.whileTrue_succ_apply]
    simp only [hpasses, if_false]
    cases Program.condition limits n condition s with
    | error fault t => rfl
    | ok b t =>
      cases b with
      | false => rfl
      | true =>
        simp only [if_true, behind, finish]
        show _ = match (Engine.tower limits (n - 1) 0).runLines body t with
          | .ok () u => finish limits n (.again condition body (passes + 1) rest) u
          | .error fault u => .error fault u
        cases (Engine.tower limits (n - 1) 0).runLines body t with
        | error fault u => rfl
        | ok _ u =>
          simp only [finish, hnext, Run.bind_apply]

/-- What is left of a block is its next turn, and what the block does behind it. -/
theorem finish_apply {n : Nat} (todo : Todo) (s : State) :
    finish limits n todo s = behind limits n (turn limits (room limits n) todo s) := by
  cases todo with
  | lines ls => exact finish_lines_apply limits ls s
  | each targets body items rest => exact finish_each_apply limits targets body items rest s
  | again condition body passes rest => exact finish_again_apply limits condition body passes rest s

/-! ## Every turn leaves less -/

/-- How much is left: the lines behind, and then the elements or passes of a loop in progress. -/
def Todo.left : Todo → Nat ×ₗ Nat
  | lines ls => toLex (ls.length, 0)
  | each _ _ items rest => toLex (rest.length, items.length + 1)
  | again _ _ passes rest => toLex (rest.length, maxWhileIterations - passes + 1)

/-- What a turn leaves is less than what there was. -/
def Turn.IsLess (todo : Todo) (t : Turn) : Prop := ∀ next ∈ t.todo?, next.left < todo.left

theorem left_lt_of_lines {a b x y : Nat} (h : a < b) : toLex (a, x) < toLex (b, y) :=
  Prod.Lex.toLex_lt_toLex.mpr (.inl h)

theorem left_lt_of_loop {a x y : Nat} (h : x < y) : toLex (a, x) < toLex (a, y) :=
  Prod.Lex.toLex_lt_toLex.mpr (.inr ⟨rfl, h⟩)

theorem Turn.isLess_goes {todo next : Todo} (h : next.left < todo.left) :
    IsLess todo (goes next) := by
  rintro _ ⟨⟩
  exact h

theorem Turn.isLess_enters {todo next : Todo} {body : List Text} (h : next.left < todo.left) :
    IsLess todo (enters body next) := by
  rintro _ ⟨⟩
  exact h

/-- A header leaves the lines behind its body, and the passes of its loop. -/
theorem header_yields {room : Room} {h : Header} {body rest ls : List Text}
    (hrest : rest.length < ls.length) :
    (header room h body rest).Yields (Turn.IsLess (.lines ls)) := by
  cases h with
  | forEach targets items =>
    refine .bind fun v => .bind fun values => .pure ?_
    exact Turn.isLess_goes (left_lt_of_lines hrest)
  | onlyIf condition =>
    refine .bind fun b => .ite (fun _ => .pure ?_) fun _ => .pure ?_
    · exact Turn.isLess_enters (left_lt_of_lines hrest)
    · exact Turn.isLess_goes (left_lt_of_lines hrest)
  | whileTrue condition => exact .pure (Turn.isLess_goes (left_lt_of_lines hrest))

/-- Every turn leaves less. A line is left behind with its body, so the lines that a loop is followed
by are fewer than those that it began; a loop over elements has one less of them, whatever its body
does to the sequence that they came from; a loop under a condition has one pass less. -/
theorem turn_yields (room : Room) (todo : Todo) :
    (turn limits room todo).Yields (Turn.IsLess todo) := by
  match todo with
  | .lines [] =>
    refine .pure ?_
    rintro _ ⟨⟩
  | .lines (line :: rest) =>
    refine .bind fun l => ?_
    cases l with
    | statement s =>
      refine .bind fun _ => .pure (Turn.isLess_goes ?_)
      exact left_lt_of_lines (Nat.lt_succ_self rest.length)
    | header h => exact header_yields (Execution.length_drop_lt line rest _)
  | .each targets body [] rest =>
    exact .pure (Turn.isLess_goes (left_lt_of_loop (Nat.succ_pos 0)))
  | .each targets body (item :: items) rest =>
    refine .bind fun values => .bind fun _ => .pure (Turn.isLess_enters ?_)
    exact left_lt_of_loop (Nat.lt_succ_self _)
  | .again condition body passes rest =>
    refine .bind fun b => .ite (fun _ => .ite (fun _ => ?_) fun hpasses => ?_) fun _ => .pure ?_
    · exact .throwBind
    · refine .pure (Turn.isLess_enters (left_lt_of_loop ?_))
      omega
    · exact Turn.isLess_goes (left_lt_of_loop (Nat.succ_pos _))

theorem turn_lt {room : Room} {todo next : Todo} {t : Turn} {s u : State}
    (h : turn limits room todo s = .ok t u) (hnext : t.todo? = some next) :
    next.left < todo.left :=
  turn_yields limits room todo s t u h next hnext

/-! ## The machine -/

/-- How much room an execution of lines gets in a state, when so many levels are left. -/
abbrev Host := Nat → State → Nat

/-- The host that grants what is left. -/
def plain : Host := fun levels _ => levels

theorem converses_asking (n : Nat) (todo : Todo) :
    Run.Converses fun answer => turn limits (askingRoom limits answer n) todo :=
  converses_turn limits (Engine.asking_converses limits n) todo

/-- The dialogue of a turn. -/
noncomputable def talk (n : Nat) (todo : Todo) (s : State) : Dialogue Turn :=
  (converses_asking limits n todo s).choose

theorem talk_keeps (n : Nat) (todo : Todo) (s : State) : (talk limits n todo s).Keeps s.depth :=
  (converses_asking limits n todo s).choose_spec.1

theorem talk_answered (n : Nat) (todo : Todo) (s : State) (answer : Reentry) :
    (talk limits n todo s).answered answer = turn limits (askingRoom limits answer n) todo s :=
  (converses_asking limits n todo s).choose_spec.2 answer

/-- A block that waits for the one above it. -/
inductive Frame where
  /-- The block goes on with `todo` when the body that it has entered is done. -/
  | body (levels : Nat) (todo : Todo)
  /-- A turn of the block goes on when the text that an expression in it has asked for is done. -/
  | text (levels : Nat) (resume : Ending → Dialogue Turn)

/-- The blocks in progress, and who waits below all of them. -/
structure Stack (α : Type) where
  frames : List Frame
  resume : Ending → Dialogue α

namespace Stack

variable {α : Type}

def push (frame : Frame) (stack : Stack α) : Stack α := { stack with frames := frame :: stack.frames }

end Stack

/-- Where the machine is, as it works for a dialogue from outside of all blocks. -/
inductive Config (α : Type) where
  | outside (d : Dialogue α)
  /-- Lines are about to be executed. -/
  | calls (levels : Nat) (ls : List Text) (s : State) (stack : Stack α)
  /-- A block goes on. -/
  | goes (levels : Nat) (todo : Todo) (s : State) (stack : Stack α)
  /-- A block is in a turn. -/
  | talks (levels : Nat) (d : Dialogue Turn) (stack : Stack α)
  /-- An execution of lines has ended. -/
  | returns (ending : Ending) (stack : Stack α)

variable {α : Type} (host : Host)

/-- What comes behind the end of an execution, for who has waited for it. -/
def resumed (ending : Ending) (stack : Stack α) : Config α :=
  match stack.frames with
  | [] => .outside (stack.resume ending)
  | .text levels resume :: frames => .talks levels (resume ending) { stack with frames := frames }
  | .body levels todo :: frames =>
    match ending with
    | .ok () s => .goes levels todo s { stack with frames := frames }
    | .error fault s => .returns (.error fault s.leave) { stack with frames := frames }

/-- What comes behind the end of a turn. -/
def turned (levels : Nat) (stack : Stack α) : Outcome Turn → Config α
  | .ok .done s => .returns (.ok () s.leave) stack
  | .ok (.goes todo) s => .goes levels todo s stack
  | .ok (.enters body todo) s => .calls (levels - 1) body s (stack.push (.body levels todo))
  | .error fault s => .returns (.error fault s.leave) stack

/-- Lines that are executed make a block, unless it would be too deep or there is no room. -/
def entered (levels : Nat) (ls : List Text) (s : State) (stack : Stack α) : Config α :=
  match host levels s with
  | 0 => .returns (.error .tooDeep s) stack
  | granted + 1 =>
    if limits.maxNestingDepth < s.enter.depth then
      .returns (.error (Program.tooNested limits) s.enter.leave) stack
    else .goes granted (.lines ls) s.enter stack

/-- The next step of the machine; it stands still when the dialogue outside has ended. -/
noncomputable def next : Config α → Option (Config α)
  | .outside (.ends _) => none
  | .outside (.asks levels ls s resume) => some (.calls levels ls s ⟨[], resume⟩)
  | .calls levels ls s stack => some (entered limits host levels ls s stack)
  | .goes levels todo s stack => some (.talks levels (talk limits levels todo s) stack)
  | .talks levels (.asks more ls s resume) stack =>
    some (.calls more ls s (stack.push (.text levels resume)))
  | .talks levels (.ends outcome) stack => some (turned levels stack outcome)
  | .returns ending stack => some (resumed ending stack)

/-- The machine comes from one place to another. -/
def Leads : Config α → Config α → Prop :=
  Relation.ReflTransGen fun c c' => next limits host c = some c'

end Machine

end Scriptlet
