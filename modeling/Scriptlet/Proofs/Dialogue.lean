import Scriptlet.Proofs.Effects.Running
import Scriptlet.Proofs.Program

/-
  Evaluations as dialogues with execution.

  An evaluation can come back to execution: some function in it executes a text, in the state that the
  evaluation has reached, and how that ends decides how the evaluation goes on. `Dialogue α` is an
  evaluation seen by who executes those lines: it has ended, or it asks for lines to be executed and
  waits for the ending. A dialogue is finite however its questions are answered. Nothing is said about
  the answers, which may hold dialogues of their own.

  What is proved is how `Run.Converses` goes through the combinators that runs are written with: a
  step that converses does, whoever answers, what one dialogue does with the answers put in, and the
  dialogue asks all its questions with the count of blocks that it began with.
-/

namespace Scriptlet

/-- How a step of a run ends: in a state, with a value or a fault. -/
abbrev Outcome (α : Type) := EStateM.Result Fault State α

/-- The state that a step ends in. -/
def Outcome.state {α : Type} : Outcome α → State
  | .ok _ s | .error _ s => s

/-- What executes lines, with so many levels of nesting below it. -/
abbrev Reentry := Nat → List Text → Run Unit

/-- An evaluation, seen by who executes the lines that it asks for. -/
inductive Dialogue (α : Type) where
  | ends (outcome : Outcome α)
  /-- Lines are to be executed in a state; the ending decides what comes next. -/
  | asks (levels : Nat) (lines : List Text) (s : State) (resume : Ending → Dialogue α)

namespace Dialogue

variable {α β : Type} {depth : Nat}

/-- How a dialogue ends when its questions are answered so. -/
def answered (answer : Reentry) : Dialogue α → Outcome α
  | ends outcome => outcome
  | asks levels lines s resume => (resume (answer levels lines s)).answered answer

/-- The state that a dialogue is in. -/
def state : Dialogue α → State
  | ends outcome => Outcome.state outcome
  | asks _ _ s _ => s

/-- The dialogue is at this count of blocks until its end, if answers leave the count as it is. -/
def Keeps (depth : Nat) : Dialogue α → Prop
  | ends outcome => (Outcome.state outcome).depth = depth
  | asks _ _ s resume =>
    s.depth = depth ∧ ∀ ending, (Outcome.state ending).depth = depth → (resume ending).Keeps depth

/-- A dialogue and what comes behind its end. -/
def andThen (next : Outcome α → Dialogue β) : Dialogue α → Dialogue β
  | ends outcome => next outcome
  | asks levels lines s resume => asks levels lines s fun ending => (resume ending).andThen next

theorem answered_andThen (answer : Reentry) (next : Outcome α → Dialogue β) (d : Dialogue α) :
    (d.andThen next).answered answer = (next (d.answered answer)).answered answer := by
  induction d with
  | ends outcome => rfl
  | asks levels lines s resume ih => exact ih _

theorem Keeps.andThen {d : Dialogue α} {next : Outcome α → Dialogue β} (h : d.Keeps depth)
    (hnext : ∀ outcome, (Outcome.state outcome).depth = depth → (next outcome).Keeps depth) :
    (d.andThen next).Keeps depth := by
  induction d with
  | ends outcome => exact hnext outcome h
  | asks levels lines s resume ih => exact ⟨h.1, fun ending hending => ih ending (h.2 ending hending)⟩

theorem Keeps.state_depth {d : Dialogue α} (h : d.Keeps depth) : d.state.depth = depth := by
  cases d with
  | ends outcome => exact h
  | asks levels lines s resume => exact h.1

end Dialogue

namespace Run

variable {α β γ : Type}

/-- Whoever answers, what the step does is what one dialogue does with the answers put in. -/
def Converses (x : Reentry → Run α) : Prop :=
  ∀ s : State, ∃ d : Dialogue α, d.Keeps s.depth ∧ ∀ answer, d.answered answer = x answer s

namespace Converses

/-- What asks nothing is at its end at once. -/
theorem acts (limits : Limits) {x : Run α} (h : Acts limits anyName x) : Converses fun _ => x :=
  fun s => ⟨.ends (x s), (h s).depth_eq, fun _ => rfl⟩

theorem asks (levels : Nat) (lines : List Text) :
    Converses fun answer => answer levels lines :=
  fun s => ⟨.asks levels lines s .ends, ⟨rfl, fun _ hending => hending⟩, fun _ => rfl⟩

theorem pure (a : α) : Converses fun _ => (pure a : Run α) := acts .standard (.pure a)

theorem throw {fault : Fault} : Converses fun _ => (throw fault : Run α) := acts .standard .throw

theorem get : Converses fun _ => (MonadState.get : Run State) := acts .standard .get

theorem lift {x : Except Fault α} : Converses fun _ => (liftM x : Run α) := acts .standard .lift

theorem look {read : Heap → Except Fault α} : Converses fun _ => look read := acts .standard .look

theorem newList {items : List Value} : Converses fun _ => newList items := acts .standard .newList

theorem bind {x : Reentry → Run α} {f : Reentry → α → Run β} (hx : Converses x)
    (hf : ∀ a, Converses fun answer => f answer a) :
    Converses fun answer => x answer >>= f answer := by
  intro s
  obtain ⟨d, hkeeps, hd⟩ := hx s
  -- Each value that the first step may end with has a dialogue behind it, from each state.
  choose next hnext hanswered using hf
  let behind : Outcome α → Dialogue β
    | .ok a t => next a t
    | .error fault t => .ends (.error fault t)
  refine ⟨d.andThen behind, hkeeps.andThen fun outcome houtcome => ?_, fun answer => ?_⟩
  · cases outcome with
    | ok a t =>
      rw [← show t.depth = s.depth from houtcome]
      exact hnext a t
    | error fault t => exact houtcome
  · show _ = (x answer >>= f answer) s
    rw [Dialogue.answered_andThen, hd, bind_apply]
    cases x answer s with
    | ok a t => exact hanswered a t answer
    | error fault t => rfl

/-- Nothing comes after a fault. -/
theorem throwBind {fault : Fault} {f : Reentry → α → Run β} :
    Converses fun answer => (MonadExcept.throw fault : Run α) >>= f answer :=
  fun s => ⟨.ends (.error fault s), rfl, fun _ => rfl⟩

theorem ite {c : Prop} [Decidable c] {x y : Reentry → Run α} (hx : Converses x)
    (hy : Converses y) : Converses fun answer => if c then x answer else y answer := by
  by_cases h : c
  · simp only [if_pos h]
    exact hx
  · simp only [if_neg h]
    exact hy

theorem mapFault {f : Fault → Fault} {x : Reentry → Run α} (hx : Converses x) :
    Converses fun answer => mapFault f (x answer) := by
  intro s
  obtain ⟨d, hkeeps, hd⟩ := hx s
  let behind : Outcome α → Dialogue α
    | .ok a t => .ends (.ok a t)
    | .error fault t => .ends (.error (f fault) t)
  refine ⟨d.andThen behind, hkeeps.andThen fun outcome houtcome => ?_, fun answer => ?_⟩
  · cases outcome <;> exact houtcome
  · show _ = Run.mapFault f (x answer) s
    rw [Dialogue.answered_andThen, hd, mapFault_apply]
    cases x answer s <;> rfl

/-! ## Loops -/

theorem mapM {f : Reentry → γ → Run β} {cs : List γ}
    (hf : ∀ c, Converses fun answer => f answer c) :
    Converses fun answer => cs.mapM (f answer) := by
  induction cs with
  | nil => exact pure []
  | cons c cs ih =>
    simp only [List.mapM_cons]
    exact (hf c).bind fun b => ih.bind fun bs => pure (b :: bs)

theorem foldlM {f : Reentry → α → γ → Run α} {cs : List γ} {a : α}
    (hf : ∀ a c, Converses fun answer => f answer a c) :
    Converses fun answer => cs.foldlM (f answer) a := by
  induction cs generalizing a with
  | nil => exact pure a
  | cons c cs ih =>
    simp only [List.foldlM_cons]
    exact (hf a c).bind fun b => ih

theorem filterM {f : Reentry → γ → Run Bool} {cs : List γ}
    (hf : ∀ c, Converses fun answer => f answer c) :
    Converses fun answer => cs.filterM (f answer) := by
  have hkept : ∀ kept : List γ, Converses fun answer => cs.filterAuxM (f answer) kept := by
    induction cs with
    | nil => exact fun kept => pure kept
    | cons c cs ih => exact fun kept => (hf c).bind fun b => ih (cond b (c :: kept) kept)
  exact (hkept []).bind fun kept => pure kept.reverse

theorem forIn {f : Reentry → γ → PUnit → Run (ForInStep PUnit)} {cs : List γ}
    (hf : ∀ c u, Converses fun answer => f answer c u) :
    Converses fun answer => forIn cs PUnit.unit (f answer) := by
  induction cs with
  | nil => exact pure PUnit.unit
  | cons c cs ih =>
    simp only [List.forIn_cons]
    refine (hf c PUnit.unit).bind fun step => ?_
    cases step with
    | done u => exact pure u
    | yield u => exact ih

end Converses

end Run

end Scriptlet
