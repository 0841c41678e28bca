import Scriptlet.Proofs.Effects.Running

/-
  Steps of a session, and the states that come up.

  A session goes from step to step: a text is run, an expression evaluated or bound, or the script of
  the session executed. However a step ends, the next one starts from the state that it has reached.
  All that a step does to the state are effects of a run, so that what effects keep, all steps keep.

  `State.Reachable` is every state between the steps of a session, and every state inside of a step:
  behind each expression, call and block at any level of nesting, each line of a block, each name that
  a statement binds and each element that it stores. Whatever of this stops with a fault has reached
  such a state too.

  What is proved:
    1. `Session.performAll_effects` — what steps do to the state are effects of a run.
    2. `State.Reachable.keeps` — a property of the start that each effect keeps holds of all these states.
    3. `Session.performAll_reachable` — the states between the steps of a session are among them.
-/

namespace Scriptlet

namespace Session

/-- A step of a session. -/
inductive Step where
  | run (source : Text)
  | evaluate (expression : Text)
  | bind (target expression : Text)
  | execute (source : Text)

/-- The session behind a step, whether it ends with a fault or not. -/
def perform (s : Session) : Step → Session
  | .run source => (s.runSource source).2
  | .evaluate expression => (s.evaluate expression).2
  | .bind target expression => (s.bind target expression).2
  | .execute source => (s.execute source).2

/-- The session behind some steps, one after the other. -/
def performAll (s : Session) (steps : List Step) : Session := steps.foldl perform s

theorem run_limits {α : Type} (s : Session) (step : Run α) : (s.run step).2.limits = s.limits := by
  unfold run
  cases step s.state <;> rfl

theorem run_state {α : Type} (s : Session) (step : Run α) :
    (s.run step).2.state = step.after s.state := by
  unfold run Run.after
  cases step s.state <;> rfl

theorem execute_limits (s : Session) (source : Text) :
    (s.execute source).2.limits = s.limits := by
  unfold execute
  split
  · rfl
  · exact run_limits _ _

/-- A session that has run its script refuses another one and keeps its state. -/
theorem execute_state (s : Session) (source : Text) :
    (s.execute source).2.state =
      if s.isUsed then s.state else (script s.limits source).after s.state := by
  unfold execute
  split
  · rfl
  · exact run_state _ _

theorem perform_limits (s : Session) (step : Step) : (s.perform step).limits = s.limits := by
  cases step with
  | run source => exact run_limits s _
  | evaluate expression => exact run_limits s _
  | bind target expression => exact run_limits s _
  | execute source => exact execute_limits s source

theorem performAll_limits (s : Session) (steps : List Step) :
    (s.performAll steps).limits = s.limits := by
  induction steps generalizing s with
  | nil => rfl
  | cons step steps ih => exact (ih (s.perform step)).trans (perform_limits s step)

section

variable {named : Text → Prop} (hnames : Binds named)

include hnames

theorem script_acts (limits : Limits) (source : Text) :
    Run.Acts limits named (script limits source) := by
  refine Run.Acts.lift.bind fun _ => .ite (.pure _) ?_
  refine (Run.Acts.mapFault ((Engine.tower_acts hnames _ 0).runLines _)).bind fun _ => ?_
  exact Run.Acts.get.bind fun _ => .pure _

/-- All that a step does to the state are effects of a run. -/
theorem perform_named (s : Session) (step : Step) :
    NamedEffects s.limits named s.state (s.perform step).state := by
  have hacts : Engine.Acts s.limits named (Engine.start s.limits) := Engine.tower_acts hnames _ 0
  cases step with
  | run source =>
    show NamedEffects _ _ _ (s.run _).2.state
    rw [run_state]
    exact hacts.runLines _ s.state
  | evaluate expression =>
    show NamedEffects _ _ _ (s.run _).2.state
    rw [run_state]
    exact hacts.evaluate expression s.state
  | bind target expression =>
    show NamedEffects _ _ _ (s.run _).2.state
    rw [run_state]
    have hbinds : ∀ v, Run.Acts s.limits named (Execution.bindTarget
        ⟨Engine.tower s.limits Engine.startLevels, Engine.startLevels⟩ target v false) :=
      fun v => Execution.acts_bindTarget (fun k => Engine.tower_acts hnames _ k) hnames
    exact Run.Acts.bind (hacts.evaluate expression) hbinds s.state
  | execute source =>
    show NamedEffects _ _ _ (s.execute source).2.state
    rw [execute_state]
    split
    · exact .none s.state
    · exact script_acts hnames s.limits source s.state

/-- All that steps do to the state, one after the other, are effects of a run. -/
theorem performAll_named (s : Session) (steps : List Step) :
    NamedEffects s.limits named s.state (s.performAll steps).state := by
  induction steps generalizing s with
  | nil => exact .none s.state
  | cons step steps ih =>
    have hrest := ih (s.perform step)
    rw [perform_limits] at hrest
    exact (perform_named hnames s step).trans hrest

end

theorem perform_effects (s : Session) (step : Step) :
    Effects s.limits s.state (s.perform step).state := perform_named binds_anyName s step

theorem performAll_effects (s : Session) (steps : List Step) :
    Effects s.limits s.state (s.performAll steps).state := performAll_named binds_anyName s steps

end Session

/-! ## States that come up -/

open Engine

/-- The states that come up under limits; each step may have stopped with a fault. -/
inductive State.Reachable (limits : Limits) : State → Prop
  | initial (clock : Moment) (seed : Nat) : Reachable limits (.initial clock seed)
  | evaluate {s : State} (levels : Nat) (text : Text) : Reachable limits s →
    Reachable limits (((tower limits levels 0).evaluate text).after s)
  | evaluateNode {s : State} (levels : Nat) (text : Text) (e : Expr) : Reachable limits s →
    Reachable limits (((tower limits levels 0).evaluateNode text e).after s)
  | call {s : State} (levels : Nat) (f : Function) (arguments : Arguments) : Reachable limits s →
    Reachable limits (((tower limits levels 0).call f arguments).after s)
  | runLines {s : State} (levels : Nat) (ls : List Text) : Reachable limits s →
    Reachable limits (((tower limits levels 0).runLines ls).after s)
  /-- A block counts itself in before its lines. -/
  | enter {s : State} : Reachable limits s → Reachable limits { s with depth := s.depth + 1 }
  /-- Some lines of a block, one or more statements and headers with their bodies. -/
  | sequence {s : State} (levels : Nat) (ls : List Text) : Reachable limits s →
    Reachable limits ((Execution.sequence limits (room limits levels) ls).after s)
  | bindTarget {s : State} (levels : Nat) (target : Text) (value : Value) (isAugmented : Bool) :
    Reachable limits s →
    Reachable limits ((Execution.bindTarget (room limits levels) target value isAugmented).after s)
  /-- One of the names of an import, a loop or a target. -/
  | bind {s : State} {name : Text} (value : Value) : name.IsBound → Reachable limits s →
    Reachable limits ((Run.bind name value).after s)
  | store {s : State} (source : Text) (container key value : Value) : Reachable limits s →
    Reachable limits ((Operation.store source container key value).after s)

namespace State.Reachable

variable {limits : Limits} {named : Text → Prop}

/-- What holds at the start, inside of blocks and behind every effect holds of all states. -/
theorem keeps (hnames : Binds named) {p : State → Prop}
    (hinitial : ∀ clock seed, p (.initial clock seed))
    (henter : ∀ s, p s → p { s with depth := s.depth + 1 })
    (heffects : ∀ s t, NamedEffects limits named s t → p s → p t) {s : State}
    (hs : Reachable limits s) : p s := by
  -- All that runs are effects of the tower; only `enter` is none, since a block counts itself out again.
  have htower : ∀ levels k, Engine.Acts limits named (tower limits levels k) := tower_acts hnames
  induction hs with
  | initial clock seed => exact hinitial clock seed
  | evaluate levels text _ ih => exact heffects _ _ ((htower levels 0).evaluate text _) ih
  | evaluateNode levels text e _ ih => exact heffects _ _ ((htower levels 0).evaluateNode text e _) ih
  | call levels f arguments _ ih => exact heffects _ _ ((htower levels 0).call f arguments _) ih
  | runLines levels ls _ ih => exact heffects _ _ ((htower levels 0).runLines ls _) ih
  | enter _ ih => exact henter _ ih
  | sequence levels ls _ ih =>
    exact heffects _ _ (Execution.acts_sequence (htower levels) hnames ls _) ih
  | bindTarget levels target value isAugmented _ ih =>
    exact heffects _ _ (Execution.acts_bindTarget (htower levels) hnames _) ih
  | bind value hname _ ih => exact heffects _ _ (Run.Acts.binds (hnames _ hname) _) ih
  | store source container key value _ ih => exact heffects _ _ (Operation.acts_store _) ih

end State.Reachable

namespace Session

theorem script_reachable {limits : Limits} {s : State} (source : Text) (hs : s.Reachable limits) :
    ((script limits source).after s).Reachable limits := by
  unfold script
  rw [Run.after_bind, Run.liftM_apply]
  cases requireLength limits source with
  | error fault => exact hs
  | ok u =>
    show State.Reachable limits (Run.after (ite _ _ _) s)
    by_cases hempty : (Source.cleanLines source).isEmpty
    · rw [if_pos hempty]
      exact hs
    · rw [if_neg hempty, Run.after_bind_of_reads fun _ _ => rfl, Run.after_mapFault]
      exact hs.runLines startLevels _

theorem perform_reachable {s : Session} (hs : s.state.Reachable s.limits) (step : Step) :
    (s.perform step).state.Reachable (s.perform step).limits := by
  rw [perform_limits]
  cases step with
  | run source =>
    show State.Reachable _ (s.run _).2.state
    rw [run_state]
    exact hs.runLines startLevels _
  | evaluate expression =>
    show State.Reachable _ (s.run _).2.state
    rw [run_state]
    exact hs.evaluate startLevels expression
  | bind target expression =>
    show State.Reachable _ (s.run _).2.state
    rw [run_state, Run.after_bind]
    have hevaluated := hs.evaluate startLevels expression
    unfold Run.after at hevaluated
    unfold start
    cases hvalue : (tower s.limits startLevels 0).evaluate expression s.state with
    | ok v t =>
      rw [hvalue] at hevaluated
      exact hevaluated.bindTarget startLevels target v false
    | error fault t =>
      rw [hvalue] at hevaluated
      exact hevaluated
  | execute source =>
    show State.Reachable _ (s.execute source).2.state
    rw [execute_state]
    split
    · exact hs
    · exact script_reachable source hs

/-- Behind any steps of a session, one after the other, the state is one that comes up. -/
theorem performAll_reachable {s : Session} (hs : s.state.Reachable s.limits) (steps : List Step) :
    (s.performAll steps).state.Reachable (s.performAll steps).limits := by
  induction steps generalizing s with
  | nil => exact hs
  | cons step steps ih => exact ih (perform_reachable hs step)

theorem reachable (limits : Limits) (clock : Moment) (seed : Nat) (steps : List Step) :
    ((initial limits clock seed).performAll steps).state.Reachable limits := by
  have h := performAll_reachable (s := initial limits clock seed) (.initial clock seed) steps
  rwa [performAll_limits] at h

end Session

end Scriptlet
