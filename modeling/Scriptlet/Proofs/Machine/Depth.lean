import Scriptlet.Proofs.Machine.Ends
import Scriptlet.Proofs.Steps

/-
  The depth of a run is the number of its executions in progress.

  The state counts the blocks that are being executed, and the machine has them on its stack. The two
  agree at every place that the machine comes to: a block counts itself in when it is entered and out
  however it ends, and the dialogues inside of it are at the depth of the block from their first
  question to their end.

  What is proved:
    1. `Config.Sound.next` — a step of the machine keeps count, and the dialogues of the blocks that
       wait go on at the depths of their blocks.
    2. `Config.Sound.depth_eq` — at a place that is sound, the count is the number of executions in
       progress, and it is within the cap.
    3. `Session.depth_exact` — so it is at every place of every step of a session, and behind each step
       the count is zero.
-/

namespace Scriptlet

namespace Machine

variable {α : Type} (limits : Limits) {host : Host}

/-! ## Places that keep count -/

namespace Config

/-- The state at a place of the machine. -/
def state : Config α → State
  | outside d => d.state
  | calls _ _ s _ | goes _ _ s _ => s
  | talks _ d _ => d.state
  | returns ending _ => Outcome.state ending

/-- The number of executions of lines in progress. -/
def activations : Config α → Nat
  | outside _ => 0
  | calls _ _ _ stack | returns _ stack => stack.frames.length
  | goes _ _ _ stack | talks _ _ stack => stack.frames.length + 1

end Config

/-- A dialogue that waits for an ending goes on at a depth if the execution leaves it so. -/
def Resumes {β : Type} (depth : Nat) (resume : Ending → Dialogue β) : Prop :=
  ∀ ending, (Outcome.state ending).depth = depth → (resume ending).Keeps depth

/-- The dialogue that a block waits with goes on at the depth of the block. -/
def Frame.Sound (depth : Nat) : Frame → Prop
  | .body _ _ => True
  | .text _ resume => Resumes depth resume

/-- The blocks that wait are within the cap, and go on at their depths. -/
def FramesSound : List Frame → Prop
  | [] => True
  | frame :: frames =>
    ((frames.length + 1 : Nat) : Int) ≤ limits.maxNestingDepth ∧ frame.Sound (frames.length + 1) ∧
      FramesSound frames

/-- The blocks of a stack are sound, and who waits below them goes on outside of all blocks. -/
structure Stack.Sound (stack : Stack α) : Prop where
  frames : FramesSound limits stack.frames
  resume : Resumes 0 stack.resume

/-- The block above a stack is within the cap. -/
def Stack.Admits (stack : Stack α) : Prop :=
  ((stack.frames.length + 1 : Nat) : Int) ≤ limits.maxNestingDepth

/-- The count at a place is the number of executions in progress, and all that waits will keep it. -/
def Config.Sound : Config α → Prop
  | .outside d => d.Keeps 0
  | .calls _ _ s stack => s.depth = stack.frames.length ∧ stack.Sound limits
  | .goes _ _ s stack =>
    s.depth = stack.frames.length + 1 ∧ stack.Admits limits ∧ stack.Sound limits
  | .talks _ d stack =>
    d.Keeps (stack.frames.length + 1) ∧ stack.Admits limits ∧ stack.Sound limits
  | .returns ending stack => (Outcome.state ending).depth = stack.frames.length ∧ stack.Sound limits

variable {limits}

theorem Stack.Sound.push {stack : Stack α} {frame : Frame} (h : stack.Sound limits)
    (hadmits : stack.Admits limits) (hframe : frame.Sound (stack.frames.length + 1)) :
    (stack.push frame).Sound limits :=
  ⟨⟨hadmits, hframe, h.frames⟩, h.resume⟩

/-! ## Steps keep count -/

/-- Lines that are executed count themselves in, unless they are refused. -/
theorem sound_entered {levels : Nat} {ls : List Text} {s : State} {stack : Stack α}
    (hs : s.depth = stack.frames.length) (h : stack.Sound limits) :
    (entered limits host levels ls s stack).Sound limits := by
  unfold entered
  cases host levels s with
  | zero => exact ⟨hs, h⟩
  | succ granted =>
    have henter : s.enter.depth = stack.frames.length + 1 := congrArg (· + 1) hs
    simp only
    by_cases hdeep : limits.maxNestingDepth < s.enter.depth
    · rw [if_pos hdeep]
      exact ⟨hs, h⟩
    · rw [if_neg hdeep]
      refine ⟨henter, ?_, h⟩
      unfold Stack.Admits
      rw [← henter]
      exact Int.not_lt.mp hdeep

/-- A block that ends counts itself out. -/
theorem sound_leave (outcome : Outcome Unit) {stack : Stack α}
    (hdepth : (Outcome.state outcome).depth = stack.frames.length + 1) (h : stack.Sound limits) :
    (Config.returns (Ending.leave outcome) stack).Sound limits := by
  cases outcome <;> exact ⟨Nat.sub_eq_of_eq_add hdepth, h⟩

theorem sound_turned {levels : Nat} {outcome : Outcome Turn} {stack : Stack α}
    (hdepth : (Outcome.state outcome).depth = stack.frames.length + 1)
    (hadmits : stack.Admits limits) (h : stack.Sound limits) :
    (turned levels stack outcome).Sound limits := by
  cases outcome with
  | error fault t => exact sound_leave (.error fault t) hdepth h
  | ok next t =>
    cases next with
    | done => exact sound_leave (.ok () t) hdepth h
    | goes todo => exact ⟨hdepth, hadmits, h⟩
    | enters body todo => exact ⟨hdepth, h.push hadmits trivial⟩

/-- Who has waited goes on at the depth of its block. -/
theorem sound_resumed {ending : Ending} {stack : Stack α}
    (hdepth : (Outcome.state ending).depth = stack.frames.length) (h : stack.Sound limits) :
    (resumed ending stack).Sound limits := by
  obtain ⟨frames, resume⟩ := stack
  cases frames with
  | nil => exact h.resume ending hdepth
  | cons frame frames =>
    obtain ⟨⟨hadmits, hframe, hframes⟩, hresume⟩ := h
    have hbelow : Stack.Sound limits ⟨frames, resume⟩ := ⟨hframes, hresume⟩
    cases frame with
    | text levels resume => exact ⟨hframe ending hdepth, hadmits, hbelow⟩
    | body levels todo =>
      cases ending with
      | ok _ s => exact ⟨hdepth, hadmits, hbelow⟩
      | error fault s => exact sound_leave (.error fault s) hdepth hbelow

/-- A step of the machine keeps count. -/
theorem Config.Sound.next {c c' : Config α} (h : c.Sound limits)
    (hnext : Machine.next limits host c = some c') : c'.Sound limits := by
  cases c with
  | outside d =>
    cases d with
    | ends outcome => cases hnext
    | asks levels ls s resume =>
      cases hnext
      exact ⟨h.1, trivial, h.2⟩
  | calls levels ls s stack =>
    cases hnext
    exact sound_entered h.1 h.2
  | goes levels todo s stack =>
    cases hnext
    refine ⟨?_, h.2⟩
    rw [← h.1]
    exact talk_keeps limits levels todo s
  | talks levels d stack =>
    obtain ⟨hkeeps, hadmits, hstack⟩ := h
    cases d with
    | ends outcome =>
      cases hnext
      exact sound_turned hkeeps hadmits hstack
    | asks more ls s resume =>
      cases hnext
      exact ⟨hkeeps.1, hstack.push hadmits hkeeps.2⟩
  | returns ending stack =>
    cases hnext
    exact sound_resumed h.1 h.2

/-- So does the whole way of the machine. -/
theorem Config.Sound.leads {c c' : Config α} (h : c.Sound limits)
    (hleads : Leads limits host c c') : c'.Sound limits := by
  induction hleads with
  | refl => exact h
  | tail _ hnext ih => exact ih.next hnext

theorem Config.Sound.depth_eq {c : Config α} (h : c.Sound limits) :
    c.state.depth = c.activations := by
  cases c with
  | outside d => exact h.state_depth
  | calls levels ls s stack => exact h.1
  | goes levels todo s stack => exact h.1
  | talks levels d stack => exact h.1.state_depth
  | returns ending stack => exact h.1

theorem Config.Sound.activations_le {c : Config α} (h : c.Sound limits) (hc : 0 < c.activations) :
    (c.activations : Int) ≤ limits.maxNestingDepth := by
  have hstack : ∀ stack : Stack α, stack.Sound limits → 0 < stack.frames.length →
      (stack.frames.length : Int) ≤ limits.maxNestingDepth := by
    rintro ⟨frames, resume⟩ ⟨hframes, -⟩ hlength
    cases frames with
    | nil => cases hlength
    | cons frame frames => exact hframes.1
  cases c with
  | outside d => cases hc
  | calls levels ls s stack => exact hstack stack h.2 hc
  | goes levels todo s stack => exact h.2.1
  | talks levels d stack => exact h.2.1
  | returns ending stack => exact hstack stack h.2 hc

end Machine

/-- With so many levels below it, all that is executed leaves the count as it was, with a value or with
a fault. -/
structure Engine.Restores (limits : Limits) (levels : Nat) : Prop where
  evaluate : ∀ text s, (((tower limits levels 0).evaluate text).after s).depth = s.depth
  evaluateNode : ∀ text e s, (((tower limits levels 0).evaluateNode text e).after s).depth = s.depth
  runLines : ∀ ls s, (((tower limits levels 0).runLines ls).after s).depth = s.depth
  call : ∀ f arguments s, (((tower limits levels 0).call f arguments).after s).depth = s.depth

theorem Engine.restores (limits : Limits) (levels : Nat) : Engine.Restores limits levels where
  evaluate text s := ((tower_acts binds_anyName levels 0).evaluate text s).depth_eq
  evaluateNode text e s := ((tower_acts binds_anyName levels 0).evaluateNode text e s).depth_eq
  runLines ls s := ((tower_acts binds_anyName levels 0).runLines ls s).depth_eq
  call f arguments s := ((tower_acts binds_anyName levels 0).call f arguments s).depth_eq

/-! ## Steps of a session -/

namespace Session

open Machine (Config Host Leads plain)

/-- The script of a session when `answer` executes lines. -/
def scriptAsking (limits : Limits) (answer : Reentry) (source : Text) : Run Text := do
  requireLength limits source
  let lines := Source.cleanLines source
  if lines.isEmpty then return noOutput
  Run.mapFault leavingScript (answer Engine.startLevels lines)
  let output := (← get).output
  return if output.lines.isEmpty then noOutput else output.text

/-- What a step does to the state of a session when `answer` executes lines. -/
def asking (s : Session) (answer : Reentry) : Step → Run Unit
  | .run source => answer Engine.startLevels (Source.cleanLines source)
  | .evaluate expression => do
    let _ ← (Engine.asking s.limits answer Engine.startLevels 0).evaluate expression
    return ()
  | .bind target expression => do
    let v ← (Engine.asking s.limits answer Engine.startLevels 0).evaluate expression
    Execution.bindTarget (Engine.askingRoom s.limits answer Engine.startLevels) target v false
  | .execute source => do
    if s.isUsed then return ()
    let _ ← scriptAsking s.limits answer source
    return ()

theorem after_discard {α : Type} (x : Run α) (s : State) :
    Run.after (do let _ ← x; return ()) s = x.after s := by
  rw [Run.after_bind]
  unfold Run.after
  cases x s <;> rfl

/-- A step that the run answers does what the step does. -/
theorem after_asking (s : Session) (step : Step) :
    (s.asking (Engine.reentry s.limits) step).after s.state = (s.perform step).state := by
  cases step with
  | run source => exact (run_state s _).symm
  | evaluate expression =>
    unfold asking
    rw [after_discard, Engine.asking_tower]
    exact (run_state s _).symm
  | bind target expression =>
    unfold asking
    rw [Engine.asking_tower, Engine.askingRoom_tower]
    exact (run_state s _).symm
  | execute source =>
    show _ = (s.execute source).2.state
    rw [execute_state]
    simp only [asking]
    split
    · rfl
    · exact after_discard _ _

theorem converses_scriptAsking (limits : Limits) (source : Text) :
    Run.Converses fun answer => scriptAsking limits answer source := by
  refine Run.Converses.lift.bind fun _ => .ite (.pure _) ?_
  refine (Run.Converses.mapFault (.asks _ _)).bind fun _ => Run.Converses.get.bind fun _ => ?_
  exact .pure _

theorem converses_asking (s : Session) (step : Step) :
    Run.Converses fun answer => s.asking answer step := by
  have hengines := Engine.asking_converses s.limits Engine.startLevels
  cases step with
  | run source => exact .asks _ _
  | evaluate expression => exact ((hengines 0).evaluate expression).bind fun _ => .pure _
  | bind target expression =>
    exact ((hengines 0).evaluate expression).bind fun v => Execution.converses_bindTarget hengines
  | execute source =>
    exact .ite (.pure _) ((converses_scriptAsking s.limits source).bind fun _ => .pure _)

/-- The dialogue of a step with who executes lines. -/
noncomputable def dialogue (s : Session) (step : Step) : Dialogue Unit :=
  (converses_asking s step s.state).choose

theorem dialogue_keeps (s : Session) (step : Step) : (s.dialogue step).Keeps s.state.depth :=
  (converses_asking s step s.state).choose_spec.1

theorem dialogue_answered (s : Session) (step : Step) (answer : Reentry) :
    (s.dialogue step).answered answer = s.asking answer step s.state :=
  (converses_asking s step s.state).choose_spec.2 answer

theorem performAll_depth (limits : Limits) (clock : Moment) (seed : Nat) (steps : List Step) :
    ((initial limits clock seed).performAll steps).state.depth = 0 :=
  (performAll_effects (initial limits clock seed) steps).depth_eq

/-- The machine comes with a step to where the step ends. -/
theorem leads_perform (s : Session) (step : Step) :
    ∃ ending, Leads s.limits plain (.outside (s.dialogue step)) (.outside (.ends ending)) ∧
      Outcome.state ending = (s.perform step).state := by
  obtain ⟨answer, hanswer, htower⟩ := Machine.exists_answers Unit s.limits plain s.state.depth
  refine ⟨_, hanswer.outside (dialogue_keeps s step), ?_⟩
  rw [dialogue_answered, htower rfl]
  exact after_asking s step

/-- In a session, whatever steps have been taken and however they have ended: the next step begins with
nothing counted; at every place that it comes to, whatever room the host grants, the count is the
number of executions of lines in progress, and within the cap while there is any; the machine comes to
where the step ends; and all that is executed at any level of nesting, with a value or with a fault,
leaves the count as it found it. -/
theorem depth_exact (limits : Limits) (clock : Moment) (seed : Nat) (steps : List Step) :
    let s := (initial limits clock seed).performAll steps
    s.state.depth = 0 ∧
    (∀ step host (c : Config Unit), Leads limits host (.outside (s.dialogue step)) c →
      c.state.depth = c.activations ∧
        (0 < c.activations → (c.activations : Int) ≤ limits.maxNestingDepth)) ∧
    (∀ step, ∃ ending,
      Leads limits plain (.outside (s.dialogue step)) (.outside (.ends ending)) ∧
        Outcome.state ending = (s.perform step).state) ∧
    ∀ levels, Engine.Restores limits levels := by
  intro s
  have hdepth : s.state.depth = 0 := performAll_depth limits clock seed steps
  have hlimits : s.limits = limits := performAll_limits (initial limits clock seed) steps
  refine ⟨hdepth, fun step host c hleads => ?_, fun step => ?_, Engine.restores limits⟩
  · have hstart : Config.Sound limits (.outside (s.dialogue step)) := by
      show (s.dialogue step).Keeps 0
      rw [← hdepth]
      exact dialogue_keeps s step
    have hsound := hstart.leads hleads
    exact ⟨hsound.depth_eq, hsound.activations_le⟩
  · rw [← hlimits]
    exact leads_perform s step

end Session

end Scriptlet
