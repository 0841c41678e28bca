import Scriptlet.Execution
import Scriptlet.Proofs.Caps.Evaluation
import Scriptlet.Proofs.Kinds.Running
import Scriptlet.Session

/-
  Runs within a cap.

  What is proved:
    1. `Engine.guardedTower_follows` — runs under two guards are the same, or the first one stops with its
       alarm, when the first guard looks at what the cap leaves open and the second one accepts what fits.
    2. `Guard.PassesSource.of` — what a source passes under a guard that catches what does not fit, it
       passes under every guard that accepts what fits.
-/

namespace Scriptlet

open Run

namespace Execution

variable {cap : Cap} {text : Text} {limits : Limits} {v : Value}

/-! ## Imports -/

theorem stays_importName (line : Text) (l : Library) (name : Text) :
    Stays cap false text (importName line l name) fun _ => True := by
  have hmember : ∀ {name v}, l.toModule.find? name = some v →
      v.Fits cap ∨ (false = false ∧ v.IsConstant) :=
    fun hv => .inr ⟨rfl, l, _, mem_of_lookup hv⟩
  unfold importName
  refine .ite (fun _ => ?_) fun _ => .ite (fun _ => .throw) fun _ => ?_
  · refine Follows.bind (.forIn fun member _ _ => ?_) fun _ _ => .pure trivial
    have hgives : Gives (l.toModule.member member) fun v => l.toModule.find? member = some v := by
      unfold Module.member
      cases hfind : l.toModule.find? member with
      | none => exact .throw
      | some v => exact .pure rfl
    exact (Follows.lift hgives).bind fun v hv => (stays_bind member (hmember hv)).bind fun _ _ =>
      .pure trivial
  · cases hfind : l.toModule.find? name with
    | some v => exact stays_bind name (hmember hfind)
    | none => exact .throw

theorem stays_loopItems {items : Text} (hv : v.Fits cap) :
    Stays cap false text (loopItems items v) fun values => ∀ v ∈ values, v.Fits cap := by
  unfold loopItems
  refine Follows.get.bind fun s hs => Follows.liftAny.bind fun _ _ => ?_
  cases v with
  | list r => exact .pure (hs.heap.list r hv).each
  | tuple r => exact .pure (hs.heap.tuple r).each
  | _ => exact .throw

theorem stays_distribute {levels count : Nat} (hv : v.Fits cap) :
    Stays cap false text (distribute levels count v) fun values => ∀ v ∈ values, v.Fits cap :=
  .ite (fun _ => (Follows.look fun _ hh => hh.unpack levels count hv).mono fun _ h => h.each) fun _ =>
    .pure (List.forall_mem_singleton.mpr hv)

section

variable {below other : Nat → Engine} {n : Nat}
  (hbelow : ∀ k, Engine.Follows cap text (below k) (other k))

include hbelow

/-! ## Statements -/

theorem follows_bindTarget {target : Text} {isAugmented : Bool} (hv : v.Fits cap) :
    Run.Follows cap false text (bindTarget ⟨below, n⟩ target v isAugmented)
      (bindTarget ⟨other, n⟩ target v isAugmented) fun _ => True := by
  unfold bindTarget
  cases Evaluation.read n target with
  | error fault => cases fault <;> exact .throwBind
  | ok e =>
    have hassign : ∀ item {v}, v.Fits cap → Run.Follows cap false text
        (Evaluation.assign (below 4) target.trim item v)
        (Evaluation.assign (other 4) target.trim item v) fun _ => True :=
      fun item v hv => Evaluation.follows_assign hbelow hv
    have hread : Stays cap false text (pure e : Run Expr) fun _ => True := .pure trivial
    refine hread.bind fun e _ => ?_
    cases e with
    | tuple span items =>
      refine .ite (fun _ => .throwBind) fun _ => ?_
      refine (Follows.look fun h hh => hh.unpack _ items.length hv).bind fun values hvalues => ?_
      refine Follows.bind (.forIn fun p hp _ => ?_) fun _ _ => .pure trivial
      exact (hassign p.1 (hvalues.each _ (List.of_mem_zip hp).2)).bind fun _ _ => .pure trivial
    | _ => exact hassign _ hv

theorem follows_assignment {target operator expression : Text} :
    Run.Follows cap false text (assignment ⟨below, n⟩ target operator expression)
      (assignment ⟨other, n⟩ target operator expression) fun _ => True := by
  refine .ite (fun _ => .throwBind) fun _ => ?_
  exact ((hbelow 2).evaluate _).follows.bind fun v hv => follows_bindTarget hbelow hv

theorem follows_echo {source : Text} :
    Run.Follows cap false text (echo limits ⟨below, n⟩ source) (echo limits ⟨other, n⟩ source)
      fun _ => True := by
  refine ((hbelow 1).evaluate source).follows.bind fun v _ => .ite (fun _ => ?_) fun _ => .pure trivial
  exact Follows.lookAny.bind fun line _ => stays_write limits line

theorem follows_statement {line : Text} {s : Statement} :
    Run.Follows cap false text (statement limits ⟨below, n⟩ line s) (statement limits ⟨other, n⟩ line s)
      fun _ => True := by
  cases s with
  | pass => exact .pure trivial
  | importModule module => exact Follows.liftAny.bind fun l _ => stays_bind module (.inl trivial)
  | importNames module names =>
    refine Follows.liftAny.bind fun l _ => ?_
    refine Follows.bind (.forIn fun name _ _ => ?_) fun _ _ => .pure trivial
    exact (stays_importName line l name).bind fun _ _ => .pure trivial
  | assign target operator expression => exact follows_assignment hbelow
  | expression source => exact follows_echo hbelow

/-! ## Blocks -/

theorem follows_forEach {targets : List Text} {items : Text} {body : List Text} :
    Run.Follows cap false text (forEach ⟨below, n⟩ targets items body)
      (forEach ⟨other, n⟩ targets items body) fun _ => True := by
  refine ((hbelow 1).evaluate items).follows.bind fun v hv => ?_
  refine (stays_loopItems hv).bind fun elements helements => ?_
  refine Follows.bind (.forIn fun item hitem _ => ?_) fun _ _ => .pure trivial
  refine (stays_distribute (helements item hitem)).bind fun values hvalues => ?_
  refine Follows.bind (.forIn fun p hp _ => ?_) fun _ _ => ?_
  · exact (stays_bind p.1 (.inl (hvalues _ (List.of_mem_zip hp).2))).bind fun _ _ => .pure trivial
  · exact ((hbelow 1).runLines body).follows.bind fun _ _ => .pure trivial

theorem follows_holds {condition : Text} :
    Run.Follows cap false text (holds ⟨below, n⟩ condition) (holds ⟨other, n⟩ condition)
      fun _ => True :=
  ((hbelow 1).evaluate condition).follows.bind fun _ _ => .lookAny

theorem follows_whileTrue {condition : Text} {body : List Text} {times : Nat} :
    Run.Follows cap false text (whileTrue ⟨below, n⟩ condition body times)
      (whileTrue ⟨other, n⟩ condition body times) fun _ => True := by
  induction times with
  | zero =>
    unfold whileTrue
    exact (follows_holds hbelow).bind fun _ _ => .ite (fun _ => .throw) fun _ => .pure trivial
  | succ times ih =>
    unfold whileTrue
    refine (follows_holds hbelow).bind fun _ _ => .ite (fun _ => ?_) fun _ => .pure trivial
    exact ((hbelow 1).runLines body).follows.bind fun _ _ => ih

theorem follows_header {h : Header} {body : List Text} :
    Run.Follows cap false text (header ⟨below, n⟩ h body) (header ⟨other, n⟩ h body)
      fun _ => True := by
  cases h with
  | forEach targets items => exact follows_forEach hbelow
  | onlyIf condition =>
    refine (follows_holds hbelow).bind fun _ _ => .ite (fun _ => ?_) fun _ => .pure trivial
    exact ((hbelow 1).runLines body).follows
  | whileTrue condition => exact follows_whileTrue hbelow

theorem follows_sequence {ls : List Text} :
    Run.Follows cap false text (sequence limits ⟨below, n⟩ ls) (sequence limits ⟨other, n⟩ ls)
      fun _ => True := by
  induction hlength : ls.length using Nat.strongRecOn generalizing ls with
  | ind length ih =>
    subst hlength
    cases ls with
    | nil =>
      unfold sequence
      exact .pure trivial
    | cons line rest =>
      unfold sequence
      refine Follows.liftAny.bind fun l _ => ?_
      cases l with
      | statement s =>
        exact (follows_statement hbelow).bind fun _ _ => ih rest.length (by simp) rfl
      | header h =>
        exact (follows_header hbelow).bind fun _ _ => ih _ (length_drop_lt line rest _) rfl

theorem follows_block {ls : List Text} :
    Run.Follows cap false text (block limits ⟨below, n⟩ ls) (block limits ⟨other, n⟩ ls)
      fun _ => True := by
  refine Follows.bind (.modify fun s hs => ⟨hs.vars, hs.heap⟩) fun _ _ => ?_
  refine .thenAlways ?_
  refine Follows.get.bind fun s _ => .ite (fun _ => .throwBind) fun _ => ?_
  exact follows_sequence hbelow

end

end Execution

/-! ## Guarded runs -/

/-- The guard finds something wrong where something does not fit that the cap leaves open. -/
structure Guard.Catches (g : Guard) (limits : Limits) (cap : Cap) : Prop where
  strict : ∀ {job event s}, s.Fits cap false → g job event s → s.Fits cap true
  opened : ∀ {job event s}, job.IsOpen limits cap → event ≠ .begins → g job event s →
    Guard.fits cap job event s

/-- The guard finds nothing wrong where all fits. -/
def Guard.Accepts (g : Guard) (cap : Cap) : Prop :=
  ∀ job event s, Guard.fits cap job event s → g job event s

section

variable {α : Type} {cap : Cap} {strict : Bool} {text text' : Text} {g g' : Guard} {limits : Limits}
  {job : Job} {good : α → Prop} {ends : α → Event}

/-- What the guard lets pass of a result is good and fits. -/
def Run.Caught (cap : Cap) (g : Guard) (job : Job) (ends : α → Event) (good : α → Prop) :
    EStateM.Result Fault State α → Prop
  | .ok a t => g job (ends a) t → t.Fits cap true ∧ good a
  | .error _ t => g job .stopped t → t.Fits cap true

/-- A step that leaves what fits, at least loosely, is caught by the guard where it does not fit. -/
theorem Run.Leaves.caught {result : EStateM.Result Fault State α} (hcatches : g.Catches limits cap)
    (h : Run.Leaves cap strict good result) : Run.Caught cap g job ends good result := by
  cases result with
  | ok a t => exact fun hg => ⟨hcatches.strict h.1.loose hg, h.2⟩
  | error fault t => exact fun hg => hcatches.strict (State.Fits.loose h) hg

/-- What the cap leaves open is looked at by the guard. -/
theorem Guard.Catches.caught (hcatches : g.Catches limits cap) (hopen : job.IsOpen limits cap)
    (hends : ∀ a, ends a ≠ .begins)
    (hgood : ∀ a, (∀ v, (ends a).value? = some v → v.Fits cap) → good a)
    (result : EStateM.Result Fault State α) : Run.Caught cap g job ends good result := by
  cases result with
  | ok a t =>
    intro hg
    obtain ⟨ht, hvalue⟩ := hcatches.opened hopen (hends a) hg
    exact ⟨ht, hgood a hvalue⟩
  | error fault t => exact fun hg => (hcatches.opened hopen Event.noConfusion hg).1

/-- From a state that fits strictly the first step stops with the alarm, or both steps do the same and
the guard catches what does not fit. -/
def Run.Complies (cap : Cap) (g : Guard) (text : Text) (job : Job) (ends : α → Event) (good : α → Prop)
    (x y : Run α) : Prop :=
  ∀ s, s.Fits cap true → (∃ t, x s = .error (alarm text) t) ∨
    (y s = x s ∧ Run.Caught cap g job ends good (x s))

theorem Run.Follows.complies {x y : Run α} (h : Run.Follows cap strict text x y good)
    (hcatches : g.Catches limits cap) : Run.Complies cap g text job ends good x y :=
  fun s hs => (h s hs.ofStrict).imp_right fun ⟨hsame, hleaves⟩ => ⟨hsame, hleaves.caught hcatches⟩

theorem Run.Agrees.complies {x y : Run α} (h : Run.Agrees cap true text x y)
    (hcatches : g.Catches limits cap) (hopen : job.IsOpen limits cap) (hends : ∀ a, ends a ≠ .begins)
    (hgood : ∀ a, (∀ v, (ends a).value? = some v → v.Fits cap) → good a) :
    Run.Complies cap g text job ends good x y :=
  fun s hs => (h s hs).imp_right fun hsame => ⟨hsame, hcatches.caught hopen hends hgood _⟩

/-- A step that is guarded in two ways. -/
theorem Run.Complies.watched {x y : Run α} (h : Run.Complies cap g text job ends good x y)
    (hcatches : g.Catches limits cap) (haccepts : g'.Accepts cap)
    (hvalue : ∀ a v, good a → (ends a).value? = some v → v.Fits cap) :
    Run.Settles cap text (x.watched (g job) text ends) (y.watched (g' job) text' ends) good := by
  intro s hs
  unfold Run.watched
  by_cases hg : g job .begins s
  · have hstrict : s.Fits cap true := hcatches.strict hs hg
    have hbegins : g' job .begins s :=
      haccepts job .begins s ⟨hstrict, fun v hv => by cases hv⟩
    simp only [hg, hbegins, if_true]
    rcases h s hstrict with ⟨t, halarm⟩ | ⟨hsame, hcaught⟩
    · refine .inl ⟨t, ?_⟩
      rw [halarm]
      simp only
      split <;> rfl
    · rw [hsame]
      cases hx : x s with
      | ok a t =>
        rw [hx] at hcaught
        by_cases hga : g job (ends a) t
        · obtain ⟨ht, hgood⟩ := hcaught hga
          have hga' : g' job (ends a) t :=
            haccepts _ _ t ⟨ht, fun v hv => hvalue a v hgood hv⟩
          simp only [hga, hga', if_true]
          exact .inr ⟨trivial, ht, hgood⟩
        · simp only [hga, if_false]
          exact .inl ⟨t, rfl⟩
      | error fault t =>
        rw [hx] at hcaught
        by_cases hgs : g job .stopped t
        · have ht : t.Fits cap true := hcaught hgs
          have hgs' : g' job .stopped t := haccepts job .stopped t ⟨ht, fun v hv => by cases hv⟩
          simp only [hgs, hgs', if_true]
          exact .inr ⟨trivial, ht⟩
        · simp only [hgs, if_false]
          exact .inl ⟨t, rfl⟩
  · simp only [hg, if_false]
    exact .inl ⟨s, rfl⟩

/-- What the guard has to catch in engines. -/
structure Engine.Complies (cap : Cap) (g : Guard) (text : Text) (engine other : Engine) : Prop where
  evaluate : ∀ source, Run.Complies cap g text .text .evaluated (Value.Fits cap)
    (engine.evaluate source) (other.evaluate source)
  evaluateNode : ∀ source e, Run.Complies cap g text (.node e) .found (Value.Fits cap)
    (engine.evaluateNode source e) (other.evaluateNode source e)
  runLines : ∀ ls, Run.Complies cap g text .block (fun _ => .executed) (fun _ => True)
    (engine.runLines ls) (other.runLines ls)
  call : ∀ f {arguments}, arguments.Fit cap → Run.Complies cap g text (.call f arguments) (.called f)
    (Value.Fits cap) (engine.call f arguments) (other.call f arguments)

theorem Engine.Complies.guarded {engine other : Engine} (h : Engine.Complies cap g text engine other)
    (hcatches : g.Catches limits cap) (haccepts : g'.Accepts cap) :
    Engine.Follows cap text (engine.guarded g text) (other.guarded g' text') where
  evaluate source := (h.evaluate source).watched hcatches haccepts fun a v ha hv => by
    cases hv
    exact ha
  evaluateNode source e := (h.evaluateNode source e).watched hcatches haccepts fun a v ha hv => by
    cases hv
    exact ha
  runLines ls := (h.runLines ls).watched hcatches haccepts fun a v _ hv => by cases hv
  call f _ harguments := (h.call f harguments).watched hcatches haccepts fun a v ha hv => by
    cases hv
    exact ha

/-- One more engine on a stack. -/
theorem Engine.step_complies {below other : Nat → Engine} {n : Nat} (hcap : cap.IsOf limits)
    (hbelow : ∀ k, Engine.Follows cap text (below k) (other k)) (hcatches : g.Catches limits cap) :
    Engine.Complies cap g text (step limits ⟨below, n⟩) (step limits ⟨other, n⟩) where
  evaluate source := (Evaluation.follows_evaluate hbelow).complies hcatches
  evaluateNode source e := by
    by_cases hopen : Job.IsOpen limits (.node e) cap
    · exact (Evaluation.agrees_node hbelow hopen).complies hcatches hopen (fun _ => Event.noConfusion)
        fun a ha => ha a rfl
    · exact (Evaluation.follows_node hbelow hcap hopen).complies hcatches
  runLines ls := (Execution.follows_block hbelow).complies hcatches
  call f arguments harguments := by
    by_cases hopen : Job.IsOpen limits (.call f arguments) cap
    · have hsame : Run.Agrees cap true text (Call.function limits ⟨below, n⟩ f arguments)
          (Call.function limits ⟨other, n⟩ f arguments) :=
        fun s _ => .inr (congrFun (Call.function_same hopen) s)
      exact hsame.complies hcatches hopen (fun _ => Event.noConfusion) fun a ha => ha a rfl
    · exact (Call.follows_function hbelow hcap hopen harguments).complies hcatches

/-- Without room there is nothing to catch. -/
theorem Engine.exhausted_complies : Engine.Complies cap g text exhausted exhausted where
  evaluate _ := fun _ hs => .inr ⟨rfl, fun _ => hs⟩
  evaluateNode _ _ := fun _ hs => .inr ⟨rfl, fun _ => hs⟩
  runLines _ := fun _ hs => .inr ⟨rfl, fun _ => hs⟩
  call _ _ _ := fun _ hs => .inr ⟨rfl, fun _ => hs⟩

theorem Engine.guardedTower_follows (hcap : cap.IsOf limits) (hcatches : g.Catches limits cap)
    (haccepts : g'.Accepts cap) (n k : Nat) :
    Engine.Follows cap text (guardedTower g text limits n k) (guardedTower g' text' limits n k) := by
  induction n generalizing k with
  | zero => exact exhausted_complies.guarded hcatches haccepts
  | succ n ih =>
    cases k with
    | zero => exact (step_complies hcap ih hcatches).guarded hcatches haccepts
    | succ k => exact ih k

end

/-! ## What the guards let pass -/

/-- What a run of the source leaves the variable bound to. -/
def Execution.leaves? (limits : Limits) (source : Text) (s : State) (name : Text) : Option Value :=
  match (Engine.start limits).runLines (Source.cleanLines source) s with
  | .ok _ t => t.vars.find? name
  | .error _ _ => none

section

variable {cap : Cap} {strict : Bool} {limits : Limits} {s t : State} {h heap : Heap} {v w : Value}

theorem State.Fits.initial (hcap : cap.IsOf limits) (clock : Moment) (seed : Nat) :
    (State.initial clock seed).Fits cap strict :=
  ⟨fun _ hp => absurd hp List.not_mem_nil, .initial hcap⟩

theorem State.Fits.isClear (hs : s.Fits cap true) : s.IsClear cap := by
  refine ⟨fun p hp _ => ?_, hs.heap.dictSize rfl⟩
  rcases hs.vars p hp with hv | ⟨hstrict, -⟩
  · exact hv
  · cases hstrict

/-- A loose fit that is clear is a strict one. -/
theorem State.IsClear.fits (hclear : s.IsClear cap) (hs : s.Fits cap strict) : s.Fits cap true := by
  refine ⟨fun p hp => .inl ?_, { hs.heap with dictSize := fun _ => hclear.dicts }⟩
  rcases hs.vars p hp with hv | ⟨-, hconstant⟩
  · exact hv
  · exact hclear.constants p hp hconstant

/-- What a value that fits holds fits too. -/
theorem Heap.Fits.holds (hh : h.Fits cap strict) (hv : v.Fits cap) (hw : h.Holds v w) :
    w.Fits cap := by
  induction hw with
  | self => exact hv
  | item hmem _ ih => exact ih ((hh.list _ hv).each _ hmem)
  | element hmem _ ih => exact ih ((hh.tuple _).each _ hmem)
  | key hmem _ ih => exact ih (hh.dict _ _ (Array.mem_toList_iff.mp hmem)).1
  | value hmem _ ih => exact ih (hh.dict _ _ (Array.mem_toList_iff.mp hmem)).2
  | member hmem _ ih => exact ih ((hh.set _).each _ (Array.mem_toList_iff.mp hmem))

theorem Heap.Fits.admits (hcap : cap.IsOf limits) (hh : h.Fits cap true) (hv : v.Fits cap) :
    h.Admits cap v := by
  cases v with
  | int n =>
    refine ⟨fun m hm => ?_, hcap.admitsSize_zero⟩
    cases hm
    exact hv
  | text t => exact ⟨fun _ hn => Value.noConfusion hn, hv⟩
  | list r => exact ⟨fun _ hn => Value.noConfusion hn, (hh.list r hv).size⟩
  | tuple r => exact ⟨fun _ hn => Value.noConfusion hn, (hh.tuple r).size⟩
  | dict r => exact ⟨fun _ hn => Value.noConfusion hn, hh.dictSize rfl r⟩
  | set r => exact ⟨fun _ hn => Value.noConfusion hn, (hh.set r).size⟩
  | _ => exact ⟨fun _ hn => Value.noConfusion hn, hcap.admitsSize_zero⟩

theorem State.Fits.respects (hcap : cap.IsOf limits) (hs : s.Fits cap true) : s.Respects cap :=
  fun _ _ hv _ hw => hs.heap.admits hcap (hs.heap.holds (hs.find? hv) hw)

namespace Guard

theorem fits_catches : (fits cap).Catches limits cap where
  strict _ hg := hg.1
  opened _ _ hg := hg

theorem growth_catches : (growth limits cap).Catches limits cap where
  strict hs hg := hg.1.fits hs
  opened hopen hevent hg := hg.2 hopen hevent

theorem growth_accepts : (growth limits cap).Accepts cap :=
  fun _ _ _ hg => ⟨hg.1.isClear, fun _ _ => hg⟩

theorem fits_accepts : (fits cap).Accepts cap := fun _ _ _ h => h

theorem bindings_accepts (hcap : cap.IsOf limits) : (bindings cap).Accepts cap :=
  fun _ _ _ hg => hg.1.respects hcap

variable {g g' : Guard} {ls : List Text}

theorem Passes.of (hcap : cap.IsOf limits) (hcatches : g.Catches limits cap) (haccepts : g'.Accepts cap)
    (hs : s.Fits cap false) (h : g.Passes limits ls s) : g'.Passes limits ls s := by
  intro text'
  obtain ⟨text, htext⟩ := Watch.exists_alarm_ne ((Engine.start limits).runLines ls s)
  have hfollows : Engine.Follows cap text (Engine.guardedTower g text limits Engine.startLevels 0)
      (Engine.guardedTower g' text' limits Engine.startLevels 0) :=
    Engine.guardedTower_follows hcap hcatches haccepts Engine.startLevels 0
  rcases hfollows.runLines ls s hs with ⟨t, halarm⟩ | ⟨hsame, -⟩
  · exact absurd ((h text).symm.trans halarm) (htext t)
  · exact hsame.trans (h text)

/-- A source that is run is not empty, so that some source is within the limits. -/
theorem PassesSource.of {source : Text} (hcap : 0 < limits.maxSourceLength → cap.IsOf limits)
    (hcatches : g.Catches limits cap) (haccepts : cap.IsOf limits → g'.Accepts cap)
    {clock : Moment} {seed : Nat}
    (h : g.PassesSource limits source (.initial clock seed)) :
    g'.PassesSource limits source (.initial clock seed) := by
  intro hlength hlines
  have hsource : source ≠ [] := by
    rintro rfl
    exact hlines rfl
  have hpos := List.length_pos_iff.mpr hsource
  have hof := hcap (by omega)
  exact Passes.of hof hcatches (haccepts hof) (.initial hof clock seed) (h hlength hlines)

/-- What has to be so is so where the lines have been executed. -/
theorem Passes.executed (h : g.Passes limits ls s)
    (hrun : (Engine.start limits).runLines ls s = .ok () t) : g .block .executed t := by
  have hwatched : Run.watched (g .block) "" (fun _ => .executed)
      (Execution.block limits ⟨Engine.guardedTower g "" limits 959, 959⟩ ls) s = .ok () t :=
    (h "").trans hrun
  exact Run.watched_ok hwatched

/-- No source passes that leaves a variable bound to a value beyond the cap. -/
theorem not_passesSource {source name : Text} (hlength : source.length ≤ limits.maxSourceLength)
    (hlines : Source.cleanLines source ≠ []) (hv : Execution.leaves? limits source s name = some v)
    (hexceeds : ∀ h : Heap, ¬ h.Admits cap v) : ¬ (bindings cap).PassesSource limits source s := by
  intro h
  unfold Execution.leaves? at hv
  cases hrun : (Engine.start limits).runLines (Source.cleanLines source) s with
  | ok u t =>
    rw [hrun] at hv
    exact hexceeds t.heap (Passes.executed (h hlength hlines) hrun name v hv v .self)
  | error fault t =>
    rw [hrun] at hv
    cases hv

end Guard

end

end Scriptlet
