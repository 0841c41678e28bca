import Scriptlet.Execution
import Scriptlet.Proofs.Kinds.Evaluation
import Scriptlet.Session

/-
  Runs without values that have no kind.

  What is proved:
    1. `Engine.watchedTower_tracks` — runs under two watches are the same, or the first one stops with
       its alarm, when the first watch looks at powers and the second one accepts values with kinds.
    2. `Watch.passes_values_iff` — all values that come up and all that is bound have kinds, at every
       point of a run, just when no power in it is without a kind.
-/

namespace Scriptlet

open Run

namespace Execution

variable {text : Text} {limits : Limits} {v : Value}

/-! ## Imports -/

theorem keeps_importName (line : Text) (l : Library) (name : Text) :
    Keeps text (importName line l name) fun _ => True := by
  have hmember : ∀ name v, l.toModule.find? name = some v → v.HasKind :=
    fun name v hv => Library.members_haveKinds l _ (mem_of_lookup hv)
  unfold importName
  refine .ite (fun _ => ?_) fun _ => .ite (fun _ => .throw) fun _ => ?_
  · refine Tracks.bind (.forIn fun member _ _ => ?_) fun _ _ => .pure trivial
    have hgives : Gives (l.toModule.member member) Value.HasKind := by
      unfold Module.member
      cases hfind : l.toModule.find? member with
      | none => exact .throw
      | some v => exact .pure (hmember member v hfind)
    exact (Tracks.lift hgives).bind fun v hv => (keeps_bind member hv).bind fun _ _ => .pure trivial
  · cases hfind : l.toModule.find? name with
    | some v => exact keeps_bind name (hmember name v hfind)
    | none => exact .throw

theorem keeps_loopItems {items : Text} :
    Keeps text (loopItems items v) fun values => ∀ v ∈ values, v.HasKind := by
  unfold loopItems
  refine Tracks.get.bind fun s hs => Tracks.liftAny.bind fun _ _ => ?_
  cases v with
  | list r => exact .pure fun v hv => hs.heap.list r v (Array.mem_toList_iff.mp hv)
  | tuple r => exact .pure fun v hv => hs.heap.tuple r v (Array.mem_toList_iff.mp hv)
  | _ => exact .throw

theorem keeps_distribute {levels count : Nat} (hv : v.HasKind) :
    Keeps text (distribute levels count v) fun values => ∀ v ∈ values, v.HasKind :=
  .ite (fun _ => .look fun _ hh => hh.unpack levels count) fun _ =>
    .pure (List.forall_mem_singleton.mpr hv)

section

variable {below other : Nat → Engine} {n : Nat}
  (hbelow : ∀ k, Engine.Tracks text (below k) (other k))

include hbelow

/-! ## Statements -/

theorem tracks_bindTarget {target : Text} {isAugmented : Bool} (hv : v.HasKind) :
    Run.Tracks text (bindTarget ⟨below, n⟩ target v isAugmented)
      (bindTarget ⟨other, n⟩ target v isAugmented) fun _ => True := by
  unfold bindTarget
  cases Evaluation.read n target with
  | error fault => cases fault <;> exact .throwBind
  | ok e =>
    have hassign : ∀ item {v}, v.HasKind → Run.Tracks text
        (Evaluation.assign (below 4) target.trim item v)
        (Evaluation.assign (other 4) target.trim item v) fun _ => True :=
      fun item v hv => Evaluation.tracks_assign hbelow hv
    have hread : Keeps text (pure e : Run Expr) fun _ => True := .pure trivial
    refine hread.bind fun e _ => ?_
    cases e with
    | tuple span items =>
      refine .ite (fun _ => .throwBind) fun _ => ?_
      refine (Tracks.look fun h hh => hh.unpack _ items.length).bind fun values hvalues => ?_
      refine Tracks.bind (.forIn fun p hp _ => ?_) fun _ _ => .pure trivial
      exact (hassign p.1 (hvalues _ (List.of_mem_zip hp).2)).bind fun _ _ => .pure trivial
    | _ => exact hassign _ hv

theorem tracks_assignment {target operator expression : Text} :
    Run.Tracks text (assignment ⟨below, n⟩ target operator expression)
      (assignment ⟨other, n⟩ target operator expression) fun _ => True := by
  refine .ite (fun _ => .throwBind) fun _ => ?_
  exact ((hbelow 2).evaluate _).bind fun v hv => tracks_bindTarget hbelow hv

theorem tracks_echo {source : Text} :
    Run.Tracks text (echo limits ⟨below, n⟩ source) (echo limits ⟨other, n⟩ source)
      fun _ => True := by
  refine ((hbelow 1).evaluate source).bind fun v _ => .ite (fun _ => ?_) fun _ => .pure trivial
  exact Tracks.lookAny.bind fun line _ => keeps_write limits line

theorem tracks_statement {line : Text} {s : Statement} :
    Run.Tracks text (statement limits ⟨below, n⟩ line s) (statement limits ⟨other, n⟩ line s)
      fun _ => True := by
  cases s with
  | pass => exact .pure trivial
  | importModule module => exact Tracks.liftAny.bind fun l _ => keeps_bind module rfl
  | importNames module names =>
    refine Tracks.liftAny.bind fun l _ => ?_
    refine Tracks.bind (.forIn fun name _ _ => ?_) fun _ _ => .pure trivial
    exact (keeps_importName line l name).bind fun _ _ => .pure trivial
  | assign target operator expression => exact tracks_assignment hbelow
  | expression source => exact tracks_echo hbelow

/-! ## Blocks -/

theorem tracks_forEach {targets : List Text} {items : Text} {body : List Text} :
    Run.Tracks text (forEach ⟨below, n⟩ targets items body) (forEach ⟨other, n⟩ targets items body)
      fun _ => True := by
  refine ((hbelow 1).evaluate items).bind fun v _ => ?_
  refine keeps_loopItems.bind fun elements helements => ?_
  refine Tracks.bind (.forIn fun item hitem _ => ?_) fun _ _ => .pure trivial
  refine (keeps_distribute (helements item hitem)).bind fun values hvalues => ?_
  refine Tracks.bind (.forIn fun p hp _ => ?_) fun _ _ => ?_
  · exact (keeps_bind p.1 (hvalues _ (List.of_mem_zip hp).2)).bind fun _ _ => .pure trivial
  · exact ((hbelow 1).runLines body).bind fun _ _ => .pure trivial

theorem tracks_holds {condition : Text} :
    Run.Tracks text (holds ⟨below, n⟩ condition) (holds ⟨other, n⟩ condition) fun _ => True :=
  ((hbelow 1).evaluate condition).bind fun _ _ => .lookAny

theorem tracks_whileTrue {condition : Text} {body : List Text} {times : Nat} :
    Run.Tracks text (whileTrue ⟨below, n⟩ condition body times)
      (whileTrue ⟨other, n⟩ condition body times) fun _ => True := by
  induction times with
  | zero =>
    unfold whileTrue
    exact (tracks_holds hbelow).bind fun _ _ => .ite (fun _ => .throw) fun _ => .pure trivial
  | succ times ih =>
    unfold whileTrue
    refine (tracks_holds hbelow).bind fun _ _ => .ite (fun _ => ?_) fun _ => .pure trivial
    exact ((hbelow 1).runLines body).bind fun _ _ => ih

theorem tracks_header {h : Header} {body : List Text} :
    Run.Tracks text (header ⟨below, n⟩ h body) (header ⟨other, n⟩ h body) fun _ => True := by
  cases h with
  | forEach targets items => exact tracks_forEach hbelow
  | onlyIf condition =>
    refine (tracks_holds hbelow).bind fun _ _ => .ite (fun _ => ?_) fun _ => .pure trivial
    exact (hbelow 1).runLines body
  | whileTrue condition => exact tracks_whileTrue hbelow

theorem tracks_sequence {ls : List Text} :
    Run.Tracks text (sequence limits ⟨below, n⟩ ls) (sequence limits ⟨other, n⟩ ls)
      fun _ => True := by
  induction hlength : ls.length using Nat.strongRecOn generalizing ls with
  | ind length ih =>
    subst hlength
    cases ls with
    | nil =>
      unfold sequence
      exact .pure trivial
    | cons line rest =>
      unfold sequence
      refine Tracks.liftAny.bind fun l _ => ?_
      cases l with
      | statement s =>
        exact (tracks_statement hbelow).bind fun _ _ => ih rest.length (by simp) rfl
      | header h =>
        exact (tracks_header hbelow).bind fun _ _ => ih _ (length_drop_lt line rest _) rfl

theorem tracks_block {ls : List Text} :
    Run.Tracks text (block limits ⟨below, n⟩ ls) (block limits ⟨other, n⟩ ls) fun _ => True := by
  refine Tracks.bind (.modify fun s hs => ⟨hs.vars, hs.heap⟩) fun _ _ => ?_
  refine .thenAlways (fun s hs => ⟨hs.vars, hs.heap⟩) ?_
  refine Tracks.get.bind fun s _ => .ite (fun _ => .throwBind) fun _ => ?_
  exact tracks_sequence hbelow

end

end Execution

/-! ## Watched runs -/

/-- What has to be so is so where a watched step has ended. -/
theorem Run.watched_ok {α : Type} {w : Watch} {text : Text} {ends : α → Event} {x : Run α} {s t : State}
    {a : α} (h : x.watched w text ends s = .ok a t) : w (ends a) t := by
  unfold Run.watched at h
  split at h
  · split at h
    · split at h
      · rename_i hends
        cases h
        exact hends
      · cases h
    · split at h <;> cases h
  · cases h

/-- The watch finds something wrong where a power is without a kind. -/
def Watch.Catches (w : Watch) : Prop :=
  ∀ v s, w (.called (.builtin .pow) v) s → v.HasKind

/-- The watch finds nothing wrong as long as all values have kinds. -/
def Watch.Accepts (w : Watch) : Prop :=
  ∀ event s, s.HasKinds → (∀ v, event.value? = some v → v.HasKind) → w event s

section

variable {α : Type} {text text' : Text} {w w' : Watch} {limits : Limits}

/-- A step that is watched in two ways. What the first watch lets pass has to be good. -/
theorem Run.Tracks.watched {x y : Run α} {ends : α → Event} {nearly good : α → Prop}
    (h : Run.Tracks text x y nearly) (haccepts : w'.Accepts)
    (hgood : ∀ a s, nearly a → w (ends a) s → good a)
    (hvalue : ∀ a v, good a → (ends a).value? = some v → v.HasKind) :
    Run.Tracks text (x.watched w text ends) (y.watched w' text' ends) good := by
  intro s hs
  have hbegins : w' .begins s := haccepts .begins s hs fun v hv => by cases hv
  unfold Run.watched
  by_cases hw : w .begins s
  · simp only [hw, hbegins, if_true]
    rcases h s hs with ⟨t, halarm⟩ | ⟨hsame, hends⟩
    · refine .inl ⟨t, ?_⟩
      rw [halarm]
      simp only
      split <;> rfl
    · rw [hsame]
      cases hx : x s with
      | ok a t =>
        rw [hx] at hends
        obtain ⟨ht, hnearly⟩ := hends
        by_cases hwa : w (ends a) t
        · have hga := hgood a t hnearly hwa
          have hwa' : w' (ends a) t := haccepts _ t ht fun v hv => hvalue a v hga hv
          simp only [hwa, hwa', if_true]
          exact .inr ⟨trivial, ht, hga⟩
        · simp only [hwa, if_false]
          exact .inl ⟨t, rfl⟩
      | error fault t =>
        rw [hx] at hends
        have hstopped : w' .stopped t := haccepts .stopped t hends fun v hv => by cases hv
        by_cases hws : w .stopped t
        · simp only [hws, hstopped, if_true]
          exact .inr ⟨trivial, hends⟩
        · simp only [hws, if_false]
          exact .inl ⟨t, rfl⟩
  · simp only [hw, if_false]
    exact .inl ⟨s, rfl⟩

/-- One more engine on a stack. -/
theorem Engine.step_tracks {below other : Nat → Engine} {n : Nat}
    (hbelow : ∀ k, Engine.Tracks text (below k) (other k)) (hcatches : w.Catches)
    (haccepts : w'.Accepts) :
    Engine.Tracks text ((step limits ⟨below, n⟩).watched w text)
      ((step limits ⟨other, n⟩).watched w' text') where
  evaluate source := (Evaluation.tracks_evaluate hbelow).watched haccepts (fun _ _ hv _ => hv)
    fun v u hv hu => by cases hu; exact hv
  evaluateNode source e := (Evaluation.tracks_node hbelow).watched haccepts (fun _ _ hv _ => hv)
    fun v u hv hu => by cases hu; exact hv
  runLines ls := (Execution.tracks_block hbelow).watched haccepts (fun _ _ _ _ => trivial)
    fun _ u _ hu => by cases hu
  call f arguments harguments := by
    refine (Call.tracks_function hbelow harguments).watched haccepts (fun v s hv hw => ?_)
      fun v u hv hu => by cases hu; exact hv
    by_cases hf : f = .builtin .pow
    · subst hf
      exact hcatches v s hw
    · exact hv hf

theorem Engine.watchedTower_tracks (hcatches : w.Catches) (haccepts : w'.Accepts) (n k : Nat) :
    Engine.Tracks text (watchedTower w text limits n k) (watchedTower w' text' limits n k) := by
  induction n generalizing k with
  | zero => exact ⟨fun _ => .throw, fun _ _ => .throw, fun _ => .throw, fun _ _ _ => .throw⟩
  | succ n ih =>
    cases k with
    | zero => exact step_tracks ih hcatches haccepts
    | succ k => exact ih k

end

namespace Watch

variable {w w' : Watch} {limits : Limits} {ls : List Text} {s t : State} {v : Value}

/-! ## What the watches let pass -/

theorem powers_catches : powers.Catches := fun _ _ h => h

theorem powers_accepts : powers.Accepts := by
  intro event s _ hvalue
  unfold powers
  split
  · exact hvalue _ rfl
  · trivial

theorem values_catches : values.Catches := fun v _ h => h.2 v rfl v .self

end Watch

/-- Where all values have kinds, so has what they hold. -/
theorem Heap.HasKinds.holdsKinds {h : Heap} {v : Value} (hh : h.HasKinds) (hv : v.HasKind) :
    h.HoldsKinds v := by
  intro w hw
  induction hw with
  | self => exact hv
  | item hmem _ ih => exact ih (hh.list _ _ (Array.mem_toList_iff.mp hmem))
  | element hmem _ ih => exact ih (hh.tuple _ _ (Array.mem_toList_iff.mp hmem))
  | key hmem _ ih => exact ih (hh.dict _ _ (Array.mem_toList_iff.mp hmem)).1
  | value hmem _ ih => exact ih (hh.dict _ _ (Array.mem_toList_iff.mp hmem)).2
  | member hmem _ ih => exact ih (hh.set _ _ (Array.mem_toList_iff.mp hmem))

theorem State.HasKinds.bindsKinds {s : State} (hs : s.HasKinds) : s.BindsKinds :=
  fun _ _ hv => hs.heap.holdsKinds (hs.find? hv)

theorem State.HasKinds.initial (clock : Moment) (seed : Nat) : (State.initial clock seed).HasKinds :=
  ⟨fun _ hp => absurd hp List.not_mem_nil, .initial⟩

namespace Watch

variable {w w' : Watch} {limits : Limits} {ls : List Text} {s t : State}

theorem values_accepts : values.Accepts :=
  fun _ _ hs hvalue => ⟨hs.bindsKinds, fun v hv => hs.heap.holdsKinds (hvalue v hv)⟩

theorem bindings_accepts : bindings.Accepts := by
  intro event s hs hvalue
  refine ⟨hs.bindsKinds, ?_⟩
  rintro v rfl
  exact hs.heap.holdsKinds (hvalue v rfl)

/-- There is an alarm that a result does not have. -/
theorem exists_alarm_ne {α : Type} (result : EStateM.Result Fault State α) :
    ∃ text, ∀ t, result ≠ .error (alarm text) t := by
  by_cases h : ∃ t, result = .error (alarm []) t
  · obtain ⟨t, rfl⟩ := h
    exact ⟨"x", fun t h => by cases h⟩
  · exact ⟨[], fun t ht => h ⟨t, ht⟩⟩

theorem Passes.of (hcatches : w.Catches) (haccepts : w'.Accepts) (hs : s.HasKinds)
    (h : w.Passes limits ls s) : w'.Passes limits ls s := by
  intro text'
  obtain ⟨text, htext⟩ := exists_alarm_ne ((Engine.start limits).runLines ls s)
  have htracks : Engine.Tracks text (Engine.watchedTower w text limits Engine.startLevels 0)
      (Engine.watchedTower w' text' limits Engine.startLevels 0) :=
    Engine.watchedTower_tracks hcatches haccepts Engine.startLevels 0
  rcases htracks.runLines ls s hs with ⟨t, halarm⟩ | ⟨hsame, -⟩
  · exact absurd ((h text).symm.trans halarm) (htext t)
  · exact hsame.trans (h text)

/-- At every point of a run all values that come up and all that is bound have kinds, at any depth,
just when no power that the run computes by the built-in function is without a kind. Then in particular
all that is bound and the values of texts have kinds. -/
theorem passes_values_iff (limits : Limits) (clock : Moment) (seed : Nat) (ls : List Text) :
    (values.Passes limits ls (.initial clock seed) ↔ powers.Passes limits ls (.initial clock seed)) ∧
      (powers.Passes limits ls (.initial clock seed) →
        bindings.Passes limits ls (.initial clock seed)) := by
  have hs := State.HasKinds.initial clock seed
  refine ⟨⟨?_, ?_⟩, ?_⟩
  · exact Passes.of values_catches powers_accepts hs
  · exact Passes.of powers_catches values_accepts hs
  · exact Passes.of powers_catches bindings_accepts hs

/-- What has to be so is so where the lines have been executed. -/
theorem Passes.executed (h : w.Passes limits ls s)
    (hrun : (Engine.start limits).runLines ls s = .ok () t) : w .executed t := by
  have hwatched : Run.watched w "" (fun _ => .executed)
      (Execution.block limits ⟨Engine.watchedTower w "" limits 959, 959⟩ ls) s = .ok () t :=
    (h "").trans hrun
  exact Run.watched_ok hwatched

/-- A variable is bound to a root of a negative number. -/
theorem not_passes_bindings_root :
    ¬ bindings.Passes .standard (Source.cleanLines "x = pow(-1, 0.5)") (.initial ⟨0⟩ 0) := by
  have hroot : (match (Engine.start .standard).runLines (Source.cleanLines "x = pow(-1, 0.5)")
      (.initial ⟨0⟩ 0) with
      | .ok _ t => (t.vars.find? "x").any (·.kind?.isNone)
      | .error _ _ => false) = true := by
    decide +kernel
  intro h
  cases hrun : (Engine.start .standard).runLines (Source.cleanLines "x = pow(-1, 0.5)")
      (.initial ⟨0⟩ 0) with
  | ok u t =>
    rw [hrun] at hroot
    obtain ⟨v, hv, hnone⟩ := (Option.any_eq_true _ _).mp hroot
    have hkind : v.HasKind := (h.executed hrun).1 "x" v hv v .self
    rw [Value.HasKind, ← Option.not_isNone, hnone] at hkind
    cases hkind
  | error fault t =>
    rw [hrun] at hroot
    cases hroot

end Watch

end Scriptlet
