import Scriptlet.Proofs.Caps.Running
import Scriptlet.Proofs.Scope.Running

/-
  The members of libraries during a run.

  The members of a library are fixed, and all but one of them are values that cannot change. The one is
  the list of arguments: it is an object like every other list, so a script that gets hold of it can
  append to it, assign its items and shuffle it, and every later use of the library shows that.

  What is proved:
    1. `Guard.passes_members_iff` — at every point of a run all members of all libraries are what they
       are at the start, contents included, just when the list of arguments is. It is, in every run in
       which no expression comes to that list and no call shuffles it.
    2. `Guard.not_passesSource_append` — a script that appends to the list changes a member.
-/

namespace Scriptlet

/-! ## What members read -/

namespace Heap

variable {h g : Heap} {v w : Value}

/-- What stands in the object that a value refers to. -/
def contents (h : Heap) : Value → List Value
  | .list r => (h.list r).toList
  | .tuple r => (h.tuple r).toList
  | .dict r => (h.dict r).toList.flatMap fun e => [e.keyValue, e.value]
  | .set r => (h.set r).toList.map Member.value
  | _ => []

/-- The value reads the same in both heaps, contents included at any depth. -/
def ReadsSame (h g : Heap) (v : Value) : Prop := ∀ w, h.Holds v w → g.contents w = h.contents w

end Heap

/-- The value refers to no object with contents. -/
def Value.isPlain : Value → Bool
  | .list _ | .tuple _ | .dict _ | .set _ => false
  | _ => true

namespace Heap

variable {h g : Heap} {v w : Value}

/-- A plain value holds nothing but itself. -/
theorem Holds.eq_of_isPlain (hv : v.isPlain = true) (hw : h.Holds v w) : w = v := by
  cases hw with
  | self => rfl
  | _ => cases hv

theorem contents_of_isPlain (hv : v.isPlain = true) : h.contents v = [] := by
  cases v with
  | list _ | tuple _ | dict _ | set _ => cases hv
  | _ => rfl

theorem ReadsSame.of_isPlain (hv : v.isPlain = true) : h.ReadsSame g v := by
  intro w hw
  rw [hw.eq_of_isPlain hv, contents_of_isPlain hv, contents_of_isPlain hv]

/-- The list of arguments holds one text. -/
theorem readsSame_arguments_iff :
    Heap.initial.ReadsSame g (.list argumentsRef) ↔
      g.contents (.list argumentsRef) = [.text Cap.firstArgument] := by
  constructor
  · exact fun hsame => hsame _ .self
  · intro hcontents w hw
    cases hw with
    | self => exact hcontents
    | item hmem hholds =>
      rw [List.mem_singleton.mp hmem] at hholds
      rw [hholds.eq_of_isPlain rfl]
      rfl

end Heap

/-- All members are plain, but for the list of arguments. -/
theorem Library.member_cases {l : Library} {name : Text} {v : Value}
    (hv : l.toModule.find? name = some v) : v = .list Heap.argumentsRef ∨ v.isPlain = true := by
  have hfunctions : ∀ fs : List (String × LibraryFunction),
      ∀ p ∈ fs.map fun p => ((p.1 : Text), Value.function (.library p.2)),
        p.2.isPlain = true := by
    intro fs p hp
    obtain ⟨f, -, rfl⟩ := List.mem_map.mp hp
    rfl
  rcases List.mem_append.mp (mem_of_lookup hv) with hconstant | hfunction
  · cases l <;> simp only [List.mem_cons, List.not_mem_nil, or_false, Prod.mk.injEq] at hconstant
    case system => rcases hconstant with ⟨-, rfl⟩ | ⟨-, rfl⟩ | ⟨-, rfl⟩ <;> simp [Value.isPlain]
    case math => rcases hconstant with ⟨-, rfl⟩ | ⟨-, rfl⟩ <;> simp [Value.isPlain]
    case datetime => exact .inr (hconstant.2 ▸ rfl)
    case os => exact .inr (hconstant.2 ▸ rfl)
  · exact .inr (hfunctions _ _ hfunction)

/-! ## Guards -/

namespace Guard

/-- All members of all libraries are what they are at the start of every run, contents included. -/
def members : Guard := fun _ _ s =>
  ∀ (l : Library) (name : Text) (v : Value), l.toModule.find? name = some v →
    Heap.initial.ReadsSame s.heap v

/-- The list of arguments holds what it holds at the start of every run. -/
def arguments : Guard := fun _ _ s =>
  s.heap.contents (.list Heap.argumentsRef) = [.text Cap.firstArgument]

/-- No expression comes to the list of arguments, and no call shuffles it. -/
def unreached : Guard := fun job event _ =>
  event ≠ .found (.list Heap.argumentsRef) ∧
    ∀ f arguments, job = .call f arguments → ¬ f.Shuffles arguments Heap.argumentsRef

theorem members_iff_arguments (job : Job) (event : Event) (s : State) :
    members job event s ↔ arguments job event s := by
  constructor
  · exact fun h => Heap.readsSame_arguments_iff.mp (h .system "argv" _ rfl)
  · intro h l name v hv
    -- What is no list, tuple, mapping or set reads the same in every heap.
    rcases Library.member_cases hv with rfl | hplain
    · exact Heap.readsSame_arguments_iff.mpr h
    · exact .of_isPlain hplain

end Guard

/-! ## Guarded runs -/

/-- A run may do everything but come to the list of arguments and change it. -/
def Scope.sparing : Scope where
  origin := .initial
  lists r := r ≠ Heap.argumentsRef
  found v := v ≠ .list Heap.argumentsRef
  faults _ := True
  detached _ _ := trivial

theorem Scope.sparing_isOpen : sparing.IsOpen where
  faults _ := trivial
  lists _ hfound hr := hfound (hr ▸ rfl)

variable {α : Type} {text text' : Text} {limits : Limits} {job : Job}

/-- Where the list of arguments has not been changed, all members are what they are at the start. -/
theorem Scope.Keeps.members {event : Event} {s : State} (hs : Scope.sparing.Keeps s.heap) :
    Guard.members job event s := by
  refine (Guard.members_iff_arguments job event s).mpr ?_
  have hlist : s.heap.lists[Heap.argumentsRef]? = some #[.text Cap.firstArgument] :=
    hs Heap.argumentsRef _ (fun h => h rfl) rfl
  show (s.heap.lists.getD Heap.argumentsRef #[]).toList = _
  rw [Array.getD_eq_getD_getElem?, hlist]
  rfl

/-- A step under both guards. What it begins with need not be looked at where the first guard refuses
it. -/
theorem Run.Within.guarded {x y : Run α} {ends : α → Event} {good : α → Prop}
    (h : ∀ s, Guard.unreached job .begins s → Run.Within Scope.sparing text x y fun _ => True)
    (hgood : ∀ a s, Guard.unreached job (ends a) s → good a) :
    Run.Within Scope.sparing text (x.watched (Guard.unreached job) text ends)
      (y.watched (Guard.members job) text' ends) good := by
  intro s hs
  unfold Run.watched
  by_cases hbegins : Guard.unreached job .begins s
  · simp only [hbegins, hs.members, if_true]
    rcases h s hbegins s hs with ⟨t, halarm⟩ | ⟨hsame, hremains⟩
    · refine .inl ⟨t, ?_⟩
      rw [halarm]
      simp only
      split <;> rfl
    · rw [hsame]
      cases hx : x s with
      | ok a t =>
        rw [hx] at hremains
        have hmembers : Guard.members job (ends a) t := hremains.1.members
        by_cases hends : Guard.unreached job (ends a) t
        · simp only [hends, hmembers, if_true]
          exact .inr ⟨trivial, hremains.1, hgood a t hends⟩
        · simp only [hends, if_false]
          exact .inl ⟨t, rfl⟩
      | error fault t =>
        rw [hx] at hremains
        have hmembers : Guard.members job .stopped t := hremains.1.members
        by_cases hstopped : Guard.unreached job .stopped t
        · simp only [hstopped, hmembers, if_true]
          exact .inr ⟨trivial, hremains⟩
        · simp only [hstopped, if_false]
          exact .inl ⟨t, rfl⟩
  · -- The first guard stops the step here, whatever the second one does.
    simp only [hbegins, if_false]
    exact .inl ⟨s, rfl⟩

namespace Engine

variable {engine other : Engine}

/-- An engine under both guards; functions may do more than what is asked of the others, as long as they
do not shuffle the list of arguments. -/
theorem Within.guarded
    (hevaluate : ∀ source, Run.Within Scope.sparing text (engine.evaluate source)
      (other.evaluate source) fun _ => True)
    (hnode : ∀ source e, Run.Within Scope.sparing text (engine.evaluateNode source e)
      (other.evaluateNode source e) fun _ => True)
    (hlines : ∀ ls, Run.Within Scope.sparing text (engine.runLines ls) (other.runLines ls)
      fun _ => True)
    (hcall : ∀ f arguments, ¬ f.Shuffles arguments Heap.argumentsRef →
      Run.Within Scope.sparing text (engine.call f arguments) (other.call f arguments)
        fun _ => True) :
    Engine.Within Scope.sparing text (engine.guarded .unreached text)
      (other.guarded .members text') where
  evaluate source := .guarded (fun _ _ => hevaluate source) fun _ _ _ => trivial
  evaluateNode source e := .guarded (fun _ _ => hnode source e) fun _ _ h hv => h.1 (hv ▸ rfl)
  runLines ls := .guarded (fun _ _ => hlines ls) fun _ _ _ => trivial
  call f arguments := .guarded (fun _ h => hcall f arguments (h.2 f arguments rfl))
    fun _ _ _ => trivial

/-- As long as no expression comes to the list of arguments, all members are what they are at the
start. -/
theorem guardedTower_within (levels further : Nat) :
    Engine.Within Scope.sparing text (guardedTower .unreached text limits levels further)
      (guardedTower .members text' limits levels further) := by
  have hopen := Scope.sparing_isOpen
  induction levels generalizing further with
  | zero =>
    exact .guarded (fun _ => .throw trivial) (fun _ _ => .throw trivial) (fun _ => .throw trivial)
      fun _ _ _ => .throw trivial
  | succ levels ih =>
    cases further with
    | zero =>
      refine .guarded (fun _ => Evaluation.within_evaluate hopen ih)
        (fun _ _ => Evaluation.within_node hopen ih) (fun _ => Execution.within_block hopen ih)
        fun f arguments hspared => Call.within_function ih fun r hshuffles hr => ?_
      exact hspared (hr ▸ hshuffles)
    | succ further => exact ih further

end Engine

namespace Guard

/-- Guards that ask for the same pass the same runs. -/
theorem passesSource_congr {g g' : Guard} (hg : ∀ job event s, g job event s ↔ g' job event s)
    {source : Text} {s : State} : g.PassesSource limits source s ↔ g'.PassesSource limits source s := by
  have hsame : g = g' := funext fun job => funext fun event => funext fun s =>
    propext (hg job event s)
  rw [hsame]

theorem PassesSource.keepsMembers {clock : Moment} {seed : Nat} {source : Text}
    (h : unreached.PassesSource limits source (.initial clock seed)) :
    members.PassesSource limits source (.initial clock seed) := by
  intro hlength hlines text'
  -- With an alarm that the run does not end with, the first guard has let everything pass.
  obtain ⟨text, htext⟩ := Watch.exists_alarm_ne
    ((Engine.start limits).runLines (Source.cleanLines source) (.initial clock seed))
  have hwithin : Engine.Within Scope.sparing text
      (Engine.guardedTower unreached text limits Engine.startLevels 0)
      (Engine.guardedTower members text' limits Engine.startLevels 0) :=
    Engine.guardedTower_within Engine.startLevels 0
  have hinitial : Scope.sparing.Keeps (State.initial clock seed).heap := fun _ _ _ h => h
  rcases hwithin.runLines _ _ hinitial with ⟨t, halarm⟩ | ⟨hsame, -⟩
  · exact absurd ((h hlength hlines text).symm.trans halarm) (htext t)
  · exact hsame.trans (h hlength hlines text)

/-- At every point of a run all members of all libraries are what they are at the start, contents
included, just when the list of arguments is. So it is in every run in which no expression comes to that
list and no call shuffles it. -/
theorem passes_members_iff (limits : Limits) (clock : Moment) (seed : Nat) (source : Text) :
    (members.PassesSource limits source (.initial clock seed) ↔
        arguments.PassesSource limits source (.initial clock seed)) ∧
      (unreached.PassesSource limits source (.initial clock seed) →
        members.PassesSource limits source (.initial clock seed)) :=
  ⟨passesSource_congr members_iff_arguments, PassesSource.keepsMembers⟩

/-- A script that appends to the list of arguments changes a member of a library. -/
theorem not_passesSource_append :
    ¬ members.PassesSource .standard "import sys\nsys.argv.append(1)" (.initial ⟨0⟩ 0) := by
  have happended : ((Run.final ((Engine.start .standard).runLines
      (Source.cleanLines "import sys\nsys.argv.append(1)") (.initial ⟨0⟩ 0))).heap.contents
        (.list Heap.argumentsRef)).length = 2 := by
    decide +kernel
  have hends : Run.fault? ((Engine.start .standard).runLines
      (Source.cleanLines "import sys\nsys.argv.append(1)") (.initial ⟨0⟩ 0)) = none := by
    decide +kernel
  intro h
  have hpasses := h (by decide) (by decide)
  cases hrun : (Engine.start .standard).runLines
      (Source.cleanLines "import sys\nsys.argv.append(1)") (.initial ⟨0⟩ 0) with
  | ok u t =>
    have hmembers : members .block .executed t := hpasses.executed hrun
    have harguments := (members_iff_arguments .block .executed t).mp hmembers
    have hcontents : t.heap.contents (.list Heap.argumentsRef) = _ := harguments
    rw [hrun, Run.final, hcontents] at happended
    cases happended
  | error fault t =>
    rw [hrun] at hends
    cases hends

end Guard

end Scriptlet
