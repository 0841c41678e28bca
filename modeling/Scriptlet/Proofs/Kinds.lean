import Scriptlet.Proofs.Escape.Values

/-
  Runs that are watched.

  A watch looks at the state of a run, at the start and at the end of every evaluation, of every
  execution of a block and of every call, and at the value that has come up; an alarm stops the run
  where the watch finds something wrong. Nothing in a script catches an error, so a run passes a watch
  when it is the same with the watch and without, whatever the alarm says.

  What is watched for here are values without a kind. Two watched runs are compared step by step: from
  a state without such values, either the first run stops with its alarm or both do the same and leave
  a state without such values.
-/

namespace Scriptlet

/-! ## Values with a kind -/

/-- The value is of one of the kinds that a script can use. -/
def Value.HasKind (v : Value) : Prop := v.kind?.isSome = true

/-- The keys and the values of the entries have kinds. -/
def Entry.HaveKinds (entries : Array Entry) : Prop :=
  ∀ e ∈ entries, e.keyValue.HasKind ∧ e.value.HasKind

/-- The values of the members have kinds. -/
def Member.HaveKinds (members : Array Member) : Prop := ∀ m ∈ members, m.value.HasKind

/-- All values in the heap have kinds. -/
structure Heap.HasKinds (h : Heap) : Prop where
  lists : ∀ items ∈ h.lists, ∀ v ∈ items, v.HasKind
  tuples : ∀ items ∈ h.tuples, ∀ v ∈ items, v.HasKind
  dicts : ∀ entries ∈ h.dicts, Entry.HaveKinds entries
  sets : ∀ members ∈ h.sets, Member.HaveKinds members

/-- All values in the state have kinds. -/
structure State.HasKinds (s : State) : Prop where
  vars : ∀ p ∈ s.vars.bindings, p.2.HasKind
  heap : s.heap.HasKinds

/-- The value has a kind, and so has what it holds at any depth. -/
def Heap.HoldsKinds (h : Heap) (v : Value) : Prop := ∀ w, h.Holds v w → w.HasKind

/-- What is bound to variables has a kind, and so has what it holds at any depth. -/
def State.BindsKinds (s : State) : Prop :=
  ∀ name v, s.vars.find? name = some v → s.heap.HoldsKinds v

/-! ## Watches -/

/-- What a run is at when it is looked at. -/
inductive Event where
  | begins
  /-- The value of a text has been found. -/
  | evaluated (v : Value)
  /-- The value of an expression that has been read from a text has been found. -/
  | found (v : Value)
  | called (f : Function) (v : Value)
  /-- The lines of a block have been executed. -/
  | executed
  /-- What had begun ends with a fault. -/
  | stopped

/-- The value that has come up. -/
def Event.value? : Event → Option Value
  | .evaluated v | .found v | .called _ v => some v
  | .begins | .executed | .stopped => none

/-- What has to be so where a run is looked at. -/
abbrev Watch := Event → State → Prop

namespace Watch

/-- No power that is computed by the built-in function is without a kind. -/
def powers : Watch
  | .called (.builtin .pow) v, _ => v.HasKind
  | _, _ => True

/-- What is bound and all values that come up have kinds, and so has what they hold. -/
def values : Watch := fun event s =>
  s.BindsKinds ∧ ∀ v, event.value? = some v → s.heap.HoldsKinds v

/-- What is bound and the values of texts have kinds, and so has what they hold. -/
def bindings : Watch := fun event s =>
  s.BindsKinds ∧ ∀ v, event = .evaluated v → s.heap.HoldsKinds v

end Watch

/-- The fault that stops a run which is watched. -/
def alarm (text : Text) : Fault := .error ⟨.runtime, text, some text⟩

open Classical in
/-- The step while it is watched; `ends` is where it is with its result. -/
noncomputable def Run.watched {α : Type} (w : Watch) (text : Text) (ends : α → Event)
    (x : Run α) : Run α := fun s =>
  if w .begins s then
    match x s with
    | .ok a t => if w (ends a) t then .ok a t else .error (alarm text) t
    | .error fault t => if w .stopped t then .error fault t else .error (alarm text) t
  else .error (alarm text) s

namespace Engine

/-- The engine while it is watched. -/
noncomputable def watched (w : Watch) (text : Text) (engine : Engine) : Engine where
  evaluate source := (engine.evaluate source).watched w text .evaluated
  evaluateNode source e := (engine.evaluateNode source e).watched w text .found
  runLines ls := (engine.runLines ls).watched w text fun _ => .executed
  call f arguments := (engine.call f arguments).watched w text (.called f)

/-- The stack of engines, each of them watched. -/
noncomputable def watchedTower (w : Watch) (text : Text) (limits : Limits) : Nat → Nat → Engine
  | 0, _ => exhausted
  | levels + 1, 0 => (step limits ⟨watchedTower w text limits levels, levels⟩).watched w text
  | levels + 1, further + 1 => watchedTower w text limits levels further

end Engine

/-- The lines run from the state without an alarm. -/
def Watch.Passes (w : Watch) (limits : Limits) (lines : List Text) (s : State) : Prop :=
  ∀ text, (Engine.watchedTower w text limits Engine.startLevels 0).runLines lines s =
    (Engine.start limits).runLines lines s

/-! ## What is read -/

section

variable {α β γ ε : Type} {good : α → Prop} {fine : β → Prop}

/-- What is read is good, unless there is a fault. -/
def Gives (x : Except ε α) (good : α → Prop) : Prop := ∀ a, x = .ok a → good a

theorem Gives.pure {a : α} (ha : good a) : Gives (pure a : Except ε α) good := by
  intro b hb
  cases hb
  exact ha

theorem Gives.throw {fault : ε} : Gives (throw fault : Except ε α) good := by
  intro b hb
  cases hb

theorem Gives.any {x : Except ε α} : Gives x fun _ => True := fun _ _ => trivial

theorem Gives.mono {finer : α → Prop} {x : Except ε α} (hx : Gives x good)
    (h : ∀ a, good a → finer a) : Gives x finer := fun a ha => h a (hx a ha)

theorem bind_ok {x : Except ε α} {f : α → Except ε β} {b : β} (h : (x >>= f) = .ok b) :
    ∃ a, x = .ok a ∧ f a = .ok b := by
  cases x with
  | error fault => cases h
  | ok a => exact ⟨a, rfl, h⟩

theorem Gives.bind {x : Except ε α} {f : α → Except ε β} (hx : Gives x good)
    (hf : ∀ a, good a → Gives (f a) fine) : Gives (x >>= f) fine := by
  intro b hb
  obtain ⟨a, ha, hb⟩ := bind_ok hb
  exact hf a (hx a ha) b hb

/-- Nothing comes after a fault. -/
theorem Gives.throwBind {fault : ε} {f : α → Except ε β} :
    Gives (MonadExcept.throw fault >>= f) fine := by
  intro b hb
  cases hb

theorem Gives.ite {c : Prop} [Decidable c] {x y : Except ε α} (hx : c → Gives x good)
    (hy : ¬ c → Gives y good) : Gives (if c then x else y) good := by
  by_cases h : c
  · rw [if_pos h]
    exact hx h
  · rw [if_neg h]
    exact hy h

theorem Gives.mapM {f : γ → Except ε β} {cs : List γ} (hf : ∀ c ∈ cs, Gives (f c) fine) :
    Gives (cs.mapM f) fun bs => ∀ b ∈ bs, fine b := by
  induction cs with
  | nil => exact .pure fun b hb => absurd hb List.not_mem_nil
  | cons c cs ih =>
    rw [List.mapM_cons]
    refine (hf c List.mem_cons_self).bind fun b hb => ?_
    refine (ih fun d hd => hf d (List.mem_cons_of_mem _ hd)).bind fun bs hbs => ?_
    exact .pure (List.forall_mem_cons.mpr ⟨hb, hbs⟩)

theorem Gives.foldlM {f : α → γ → Except ε α} {cs : List γ} {a : α} (ha : good a)
    (hf : ∀ c ∈ cs, ∀ a, good a → Gives (f a c) good) : Gives (cs.foldlM f a) good := by
  induction cs generalizing a with
  | nil => exact .pure ha
  | cons c cs ih =>
    rw [List.foldlM_cons]
    refine (hf c List.mem_cons_self a ha).bind fun b hb => ?_
    exact ih hb fun d hd => hf d (List.mem_cons_of_mem _ hd)

/-- What grows by one at most with each element has grown by their number at most. -/
theorem Gives.foldlMSize {size : α → Nat} {f : α → γ → Except ε α} {cs : List γ} {a : α} (ha : good a)
    (hf : ∀ c ∈ cs, ∀ a, good a → Gives (f a c) fun a' => size a' ≤ size a + 1 ∧ good a') :
    Gives (cs.foldlM f a) fun a' => size a' ≤ size a + cs.length ∧ good a' := by
  induction cs generalizing a with
  | nil => exact .pure ⟨Nat.le_refl _, ha⟩
  | cons c cs ih =>
    rw [List.foldlM_cons]
    refine (hf c List.mem_cons_self a ha).bind fun a' ⟨hsize, ha'⟩ => ?_
    intro a'' ha''
    obtain ⟨hall, hgood⟩ := ih ha' (fun d hd => hf d (List.mem_cons_of_mem _ hd)) a'' ha''
    exact ⟨by rw [List.length_cons]; omega, hgood⟩

end

/-! ## Steps that are compared -/

namespace Run

variable {α β γ : Type} {text : Text} {good : α → Prop} {fine : β → Prop}

/-- The result is good and the state behind it has kinds only. -/
def Ends (good : α → Prop) : EStateM.Result Fault State α → Prop
  | .ok a t => t.HasKinds ∧ good a
  | .error _ t => t.HasKinds

/-- From a state with kinds only the first step stops with the alarm, or both steps do the same, give
something good and keep the kinds. -/
def Tracks (text : Text) (x y : Run α) (good : α → Prop) : Prop :=
  ∀ s, s.HasKinds → (∃ t, x s = .error (alarm text) t) ∨ (y s = x s ∧ Ends good (x s))

/-- The step gives something good and keeps the kinds. -/
abbrev Keeps (text : Text) (x : Run α) (good : α → Prop) : Prop := Tracks text x x good

theorem Tracks.of {x : Run α} (h : ∀ s, s.HasKinds → Ends good (x s)) : Keeps text x good :=
  fun s hs => .inr ⟨rfl, h s hs⟩

theorem Tracks.mono {x y : Run α} {better : α → Prop} (h : Tracks text x y better)
    (hgood : ∀ a, better a → good a) : Tracks text x y good := by
  intro s hs
  rcases h s hs with halarm | ⟨hsame, hends⟩
  · exact .inl halarm
  · refine .inr ⟨hsame, ?_⟩
    cases hx : x s with
    | ok a t =>
      rw [hx] at hends
      exact ⟨hends.1, hgood a hends.2⟩
    | error fault t =>
      rw [hx] at hends
      exact hends

theorem Tracks.pure {a : α} (ha : good a) : Keeps text (pure a) good :=
  .of fun _ hs => ⟨hs, ha⟩

theorem Tracks.throw {fault : Fault} : Keeps text (throw fault : Run α) good :=
  .of fun _ hs => hs

theorem Tracks.bind {x y : Run α} {f g : α → Run β} (hx : Tracks text x y good)
    (hf : ∀ a, good a → Tracks text (f a) (g a) fine) :
    Tracks text (x >>= f) (y >>= g) fine := by
  intro s hs
  rw [bind_apply, bind_apply]
  rcases hx s hs with ⟨t, halarm⟩ | ⟨hsame, hends⟩
  · exact .inl ⟨t, by rw [halarm]⟩
  · rw [hsame]
    cases hxs : x s with
    | ok a t =>
      rw [hxs] at hends
      exact hf a hends.2 t hends.1
    | error fault t =>
      rw [hxs] at hends
      exact .inr ⟨rfl, hends⟩

/-- Nothing comes after a fault. -/
theorem Tracks.throwBind {fault : Fault} {f g : α → Run β} :
    Tracks text (MonadExcept.throw fault >>= f) (MonadExcept.throw fault >>= g) fine := by
  have hthrow : Keeps text (MonadExcept.throw fault : Run α) fun _ => False := .throw
  exact hthrow.bind fun _ h => h.elim

theorem Tracks.ite {c : Prop} [Decidable c] {x y x' y' : Run α}
    (hx : c → Tracks text x x' good) (hy : ¬ c → Tracks text y y' good) :
    Tracks text (if c then x else y) (if c then x' else y') good := by
  by_cases h : c
  · simp only [h, if_true]
    exact hx h
  · simp only [h, if_false]
    exact hy h

theorem Tracks.get : Keeps text MonadState.get State.HasKinds := .of fun _ hs => ⟨hs, hs⟩

theorem Tracks.lift {x : Except Fault α} (h : Gives x good) : Keeps text (liftM x) good := by
  refine .of fun s hs => ?_
  rw [liftM_apply]
  cases hx : x with
  | ok a => exact ⟨hs, h a hx⟩
  | error fault => exact hs

theorem Tracks.lifted {x : Except Fault α} (h : Gives x good) : Keeps text (Run.lift x) good := .lift h

theorem Tracks.look {read : Heap → Except Fault α}
    (h : ∀ heap, heap.HasKinds → Gives (read heap) good) : Keeps text (look read) good := by
  refine .of fun s hs => ?_
  rw [look_apply]
  cases hread : read s.heap with
  | ok a => exact ⟨hs, h s.heap hs.heap a hread⟩
  | error fault => exact hs

/-- What is found may be anything. -/
theorem Tracks.lookAny {read : Heap → Except Fault α} : Keeps text (Run.look read) fun _ => True :=
  .look fun _ _ => .any

theorem Tracks.liftAny {x : Except Fault α} : Keeps text (liftM x) fun _ => True := .lift .any

theorem Tracks.modify {f : State → State} (h : ∀ s, s.HasKinds → (f s).HasKinds) :
    Keeps text (modify f : Run PUnit) fun _ => True :=
  .of fun s hs => ⟨h s hs, trivial⟩

theorem Tracks.make {new : Heap → Value × Heap}
    (h : ∀ heap, heap.HasKinds → (new heap).1.HasKind ∧ (new heap).2.HasKinds) :
    Keeps text (make new) Value.HasKind :=
  .of fun s hs => ⟨⟨hs.vars, (h s.heap hs.heap).2⟩, (h s.heap hs.heap).1⟩

theorem Tracks.change {update : Heap → Heap} (h : ∀ heap, heap.HasKinds → (update heap).HasKinds) :
    Keeps text (change update) fun _ => True :=
  .modify fun s hs => ⟨hs.vars, h s.heap hs.heap⟩

/-! ## Loops -/

theorem Tracks.mapM {f g : γ → Run β} {cs : List γ}
    (hf : ∀ c ∈ cs, Tracks text (f c) (g c) fine) :
    Tracks text (cs.mapM f) (cs.mapM g) fun bs => ∀ b ∈ bs, fine b := by
  induction cs with
  | nil => exact .pure fun b hb => absurd hb List.not_mem_nil
  | cons c cs ih =>
    rw [List.mapM_cons, List.mapM_cons]
    refine (hf c List.mem_cons_self).bind fun b hb => ?_
    refine (ih fun d hd => hf d (List.mem_cons_of_mem _ hd)).bind fun bs hbs => ?_
    exact .pure (List.forall_mem_cons.mpr ⟨hb, hbs⟩)

theorem Tracks.mapIdxM {f g : Nat → γ → Run β} {cs : List γ}
    (hf : ∀ i, ∀ c ∈ cs, Tracks text (f i c) (g i c) fine) :
    Tracks text (cs.mapIdxM f) (cs.mapIdxM g) fun bs => ∀ b ∈ bs, fine b := by
  have hgo : ∀ {done : Array β}, (∀ b ∈ done, fine b) →
      Tracks text (List.mapIdxM.go f cs done) (List.mapIdxM.go g cs done)
        fun bs => ∀ b ∈ bs, fine b := by
    induction cs with
    | nil => exact fun hdone => .pure fun b hb => hdone b (Array.mem_toList_iff.mp hb)
    | cons c cs ih =>
      intro done hdone
      refine (hf done.size c List.mem_cons_self).bind fun b hb => ?_
      refine ih (fun i d hd => hf i d (List.mem_cons_of_mem _ hd)) fun d hd => ?_
      rcases Array.mem_push.mp hd with hd | rfl
      · exact hdone d hd
      · exact hb
  exact hgo fun b hb => absurd hb (Array.not_mem_empty b)

theorem Tracks.foldlM {f g : α → γ → Run α} {cs : List γ} {a : α} (ha : good a)
    (hf : ∀ c ∈ cs, ∀ a, good a → Tracks text (f a c) (g a c) good) :
    Tracks text (cs.foldlM f a) (cs.foldlM g a) good := by
  induction cs generalizing a with
  | nil => exact .pure ha
  | cons c cs ih =>
    rw [List.foldlM_cons, List.foldlM_cons]
    refine (hf c List.mem_cons_self a ha).bind fun b hb => ?_
    exact ih hb fun d hd => hf d (List.mem_cons_of_mem _ hd)

theorem Tracks.filterAuxM {f g : γ → Run Bool} {cs kept all : List γ}
    (hf : ∀ c ∈ cs, Tracks text (f c) (g c) fun _ => True) (hcs : ∀ c ∈ cs, c ∈ all)
    (hkept : ∀ c ∈ kept, c ∈ all) :
    Tracks text (cs.filterAuxM f kept) (cs.filterAuxM g kept) fun ds => ∀ d ∈ ds, d ∈ all := by
  induction cs generalizing kept with
  | nil => exact .pure hkept
  | cons c cs ih =>
    obtain ⟨hc, hcs⟩ := List.forall_mem_cons.mp hcs
    refine (hf c List.mem_cons_self).bind fun b _ => ?_
    refine ih (fun d hd => hf d (List.mem_cons_of_mem _ hd)) hcs ?_
    cases b with
    | true => exact List.forall_mem_cons.mpr ⟨hc, hkept⟩
    | false => exact hkept

theorem Tracks.filterM {f g : γ → Run Bool} {cs : List γ}
    (hf : ∀ c ∈ cs, Tracks text (f c) (g c) fun _ => True) :
    Tracks text (cs.filterM f) (cs.filterM g) fun ds => ∀ d ∈ ds, d ∈ cs := by
  have hkept : ∀ c ∈ ([] : List γ), c ∈ cs := fun c hc => absurd hc List.not_mem_nil
  refine (Tracks.filterAuxM hf (fun _ h => h) hkept).bind fun ds hds => ?_
  exact .pure fun d hd => hds d (List.mem_reverse.mp hd)

theorem Tracks.forIn {f g : γ → PUnit → Run (ForInStep PUnit)} {cs : List γ}
    (hf : ∀ c ∈ cs, ∀ u, Tracks text (f c u) (g c u) fun _ => True) :
    Tracks text (forIn cs PUnit.unit f) (forIn cs PUnit.unit g) fun _ => True := by
  induction cs with
  | nil => exact .pure trivial
  | cons c cs ih =>
    rw [List.forIn_cons, List.forIn_cons]
    refine (hf c List.mem_cons_self _).bind fun step _ => ?_
    cases step with
    | done u => exact .pure trivial
    | yield u => exact ih fun d hd => hf d (List.mem_cons_of_mem _ hd)

/-! ## Around steps -/

theorem Tracks.mapFault {f : Fault → Fault} {x y : Run α} (hf : f (alarm text) = alarm text)
    (h : Tracks text x y good) : Tracks text (mapFault f x) (Run.mapFault f y) good := by
  intro s hs
  rw [mapFault_apply, mapFault_apply]
  rcases h s hs with ⟨t, halarm⟩ | ⟨hsame, hends⟩
  · exact .inl ⟨t, by simp only [halarm, hf]⟩
  · rw [hsame]
    cases hx : x s with
    | ok a t =>
      rw [hx] at hends
      exact .inr ⟨rfl, hends⟩
    | error fault t =>
      rw [hx] at hends
      exact .inr ⟨rfl, hends⟩

/-- What passes a test is good by the test. -/
theorem Tracks.tested {x : Run α} {test : Heap → α → Except Fault Unit} {better : α → Prop}
    (hx : Keeps text x better) (htest : ∀ h a, test h a = .ok () → good a) :
    Keeps text (Run.tested x test) good := by
  intro s hs
  rcases hx s hs with ⟨t, halarm⟩ | ⟨-, hends⟩
  · exact .inl ⟨t, tested_of_error test halarm⟩
  · refine .inr ⟨rfl, ?_⟩
    rcases tested_cases s x test with ⟨a, t, hok, hpassed, heq⟩ | ⟨fault, t, herror, heq⟩ |
      ⟨a, t, fault, -, -, heq⟩
    · rw [heq]
      rw [hok] at hends
      exact ⟨hends.1, htest t.heap a hpassed⟩
    · rw [heq]
      rw [herror] at hends
      exact hends
    · rw [heq]
      exact hs

theorem Tracks.thenAlways {x y : Run α} {cleanUp : State → State}
    (hclean : ∀ s, s.HasKinds → (cleanUp s).HasKinds) (h : Tracks text x y good) :
    Tracks text (thenAlways x cleanUp) (Run.thenAlways y cleanUp) good := by
  intro s hs
  rw [thenAlways_apply, thenAlways_apply]
  rcases h s hs with ⟨t, halarm⟩ | ⟨hsame, hends⟩
  · exact .inl ⟨cleanUp t, by rw [halarm]⟩
  · rw [hsame]
    cases hx : x s with
    | ok a t =>
      rw [hx] at hends
      exact .inr ⟨rfl, hclean t hends.1, hends.2⟩
    | error fault t =>
      rw [hx] at hends
      exact .inr ⟨rfl, hclean t hends⟩

end Run

end Scriptlet
