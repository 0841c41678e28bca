import Scriptlet.Proofs.Kinds

/-
  What a part of a run may do.

  A scope says which lists may change while something runs, what expressions in it may come to, and what
  may stop it. Runs in a scope are compared step by step as watched runs are: the first one stops with
  its alarm, or both do the same, stay in the scope, and leave all other lists as they were.

  Every scope admits faults that are attached to no expression: whatever values an operation is given, it
  attaches what it stops with to nothing. Only the evaluation of an expression does.
-/

namespace Scriptlet

/-! ## Faults of operations -/

/-- The fault is attached to no expression, and it is no failure to report another failure. -/
def Fault.isDetached : Fault → Bool
  | .error e => e.source.isNone
  | .failure _ | .tooDeep => true
  | .unreported _ => false

/-- What is attached to no expression keeps nothing of the attaching but the expression. -/
theorem Fault.within_detached {fault : Fault} {source : Text} {e : ScriptError}
    (hdetached : fault.isDetached = true) (h : fault.within source = .error e) :
    e.source = some source := by
  cases fault with
  | error inner =>
    cases h
    unfold ScriptError.attach
    rw [Option.isNone_iff_eq_none.mp hdetached]
  | failure f =>
    cases h
    unfold Failure.toError
    split <;> rfl
  | unreported f => cases hdetached
  | tooDeep => cases h

/-- What stops the computation is a fault of this kind. -/
def Raises {α ε : Type} (x : Except ε α) (fine : ε → Prop) : Prop :=
  ∀ fault, x = .error fault → fine fault

/-- What stops the computation is attached to no expression. -/
abbrev Detached {α : Type} (x : Except Fault α) : Prop :=
  Raises x fun fault => fault.isDetached = true

namespace Raises

variable {α β γ ε : Type} {fine : ε → Prop}

theorem pure {a : α} : Raises (pure a : Except ε α) fine := fun _ h => (by cases h)

theorem throw {fault : ε} (h : fine fault) : Raises (throw fault : Except ε α) fine := by
  intro other hother
  cases hother
  exact h

theorem bind {x : Except ε α} {f : α → Except ε β} (hx : Raises x fine)
    (hf : ∀ a, x = .ok a → Raises (f a) fine) : Raises (x >>= f) fine := by
  cases x with
  | error fault =>
    intro other hother
    cases hother
    exact hx fault rfl
  | ok a => exact hf a rfl

/-- Nothing comes after a fault. -/
theorem throwBind {fault : ε} {f : α → Except ε β} (h : fine fault) :
    Raises (MonadExcept.throw fault >>= f) fine := by
  intro other hother
  cases hother
  exact h

theorem ite {c : Prop} [Decidable c] {x y : Except ε α} (hx : Raises x fine) (hy : Raises y fine) :
    Raises (if c then x else y) fine := by
  by_cases h : c
  · rw [if_pos h]
    exact hx
  · rw [if_neg h]
    exact hy

theorem mapM {f : γ → Except ε β} {cs : List γ} (hf : ∀ c, Raises (f c) fine) :
    Raises (cs.mapM f) fine := by
  induction cs with
  | nil => exact .pure
  | cons c cs ih =>
    rw [List.mapM_cons]
    exact (hf c).bind fun b _ => ih.bind fun bs _ => .pure

theorem foldlM {f : α → γ → Except ε α} {cs : List γ} {a : α} (hf : ∀ a c, Raises (f a c) fine) :
    Raises (cs.foldlM f a) fine := by
  induction cs generalizing a with
  | nil => exact .pure
  | cons c cs ih =>
    rw [List.foldlM_cons]
    exact (hf a c).bind fun b _ => ih

theorem forIn {f : γ → PUnit → Except ε (ForInStep PUnit)} {cs : List γ}
    (hf : ∀ c u, Raises (f c u) fine) : Raises (forIn cs PUnit.unit f) fine := by
  induction cs with
  | nil => exact .pure
  | cons c cs ih =>
    rw [List.forIn_cons]
    refine (hf c _).bind fun step _ => ?_
    cases step with
    | done u => exact .pure
    | yield u => exact ih

end Raises

/-! ## Scopes -/

/-- What a part of a run may do. -/
structure Scope where
  /-- The objects that it begins with. -/
  origin : Heap
  /-- The lists whose elements it may change. -/
  lists : Ref → Prop
  /-- What expressions in it may come to. -/
  found : Value → Prop
  /-- What may stop it. -/
  faults : Fault → Prop
  detached : ∀ fault, fault.isDetached = true → faults fault

namespace Scope

variable {scope : Scope} {h g : Heap}

/-- The lists of the beginning have their elements, but for those that may change. -/
def Keeps (scope : Scope) (h : Heap) : Prop :=
  ∀ r items, ¬ scope.lists r → scope.origin.lists[r]? = some items → h.lists[r]? = some items

theorem Keeps.of_lists (hh : scope.Keeps h) (hlists : g.lists = h.lists) : scope.Keeps g := by
  unfold Keeps
  rw [hlists]
  exact hh

theorem Keeps.newList (hh : scope.Keeps h) (items : Array Value) : scope.Keeps (h.newList items).2 := by
  intro r old hr horigin
  obtain ⟨hlt, hold⟩ := Array.getElem?_eq_some_iff.mp (hh r old hr horigin)
  show (h.lists.push items)[r]? = some old
  rw [Array.getElem?_push_lt hlt, hold]

theorem Keeps.newTuple (hh : scope.Keeps h) (items : Array Value) :
    scope.Keeps (h.newTuple items).2 := by
  unfold Heap.newTuple
  split
  · exact hh
  · exact hh.of_lists rfl

theorem Keeps.newFloat (hh : scope.Keeps h) (x : Float) : scope.Keeps (h.newFloat x).2 := by
  unfold Heap.newFloat
  split
  · exact hh
  · exact hh.of_lists rfl

/-- Only the elements of a list that may change are changed. -/
theorem Keeps.modify (hh : scope.Keeps h) {r : Ref} (hr : scope.lists r)
    (f : Array Value → Array Value) : scope.Keeps { h with lists := h.lists.modify r f } := by
  intro other items hother horigin
  -- The list that is changed may change, and this one may not.
  have hne : r ≠ other := fun heq => hother (heq ▸ hr)
  show (h.lists.modify r f)[other]? = some items
  rw [Array.getElem?_modify, if_neg hne]
  exact hh other items hother horigin

end Scope

/-! ## Steps in a scope -/

namespace Run

variable {α β γ : Type} {scope : Scope} {text : Text} {good : α → Prop} {fine : β → Prop}

/-- The step has stayed in the scope, with something good or with a fault. -/
def Remains (scope : Scope) (good : α → Prop) : EStateM.Result Fault State α → Prop
  | .ok a t => scope.Keeps t.heap ∧ good a
  | .error fault t => scope.Keeps t.heap ∧ scope.faults fault

/-- Within the scope the first step stops with the alarm, or both steps do the same and stay in it. -/
def Within (scope : Scope) (text : Text) (x y : Run α) (good : α → Prop) : Prop :=
  ∀ s, scope.Keeps s.heap →
    (∃ t, x s = .error (alarm text) t) ∨ (y s = x s ∧ Remains scope good (x s))

/-- The step stays in the scope. -/
abbrev Minds (scope : Scope) (text : Text) (x : Run α) : Prop :=
  Within scope text x x fun _ => True

theorem Within.of {x : Run α} (h : ∀ s, scope.Keeps s.heap → Remains scope good (x s)) :
    Within scope text x x good :=
  fun s hs => .inr ⟨rfl, h s hs⟩

/-- Whatever the second step does, the first one stops with the alarm. -/
theorem Within.alarm {y : Run α} : Within scope text (MonadExcept.throw (alarm text)) y good :=
  fun s _ => .inl ⟨s, rfl⟩

theorem Within.mono {x y : Run α} {better : α → Prop} (h : Within scope text x y better)
    (hgood : ∀ a, better a → good a) : Within scope text x y good := by
  intro s hs
  refine (h s hs).imp_right fun ⟨hsame, hremains⟩ => ⟨hsame, ?_⟩
  cases hx : x s with
  | ok a t =>
    rw [hx] at hremains
    exact ⟨hremains.1, hgood a hremains.2⟩
  | error fault t =>
    rw [hx] at hremains
    exact hremains

theorem Within.any {x y : Run α} (h : Within scope text x y good) :
    Within scope text x y fun _ => True := h.mono fun _ _ => trivial

theorem Within.pure {a : α} (ha : good a) : Within scope text (pure a) (pure a) good :=
  .of fun _ hs => ⟨hs, ha⟩

/-- Anything will do. -/
theorem Within.give {a : α} : Minds scope text (Pure.pure a : Run α) := .pure trivial

theorem Within.throw {fault : Fault} (h : scope.faults fault) :
    Within scope text (MonadExcept.throw fault : Run α) (MonadExcept.throw fault) good :=
  .of fun _ hs => ⟨hs, h⟩

/-- A fault that is attached to nothing is in every scope. -/
theorem Within.detached {fault : Fault} (h : fault.isDetached = true) :
    Within scope text (MonadExcept.throw fault : Run α) (MonadExcept.throw fault) good :=
  .throw (scope.detached fault h)

theorem Within.bind {x y : Run α} {f g : α → Run β} (hx : Within scope text x y good)
    (hf : ∀ a, good a → Within scope text (f a) (g a) fine) :
    Within scope text (x >>= f) (y >>= g) fine := by
  intro s hs
  rw [bind_apply, bind_apply]
  rcases hx s hs with ⟨t, halarm⟩ | ⟨hsame, hremains⟩
  · exact .inl ⟨t, by rw [halarm]⟩
  · rw [hsame]
    cases hxs : x s with
    | ok a t =>
      rw [hxs] at hremains
      exact hf a hremains.2 t hremains.1
    | error fault t =>
      rw [hxs] at hremains
      exact .inr ⟨rfl, hremains⟩

/-- What comes next does not depend on what has been given. -/
theorem Within.next {x y : Run α} {f g : α → Run β} (hx : Within scope text x y fun _ => True)
    (hf : ∀ a, Within scope text (f a) (g a) fine) :
    Within scope text (x >>= f) (y >>= g) fine := hx.bind fun a _ => hf a

/-- Nothing comes after a fault. -/
theorem Within.throwBind {fault : Fault} {f g : α → Run β} (h : scope.faults fault) :
    Within scope text (MonadExcept.throw fault >>= f) (MonadExcept.throw fault >>= g) fine := by
  have hthrow : Within scope text (MonadExcept.throw fault : Run α) (MonadExcept.throw fault)
    fun _ => False := .throw h
  exact hthrow.bind fun _ h => h.elim

theorem Within.ite {c : Prop} [Decidable c] {x y x' y' : Run α} (hx : Within scope text x x' good)
    (hy : Within scope text y y' good) :
    Within scope text (if c then x else y) (if c then x' else y') good := by
  by_cases h : c
  · simp only [h, if_true]
    exact hx
  · simp only [h, if_false]
    exact hy

theorem Within.get : Minds scope text (MonadState.get : Run State) := .of fun _ hs => ⟨hs, trivial⟩

theorem Within.lift {x : Except Fault α} (h : Raises x scope.faults) :
    Minds scope text (liftM x : Run α) := by
  refine .of fun s hs => ?_
  rw [liftM_apply]
  cases hx : x with
  | ok a => exact ⟨hs, trivial⟩
  | error fault => exact ⟨hs, h fault hx⟩

theorem Within.look {read : Heap → Except Fault α} (h : ∀ heap, Raises (read heap) scope.faults) :
    Minds scope text (look read) := by
  refine .of fun s hs => ?_
  rw [look_apply]
  cases hread : read s.heap with
  | ok a => exact ⟨hs, trivial⟩
  | error fault => exact ⟨hs, h s.heap fault hread⟩

end Run

/-- What is attached to nothing is in every scope. -/
theorem Detached.raises {α : Type} {x : Except Fault α} {scope : Scope} (h : Detached x) :
    Raises x scope.faults := fun fault hx => scope.detached fault (h fault hx)

namespace Run

variable {α β γ : Type} {scope : Scope} {text : Text} {good : α → Prop} {fine : β → Prop}

/-- A computation that attaches its faults to nothing. -/
theorem Within.computed {x : Except Fault α} (h : Detached x) : Minds scope text (liftM x : Run α) :=
  .lift h.raises

/-- What is read attaches its faults to nothing. -/
theorem Within.read {read : Heap → Except Fault α} (h : ∀ heap, Detached (read heap)) :
    Minds scope text (Run.look read) := .look fun heap => (h heap).raises

/-- The fault that a computation makes. -/
theorem Within.report {x : Except Fault Fault} (hx : Detached x)
    (hfault : Gives x fun fault => fault.isDetached = true) :
    Minds scope text (liftM x >>= fun fault => MonadExcept.throw fault : Run α) := by
  refine .of fun s hs => ?_
  rw [bind_apply, liftM_apply]
  cases hxs : x with
  | ok fault => exact ⟨hs, scope.detached fault (hfault fault hxs)⟩
  | error fault => exact ⟨hs, scope.detached fault (hx fault hxs)⟩

/-! ## Changes -/

theorem Within.make {new : Heap → Value × Heap}
    (h : ∀ heap, scope.Keeps heap → scope.Keeps (new heap).2) : Minds scope text (make new) :=
  .of fun s hs => ⟨h s.heap hs, trivial⟩

theorem Within.change {update : Heap → Heap}
    (h : ∀ heap, scope.Keeps heap → scope.Keeps (update heap)) :
    Minds scope text (change update) := .of fun s hs => ⟨h s.heap hs, trivial⟩

/-- What is beside the objects may change. -/
theorem Within.modify {f : State → State} (h : ∀ s, (f s).heap = s.heap) :
    Minds scope text (modify f : Run PUnit) := .of fun s hs => ⟨(h s).symm ▸ hs, trivial⟩

theorem minds_newList (items : List Value) : Minds scope text (newList items) :=
  .make fun _ hh => hh.newList _

theorem minds_newTuple (items : List Value) : Minds scope text (newTuple items) :=
  .make fun _ hh => hh.newTuple _

theorem minds_newFloat (x : Float) : Minds scope text (newFloat x) := .make fun _ hh => hh.newFloat x

theorem minds_newRecord (record : Record) : Minds scope text (make (·.newRecord record)) :=
  .make fun _ hh => hh.of_lists rfl

theorem minds_bind (name : Text) (v : Value) : Minds scope text (Run.bind name v) :=
  .modify fun _ => rfl

theorem minds_write (limits : Limits) (line : Text) : Minds scope text (write limits line) := by
  unfold write
  refine Within.next (.modify fun _ => rfl) fun _ => Within.get.next fun s => ?_
  exact .ite (.throwBind (scope.detached _ rfl)) (.modify fun _ => rfl)

/-! ## Loops -/

theorem Within.mapM {f g : γ → Run β} {cs : List γ}
    (hf : ∀ c, Within scope text (f c) (g c) fine) :
    Within scope text (cs.mapM f) (cs.mapM g) fun bs => ∀ b ∈ bs, fine b := by
  induction cs with
  | nil => exact .pure fun b hb => absurd hb List.not_mem_nil
  | cons c cs ih =>
    rw [List.mapM_cons, List.mapM_cons]
    refine (hf c).bind fun b hb => ih.bind fun bs hbs => ?_
    exact .pure (List.forall_mem_cons.mpr ⟨hb, hbs⟩)

theorem Within.mapIdxM {f g : Nat → γ → Run β} {cs : List γ}
    (hf : ∀ i c, Within scope text (f i c) (g i c) fun _ => True) :
    Within scope text (cs.mapIdxM f) (cs.mapIdxM g) fun _ => True := by
  have hgo : ∀ done : Array β, Within scope text (List.mapIdxM.go f cs done)
      (List.mapIdxM.go g cs done) fun _ => True := by
    induction cs with
    | nil => exact fun done => .give
    | cons c cs ih => exact fun done => (hf done.size c).next fun b => ih (done.push b)
  exact hgo #[]

theorem Within.foldlM {f g : α → γ → Run α} {cs : List γ} {a : α}
    (hf : ∀ a c, Within scope text (f a c) (g a c) fun _ => True) :
    Within scope text (cs.foldlM f a) (cs.foldlM g a) fun _ => True := by
  induction cs generalizing a with
  | nil => exact .give
  | cons c cs ih =>
    rw [List.foldlM_cons, List.foldlM_cons]
    exact (hf a c).next fun b => ih

theorem Within.filterM {f g : γ → Run Bool} {cs : List γ}
    (hf : ∀ c, Within scope text (f c) (g c) fun _ => True) :
    Within scope text (cs.filterM f) (cs.filterM g) fun _ => True := by
  have hkept : ∀ kept : List γ, Within scope text (cs.filterAuxM f kept) (cs.filterAuxM g kept)
      fun _ => True := by
    induction cs with
    | nil => exact fun kept => .give
    | cons c cs ih => exact fun kept => (hf c).next fun b => ih (cond b (c :: kept) kept)
  exact (hkept []).next fun kept => .give

theorem Within.forIn {f g : γ → PUnit → Run (ForInStep PUnit)} {cs : List γ}
    (hf : ∀ c u, Within scope text (f c u) (g c u) fun _ => True) :
    Within scope text (forIn cs PUnit.unit f) (forIn cs PUnit.unit g) fun _ => True := by
  induction cs with
  | nil => exact .give
  | cons c cs ih =>
    rw [List.forIn_cons, List.forIn_cons]
    refine (hf c _).next fun step => ?_
    cases step with
    | done u => exact .give
    | yield u => exact ih

/-! ## Around steps -/

theorem Within.mapFault {f : Fault → Fault} {x y : Run α}
    (halarm : f (Scriptlet.alarm text) = Scriptlet.alarm text)
    (hf : ∀ fault, scope.faults fault → scope.faults (f fault)) (h : Within scope text x y good) :
    Within scope text (Run.mapFault f x) (Run.mapFault f y) good := by
  intro s hs
  rw [mapFault_apply, mapFault_apply]
  rcases h s hs with ⟨t, hstops⟩ | ⟨hsame, hremains⟩
  · exact .inl ⟨t, by simp only [hstops, halarm]⟩
  · rw [hsame]
    cases hx : x s with
    | ok a t =>
      rw [hx] at hremains
      exact .inr ⟨rfl, hremains⟩
    | error fault t =>
      rw [hx] at hremains
      exact .inr ⟨rfl, hremains.1, hf fault hremains.2⟩

theorem Within.tested {x : Run α} {test : Heap → α → Except Fault Unit} (hx : Minds scope text x)
    (htest : ∀ h a, Detached (test h a)) : Minds scope text (Run.tested x test) := by
  intro s hs
  rcases hx s hs with ⟨t, halarm⟩ | ⟨-, hremains⟩
  · exact .inl ⟨t, tested_of_error test halarm⟩
  · refine .inr ⟨rfl, ?_⟩
    rcases tested_cases s x test with ⟨a, t, hok, -, heq⟩ | ⟨fault, t, herror, heq⟩ |
      ⟨a, t, fault, -, hrefused, heq⟩
    · rw [heq]
      rw [hok] at hremains
      exact hremains
    · rw [heq]
      rw [herror] at hremains
      exact hremains
    · rw [heq]
      exact ⟨hs, (htest t.heap a).raises fault hrefused⟩

theorem Within.thenAlways {x y : Run α} {cleanUp : State → State}
    (hclean : ∀ s, (cleanUp s).heap = s.heap) (h : Within scope text x y good) :
    Within scope text (Run.thenAlways x cleanUp) (Run.thenAlways y cleanUp) good := by
  intro s hs
  rw [thenAlways_apply, thenAlways_apply]
  rcases h s hs with ⟨t, hstops⟩ | ⟨hsame, hremains⟩
  · exact .inl ⟨cleanUp t, by rw [hstops]⟩
  · rw [hsame]
    cases hx : x s with
    | ok a t =>
      rw [hx] at hremains
      exact .inr ⟨rfl, (hclean t).symm ▸ hremains.1, hremains.2⟩
    | error fault t =>
      rw [hx] at hremains
      exact .inr ⟨rfl, (hclean t).symm ▸ hremains.1, hremains.2⟩

end Run

end Scriptlet
