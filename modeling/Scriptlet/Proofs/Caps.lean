import Scriptlet.Proofs.Kinds

/-
  Caps on what a run holds.

  A cap bounds the bits of integers, or the elements of collections together with the code points of
  texts. Some parts of the language test a cap before they make something, some make nothing that is
  larger than what they are given, and some do neither: these are left open by the cap.

  What is bound has to fit a cap at every point of a run. Two things can break that outside of
  expressions, the import of a constant and the assignment of an item to a mapping, so there are two
  degrees of fitting: strictly, or but for those two. As for kinds, two guarded runs are compared step
  by step; from a state that fits, either the first run stops with its alarm or both do the same and
  leave a state that fits.
-/

namespace Scriptlet

/-! ## Caps -/

/-- A cap on integers or on sizes. -/
inductive Cap where
  /-- On the bits of integers. -/
  | bits (most : Int)
  /-- On the elements of collections and the code points of texts. -/
  | size (most : Int)

namespace Cap

def AdmitsInt : Cap → Int → Prop
  | bits most, n => Integer.bitLength n ≤ most
  | size _, _ => True

def AdmitsSize : Cap → Nat → Prop
  | bits _, _ => True
  | size most, count => count ≤ most

/-- The cap is one of the limits, some source is within the limits, and no literal of such a source
exceeds the cap by itself. -/
inductive IsOf (limits : Limits) : Cap → Prop
  | bits (hsource : 0 < limits.maxSourceLength)
      (h : 4 * limits.maxSourceLength ≤ limits.maxIntBits) : IsOf limits (bits limits.maxIntBits)
  | size (hsource : 0 < limits.maxSourceLength)
      (h : limits.maxSourceLength ≤ limits.maxCollectionSize) :
    IsOf limits (size limits.maxCollectionSize)

/-- The text that stands in the list of arguments from the start. -/
def firstArgument : Text := "python"

/-- The list is not the list of arguments, unless the cap admits what stands in that from the start. -/
def Reaches (cap : Cap) (r : Ref) : Prop :=
  r = Heap.argumentsRef → cap.AdmitsSize firstArgument.length

end Cap

/-! ## What fits a cap -/

/-- The value fits the cap, whatever the objects are that it refers to. -/
def Value.Fits (cap : Cap) : Value → Prop
  | .int n => cap.AdmitsInt n
  | .text t => cap.AdmitsSize t.length
  | .list r => cap.Reaches r
  | _ => True

/-- The values fit the cap, and so does their number. -/
structure Value.AllFit (cap : Cap) (values : List Value) : Prop where
  size : cap.AdmitsSize values.length
  each : ∀ v ∈ values, v.Fits cap

/-- The keys and the values of entries fit the cap. -/
def Entry.AllFit (cap : Cap) (entries : Array Entry) : Prop :=
  ∀ e ∈ entries, e.keyValue.Fits cap ∧ e.value.Fits cap

/-- The members fit the cap, and so does their number. -/
structure Member.AllFit (cap : Cap) (members : Array Member) : Prop where
  size : cap.AdmitsSize members.size
  each : ∀ m ∈ members, m.value.Fits cap

/-- All objects fit the cap; a mapping may hold too many entries unless the fit is strict. -/
structure Heap.Fits (cap : Cap) (strict : Bool) (h : Heap) : Prop where
  arguments : Heap.argumentsRef < h.lists.size
  list : ∀ r, cap.Reaches r → Value.AllFit cap (h.list r).toList
  tuple : ∀ r, Value.AllFit cap (h.tuple r).toList
  dict : ∀ r, Entry.AllFit cap (h.dict r)
  dictSize : strict = true → ∀ r, cap.AdmitsSize (h.dict r).size
  set : ∀ r, Member.AllFit cap (h.set r)

/-- The value is a constant of a library. -/
def Value.IsConstant (v : Value) : Prop := ∃ (l : Library) (name : Text), (name, v) ∈ l.members

/-- All variables and objects fit the cap; what is bound may be a constant that does not, and a mapping
may hold too many entries, unless the fit is strict. -/
structure State.Fits (cap : Cap) (strict : Bool) (s : State) : Prop where
  vars : ∀ p ∈ s.vars.bindings, p.2.Fits cap ∨ (strict = false ∧ p.2.IsConstant)
  heap : s.heap.Fits cap strict

/-- Constants that are bound fit the cap, and so do the numbers of entries of mappings. -/
structure State.IsClear (cap : Cap) (s : State) : Prop where
  constants : ∀ p ∈ s.vars.bindings, p.2.IsConstant → p.2.Fits cap
  dicts : ∀ r, cap.AdmitsSize (s.heap.dict r).size

/-- The value is no integer that exceeds the cap and holds no more elements than it. -/
def Heap.Admits (h : Heap) (cap : Cap) (v : Value) : Prop :=
  (∀ n, v = .int n → cap.AdmitsInt n) ∧ cap.AdmitsSize (h.size v)

/-- What is bound does not exceed the cap, nor does what it holds at any depth. -/
def State.Respects (s : State) (cap : Cap) : Prop :=
  ∀ name v, s.vars.find? name = some v → ∀ w, s.heap.Holds v w → s.heap.Admits cap w

/-! ## Guards -/

/-- What is being run. -/
inductive Job where
  | text
  | node (e : Expr)
  | block
  | call (f : Function) (arguments : Arguments)

/-- A watch for everything that is run. -/
abbrev Guard := Job → Watch

namespace Job

/-- What may make an integer that no limit is tested for, and that may be larger than all that it is
given. -/
def MakesInt (limits : Limits) : Job → Prop
  | .node (.literal _ (.int n)) => tenTo limits.maxSourceLength.toNat ≤ n
  | .node (.attribute ..) | .node (.binary _ .add ..) | .node (.binary _ .sub ..) => True
  | .call (.builtin f) _ =>
    f ∈ [.len, .getattr, .id, .hash, .int, .sum, .round, .enumerate, .ord]
  | .call (.library f) _ => f ∈ [.ceil, .floor, .factorial, .randint, .time, .loads]
  | .call (.method _ m) _ => m ∈ [.start, .stop]
  | _ => False

/-- What may make a text or a collection whose size no limit is tested for, and that may be larger than
all that it is given. -/
def MakesSize (limits : Limits) : Job → Prop
  | .node (.literal _ (.text t)) => limits.maxSourceLength < t.length
  | .node (.list _ items) | .node (.tuple _ items) | .node (.set _ items) =>
    limits.maxSourceLength < items.length
  | .node (.dict _ entries) => limits.maxSourceLength < entries.length
  | .node (.attribute ..) => True
  | .call (.builtin .zip) arguments => limits.maxCollectionSize < arguments.positional.length
  | .call (.builtin .enumerate) _ | .call (.builtin .divmod) _ => limits.maxCollectionSize < 2
  | .call (.builtin f) _ => f ∈ [.input, .type, .getattr, .setattr, .dir, .str, .ascii, .repr]
  | .call (.library f) _ =>
    f ∈ [.today, .loads, .dumps, .findall, .substitute, .getcwd, .listdir, .join]
  | .call (.method _ m) _ => m ∈ [.read, .write, .close, .group, .groups, .isoformat]
  | _ => False

/-- The cap leaves open what this makes. -/
def IsOpen (limits : Limits) (job : Job) : Cap → Prop
  | .bits _ => job.MakesInt limits
  | .size _ => job.MakesSize limits

variable {limits : Limits} {cap : Cap} {job : Job}

/-- An integer is admitted if only what the cap leaves open could make it otherwise. -/
theorem admitsInt_of_closed (h : ¬ job.IsOpen limits cap) {n : Int}
    (hmakes : ¬ cap.AdmitsInt n → job.MakesInt limits) : cap.AdmitsInt n := by
  cases cap with
  | bits most => exact Classical.byContradiction fun hn => h (hmakes hn)
  | size most => trivial

/-- A size is admitted if only what the cap leaves open could make it otherwise. -/
theorem admitsSize_of_closed (h : ¬ job.IsOpen limits cap) {n : Nat}
    (hmakes : ¬ cap.AdmitsSize n → job.MakesSize limits) : cap.AdmitsSize n := by
  cases cap with
  | bits most => trivial
  | size most => exact Classical.byContradiction fun hn => h (hmakes hn)

end Job

namespace Guard

/-- All that there is fits the cap, and so does the value that has come up. -/
def fits (cap : Cap) : Guard := fun _ event s =>
  s.Fits cap true ∧ ∀ v, event.value? = some v → v.Fits cap

/-- What the cap leaves open keeps all that there is within the cap, imports and assignments of items
included. -/
def growth (limits : Limits) (cap : Cap) : Guard := fun job event s =>
  s.IsClear cap ∧ (job.IsOpen limits cap → event ≠ .begins → fits cap job event s)

/-- What is bound does not exceed the cap at any depth. -/
def bindings (cap : Cap) : Guard := fun _ _ s => s.Respects cap

end Guard

namespace Engine

/-- The engine while it is guarded. -/
noncomputable def guarded (g : Guard) (text : Text) (engine : Engine) : Engine where
  evaluate source := (engine.evaluate source).watched (g .text) text .evaluated
  evaluateNode source e := (engine.evaluateNode source e).watched (g (.node e)) text .found
  runLines ls := (engine.runLines ls).watched (g .block) text fun _ => .executed
  call f arguments := (engine.call f arguments).watched (g (.call f arguments)) text (.called f)

/-- The stack of engines, each of them guarded. -/
noncomputable def guardedTower (g : Guard) (text : Text) (limits : Limits) : Nat → Nat → Engine
  | 0, _ => exhausted.guarded g text
  | levels + 1, 0 => (step limits ⟨guardedTower g text limits levels, levels⟩).guarded g text
  | levels + 1, further + 1 => guardedTower g text limits levels further

end Engine

/-- The lines run from the state without an alarm. -/
def Guard.Passes (g : Guard) (limits : Limits) (ls : List Text) (s : State) : Prop :=
  ∀ text, (Engine.guardedTower g text limits Engine.startLevels 0).runLines ls s =
    (Engine.start limits).runLines ls s

/-- All that executing a source runs passes the guard; a source that is too long is not run, nor is one
without lines. -/
def Guard.PassesSource (g : Guard) (limits : Limits) (source : Text) (s : State) : Prop :=
  source.length ≤ limits.maxSourceLength → Source.cleanLines source ≠ [] →
    g.Passes limits (Source.cleanLines source) s

/-! ## Steps that are compared -/

variable {cap : Cap} {strict : Bool}

/-- A strict fit is a fit of both degrees, and every fit is a loose one. -/
theorem Heap.Fits.mono {other : Bool} {h : Heap} (hh : h.Fits cap strict)
    (hother : other = true → strict = true) : h.Fits cap other :=
  ⟨hh.arguments, hh.list, hh.tuple, hh.dict, fun h => hh.dictSize (hother h), hh.set⟩

theorem State.Fits.mono {other : Bool} {s : State} (hs : s.Fits cap strict)
    (hother : other = true → strict = true) : s.Fits cap other := by
  refine ⟨fun p hp => (hs.vars p hp).imp_right fun ⟨hstrict, hconstant⟩ => ⟨?_, hconstant⟩,
    hs.heap.mono hother⟩
  cases other with
  | false => rfl
  | true => exact absurd (hother rfl) (by rw [hstrict]; exact Bool.false_ne_true)

theorem State.Fits.ofStrict {s : State} (hs : s.Fits cap true) : s.Fits cap strict :=
  hs.mono fun _ => rfl

theorem State.Fits.loose {s : State} (hs : s.Fits cap strict) : s.Fits cap false :=
  hs.mono fun h => (Bool.false_ne_true h).elim

namespace Run

variable {α β γ : Type} {text : Text} {good : α → Prop} {fine : β → Prop}

/-- The result is good and the state behind it fits the cap, as it does behind a fault. -/
def Leaves (cap : Cap) (strict : Bool) (good : α → Prop) : EStateM.Result Fault State α → Prop
  | .ok a t => t.Fits cap strict ∧ good a
  | .error _ t => t.Fits cap strict

/-- From a state that fits the cap the first step stops with the alarm, or both steps do the same. -/
def Agrees (cap : Cap) (strict : Bool) (text : Text) (x y : Run α) : Prop :=
  ∀ s, s.Fits cap strict → (∃ t, x s = .error (alarm text) t) ∨ y s = x s

/-- From a state that fits the cap the first step stops with the alarm, or both steps do the same, give
something good and leave a state that fits. -/
def Follows (cap : Cap) (strict : Bool) (text : Text) (x y : Run α) (good : α → Prop) : Prop :=
  ∀ s, s.Fits cap strict →
    (∃ t, x s = .error (alarm text) t) ∨ (y s = x s ∧ Leaves cap strict good (x s))

/-- From a state that fits loosely the first step stops with the alarm, or both steps do the same, give
something good and leave a state that fits strictly. -/
def Settles (cap : Cap) (text : Text) (x y : Run α) (good : α → Prop) : Prop :=
  ∀ s, s.Fits cap false →
    (∃ t, x s = .error (alarm text) t) ∨ (y s = x s ∧ Leaves cap true good (x s))

/-- The step gives something good and leaves a state that fits. -/
abbrev Stays (cap : Cap) (strict : Bool) (text : Text) (x : Run α) (good : α → Prop) : Prop :=
  Follows cap strict text x x good

theorem Follows.of {x : Run α} (h : ∀ s, s.Fits cap strict → Leaves cap strict good (x s)) :
    Stays cap strict text x good :=
  fun s hs => .inr ⟨rfl, h s hs⟩

theorem Leaves.mono {better : α → Prop} {result : EStateM.Result Fault State α}
    (h : Leaves cap strict better result) (hgood : ∀ a, better a → good a) :
    Leaves cap strict good result := by
  cases result with
  | ok a t => exact ⟨h.1, hgood a h.2⟩
  | error fault t => exact h

theorem Follows.mono {x y : Run α} {better : α → Prop} (h : Follows cap strict text x y better)
    (hgood : ∀ a, better a → good a) : Follows cap strict text x y good :=
  fun s hs => (h s hs).imp_right fun ⟨hsame, hleaves⟩ => ⟨hsame, hleaves.mono hgood⟩

theorem Leaves.ofStrict {result : EStateM.Result Fault State α} (h : Leaves cap true good result) :
    Leaves cap strict good result := by
  cases result with
  | ok a t => exact ⟨h.1.ofStrict, h.2⟩
  | error fault t => exact State.Fits.ofStrict h

theorem Settles.follows {x y : Run α} (h : Settles cap text x y good) :
    Follows cap strict text x y good :=
  fun s hs => (h s hs.loose).imp_right fun ⟨hsame, hleaves⟩ => ⟨hsame, hleaves.ofStrict⟩

theorem Agrees.same {x : Run α} : Agrees cap strict text x x := fun _ _ => .inr rfl

theorem Follows.pure {a : α} (ha : good a) : Stays cap strict text (pure a) good :=
  .of fun _ hs => ⟨hs, ha⟩

theorem Follows.throw {fault : Fault} : Stays cap strict text (throw fault : Run α) good :=
  .of fun _ hs => hs

theorem Follows.bind {x y : Run α} {f g : α → Run β} (hx : Follows cap strict text x y good)
    (hf : ∀ a, good a → Follows cap strict text (f a) (g a) fine) :
    Follows cap strict text (x >>= f) (y >>= g) fine := by
  intro s hs
  rw [bind_apply, bind_apply]
  rcases hx s hs with ⟨t, halarm⟩ | ⟨hsame, hleaves⟩
  · exact .inl ⟨t, by rw [halarm]⟩
  · rw [hsame]
    cases hxs : x s with
    | ok a t =>
      rw [hxs] at hleaves
      exact hf a hleaves.2 t hleaves.1
    | error fault t =>
      rw [hxs] at hleaves
      exact .inr ⟨rfl, hleaves⟩

/-- What comes last only has to be the same. -/
theorem Follows.bindAgrees {x y : Run α} {f g : α → Run β} (hx : Follows cap strict text x y good)
    (hf : ∀ a, good a → Agrees cap strict text (f a) (g a)) :
    Agrees cap strict text (x >>= f) (y >>= g) := by
  intro s hs
  rw [bind_apply, bind_apply]
  rcases hx s hs with ⟨t, halarm⟩ | ⟨hsame, hleaves⟩
  · exact .inl ⟨t, by rw [halarm]⟩
  · rw [hsame]
    cases hxs : x s with
    | ok a t =>
      rw [hxs] at hleaves
      exact hf a hleaves.2 t hleaves.1
    | error fault t => exact .inr rfl

/-- What comes behind does the same whatever it is given. -/
theorem Agrees.bindSame {x y : Run α} {f : α → Run β} (hx : Agrees cap strict text x y) :
    Agrees cap strict text (x >>= f) (y >>= f) := by
  intro s hs
  rw [bind_apply, bind_apply]
  rcases hx s hs with ⟨t, halarm⟩ | hsame
  · exact .inl ⟨t, by rw [halarm]⟩
  · exact .inr (by rw [hsame])

/-- Nothing comes after a fault. -/
theorem Follows.throwBind {fault : Fault} {f g : α → Run β} :
    Follows cap strict text (MonadExcept.throw fault >>= f) (MonadExcept.throw fault >>= g) fine := by
  have hthrow : Stays cap strict text (MonadExcept.throw fault : Run α) fun _ => False := .throw
  exact hthrow.bind fun _ h => h.elim

theorem Follows.ite {c : Prop} [Decidable c] {x y x' y' : Run α}
    (hx : c → Follows cap strict text x x' good) (hy : ¬ c → Follows cap strict text y y' good) :
    Follows cap strict text (if c then x else y) (if c then x' else y') good := by
  by_cases h : c
  · simp only [h, if_true]
    exact hx h
  · simp only [h, if_false]
    exact hy h

theorem Follows.get : Stays cap strict text MonadState.get (State.Fits cap strict) :=
  .of fun _ hs => ⟨hs, hs⟩

theorem Follows.lift {x : Except Fault α} (h : Gives x good) :
    Stays cap strict text (liftM x) good := by
  refine .of fun s hs => ?_
  rw [liftM_apply]
  cases hx : x with
  | ok a => exact ⟨hs, h a hx⟩
  | error fault => exact hs

theorem Follows.lifted {x : Except Fault α} (h : Gives x good) :
    Stays cap strict text (Run.lift x) good := .lift h

theorem Follows.look {read : Heap → Except Fault α}
    (h : ∀ heap, heap.Fits cap strict → Gives (read heap) good) :
    Stays cap strict text (look read) good := by
  refine .of fun s hs => ?_
  rw [look_apply]
  cases hread : read s.heap with
  | ok a => exact ⟨hs, h s.heap hs.heap a hread⟩
  | error fault => exact hs

/-- What is found may be anything. -/
theorem Follows.lookAny {read : Heap → Except Fault α} :
    Stays cap strict text (Run.look read) fun _ => True :=
  .look fun _ _ => .any

theorem Follows.liftAny {x : Except Fault α} : Stays cap strict text (liftM x) fun _ => True :=
  .lift .any

theorem Follows.modify {f : State → State} (h : ∀ s, s.Fits cap strict → (f s).Fits cap strict) :
    Stays cap strict text (modify f : Run PUnit) fun _ => True :=
  .of fun s hs => ⟨h s hs, trivial⟩

theorem Follows.make {new : Heap → Value × Heap}
    (h : ∀ heap, heap.Fits cap strict → (new heap).1.Fits cap ∧ (new heap).2.Fits cap strict) :
    Stays cap strict text (make new) (Value.Fits cap) :=
  .of fun s hs => ⟨⟨hs.vars, (h s.heap hs.heap).2⟩, (h s.heap hs.heap).1⟩

theorem Follows.change {update : Heap → Heap}
    (h : ∀ heap, heap.Fits cap strict → (update heap).Fits cap strict) :
    Stays cap strict text (change update) fun _ => True :=
  .modify fun s hs => ⟨hs.vars, h s.heap hs.heap⟩

/-! ## Loops -/

/-- One result for each element, all of them good. -/
theorem Follows.mapM {f g : γ → Run β} {cs : List γ}
    (hf : ∀ c ∈ cs, Follows cap strict text (f c) (g c) fine) :
    Follows cap strict text (cs.mapM f) (cs.mapM g)
      fun bs => bs.length = cs.length ∧ ∀ b ∈ bs, fine b := by
  induction cs with
  | nil => exact .pure ⟨rfl, fun b hb => absurd hb List.not_mem_nil⟩
  | cons c cs ih =>
    rw [List.mapM_cons, List.mapM_cons]
    refine (hf c List.mem_cons_self).bind fun b hb => ?_
    refine (ih fun d hd => hf d (List.mem_cons_of_mem _ hd)).bind fun bs ⟨hlength, hbs⟩ => ?_
    exact .pure ⟨congrArg (· + 1) hlength, List.forall_mem_cons.mpr ⟨hb, hbs⟩⟩

theorem Follows.mapIdxM {f g : Nat → γ → Run β} {cs : List γ}
    (hf : ∀ i, ∀ c ∈ cs, Follows cap strict text (f i c) (g i c) fine) :
    Follows cap strict text (cs.mapIdxM f) (cs.mapIdxM g)
      fun bs => bs.length = cs.length ∧ ∀ b ∈ bs, fine b := by
  have hgo : ∀ {done : Array β}, (∀ b ∈ done, fine b) →
      Follows cap strict text (List.mapIdxM.go f cs done) (List.mapIdxM.go g cs done)
        fun bs => bs.length = done.size + cs.length ∧ ∀ b ∈ bs, fine b := by
    induction cs with
    | nil => exact fun hdone => .pure ⟨by simp, fun b hb => hdone b (Array.mem_toList_iff.mp hb)⟩
    | cons c cs ih =>
      intro done hdone
      refine (hf done.size c List.mem_cons_self).bind fun b hb => ?_
      refine (ih (fun i d hd => hf i d (List.mem_cons_of_mem _ hd)) fun d hd => ?_).mono
        fun bs ⟨hlength, hbs⟩ => ⟨?_, hbs⟩
      · rcases Array.mem_push.mp hd with hd | rfl
        · exact hdone d hd
        · exact hb
      · rw [hlength, Array.size_push, List.length_cons]
        omega
  refine (hgo fun b hb => absurd hb (Array.not_mem_empty b)).mono fun bs ⟨hlength, hbs⟩ => ⟨?_, hbs⟩
  simpa using hlength

theorem Follows.foldlM {f g : α → γ → Run α} {cs : List γ} {a : α} (ha : good a)
    (hf : ∀ c ∈ cs, ∀ a, good a → Follows cap strict text (f a c) (g a c) good) :
    Follows cap strict text (cs.foldlM f a) (cs.foldlM g a) good := by
  induction cs generalizing a with
  | nil => exact .pure ha
  | cons c cs ih =>
    rw [List.foldlM_cons, List.foldlM_cons]
    refine (hf c List.mem_cons_self a ha).bind fun b hb => ?_
    exact ih hb fun d hd => hf d (List.mem_cons_of_mem _ hd)

theorem Follows.filterAuxM {f g : γ → Run Bool} {cs kept : List γ}
    (hf : ∀ c ∈ cs, Follows cap strict text (f c) (g c) fun _ => True) :
    Follows cap strict text (cs.filterAuxM f kept) (cs.filterAuxM g kept)
      fun ds => ds.reverse.Sublist (kept.reverse ++ cs) := by
  induction cs generalizing kept with
  | nil => exact .pure (by simp)
  | cons c cs ih =>
    refine (hf c List.mem_cons_self).bind fun b _ => ?_
    refine (ih fun d hd => hf d (List.mem_cons_of_mem _ hd)).mono fun ds hds => hds.trans ?_
    cases b with
    | true => simp
    | false => exact List.Sublist.append_left (List.sublist_cons_self c cs) _

theorem Follows.filterM {f g : γ → Run Bool} {cs : List γ}
    (hf : ∀ c ∈ cs, Follows cap strict text (f c) (g c) fun _ => True) :
    Follows cap strict text (cs.filterM f) (cs.filterM g) fun ds => ds.Sublist cs :=
  (Follows.filterAuxM hf).bind fun _ hds => .pure hds

theorem Follows.forIn {f g : γ → PUnit → Run (ForInStep PUnit)} {cs : List γ}
    (hf : ∀ c ∈ cs, ∀ u, Follows cap strict text (f c u) (g c u) fun _ => True) :
    Follows cap strict text (forIn cs PUnit.unit f) (forIn cs PUnit.unit g) fun _ => True := by
  induction cs with
  | nil => exact .pure trivial
  | cons c cs ih =>
    rw [List.forIn_cons, List.forIn_cons]
    refine (hf c List.mem_cons_self _).bind fun step _ => ?_
    cases step with
    | done u => exact .pure trivial
    | yield u => exact ih fun d hd => hf d (List.mem_cons_of_mem _ hd)

/-! ## Around steps -/

theorem Agrees.mapFault {f : Fault → Fault} {x y : Run α} (hf : f (alarm text) = alarm text)
    (h : Agrees cap strict text x y) :
    Agrees cap strict text (mapFault f x) (Run.mapFault f y) := by
  intro s hs
  rw [mapFault_apply, mapFault_apply]
  rcases h s hs with ⟨t, halarm⟩ | hsame
  · exact .inl ⟨t, by simp only [halarm, hf]⟩
  · exact .inr (by rw [hsame])

theorem Follows.mapFault {f : Fault → Fault} {x y : Run α} (hf : f (alarm text) = alarm text)
    (h : Follows cap strict text x y good) :
    Follows cap strict text (mapFault f x) (Run.mapFault f y) good := by
  intro s hs
  rw [mapFault_apply, mapFault_apply]
  rcases h s hs with ⟨t, halarm⟩ | ⟨hsame, hleaves⟩
  · exact .inl ⟨t, by simp only [halarm, hf]⟩
  · rw [hsame]
    cases hx : x s with
    | ok a t =>
      rw [hx] at hleaves
      exact .inr ⟨rfl, hleaves⟩
    | error fault t =>
      rw [hx] at hleaves
      exact .inr ⟨rfl, hleaves⟩

theorem Follows.thenAlways {x y : Run α} {depth : State → Nat}
    (h : Follows cap strict text x y good) :
    Follows cap strict text (thenAlways x fun s => { s with depth := depth s })
      (Run.thenAlways y fun s => { s with depth := depth s }) good := by
  intro s hs
  rw [thenAlways_apply, thenAlways_apply]
  rcases h s hs with ⟨t, halarm⟩ | ⟨hsame, hleaves⟩
  · exact .inl ⟨_, by rw [halarm]⟩
  · rw [hsame]
    cases hx : x s with
    | ok a t =>
      rw [hx] at hleaves
      exact .inr ⟨rfl, ⟨hleaves.1.vars, hleaves.1.heap⟩, hleaves.2⟩
    | error fault t =>
      rw [hx] at hleaves
      exact .inr ⟨rfl, hleaves.vars, hleaves.heap⟩

end Run

end Scriptlet
