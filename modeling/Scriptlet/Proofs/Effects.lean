import Scriptlet.Proofs.Keys
import Scriptlet.Proofs.Run

/-
  What runs do to the state.

  Whatever a run does to its state is a chain of effects from a short list: an object is made or
  changed, a variable is bound, a line is written or refused, a number of chance is drawn. A block
  counts itself in before the effects of its lines and out behind them. A property of states that each
  effect keeps is kept by every run, and no proof of it has to go through the functions of the library
  again.

  An effect says what is known of the entries and members that it makes, and which names it binds.

  What is proved here is how `Run.Acts` goes through the combinators that runs are written with, and
  that effects leave the count of blocks as it is.
-/

namespace Scriptlet

/-- One object is made or changed. -/
inductive Heap.Changes (h : Heap) : Heap → Prop
  | newList (items : Array Value) : Changes h (h.newList items).2
  | newTuple (items : Array Value) : Changes h (h.newTuple items).2
  /-- The entries are new, or those of a mapping that is there. -/
  | newDict {entries : Array Entry} :
    (h.IsKeyed → Entry.AreKeyed h entries) → Changes h (h.newDict entries).2
  /-- The members are new, or some of a set that is there. -/
  | newSet {members : Array Member} :
    (h.IsKeyed → Member.AreKeyed h members) → Changes h (h.newSet members).2
  | newRecord (record : Record) : Changes h (h.newRecord record).2
  | newFloat (x : Float) : Changes h (h.newFloat x).2
  | pushList (r : Ref) (v : Value) : Changes h (h.pushList r v)
  | setListItem (r : Ref) (i : Nat) (v : Value) : Changes h (h.setListItem r i v)
  | replaceList (r : Ref) (items : Array Value) : Changes h (h.replaceList r items)
  | putEntry (r : Ref) {key : Key} {keyValue : Value} (value : Value) : h.key keyValue = .ok key →
    Changes h (h.putEntry r key keyValue value)

/-- The second state comes from the first by effects of a run that binds only such names. -/
inductive NamedEffects (limits : Limits) (named : Text → Prop) : State → State → Prop
  | none (s : State) : NamedEffects limits named s s
  | trans {s t u : State} : NamedEffects limits named s t → NamedEffects limits named t u →
    NamedEffects limits named s u
  | object {s : State} {h : Heap} : s.heap.Changes h → NamedEffects limits named s { s with heap := h }
  | bound (s : State) {name : Text} (value : Value) : named name →
    NamedEffects limits named s { s with vars := s.vars.set name value }
  | refused (s : State) (line : Text) :
    NamedEffects limits named s { s with output := s.output.charge line }
  | written (s : State) (line : Text) : (s.output.charge line).used ≤ limits.maxOutputSize →
    NamedEffects limits named s { s with output := (s.output.charge line).push line }
  | drawn (s : State) (rest : StdGen) : NamedEffects limits named s { s with chance := rest }
  /-- A block, with the effects of its lines. -/
  | block {s t : State} : ((s.depth + 1 : Nat) : Int) ≤ limits.maxNestingDepth →
    NamedEffects limits named { s with depth := s.depth + 1 } t →
    NamedEffects limits named s { t with depth := t.depth - 1 }

/-- Whatever name. -/
def anyName : Text → Prop := fun _ => True

/-- The second state comes from the first by effects of a run. -/
abbrev Effects (limits : Limits) : State → State → Prop := NamedEffects limits anyName

/-- No effect is left in the count of blocks. -/
theorem NamedEffects.depth_eq {limits : Limits} {named : Text → Prop} {s t : State}
    (h : NamedEffects limits named s t) : t.depth = s.depth := by
  induction h with
  | trans _ _ ihs iht => exact iht.trans ihs
  | block _ _ ih =>
    show _ - 1 = _
    rw [ih]
    exact Nat.add_sub_cancel _ 1
  | _ => rfl

namespace Run

variable {α β γ : Type} {limits : Limits} {named : Text → Prop}

/-- The state that a step ends in, with a value or a fault. -/
def after (x : Run α) (s : State) : State :=
  match x s with
  | .ok _ t | .error _ t => t

/-- All that the step does to the state are effects of a run that binds only such names. -/
def Acts (limits : Limits) (named : Text → Prop) (x : Run α) : Prop :=
  ∀ s, NamedEffects limits named s (x.after s)

theorem after_bind (x : Run α) (f : α → Run β) (s : State) :
    (x >>= f).after s = match x s with
      | .ok a t => (f a).after t
      | .error _ t => t := by
  unfold after
  rw [bind_apply]
  cases x s <;> rfl

/-- What only reads the state behind a step leaves the state that the step ends in. -/
theorem after_bind_of_reads {x : Run α} {f : α → Run β} (hf : ∀ a t, (f a).after t = t) (s : State) :
    (x >>= f).after s = x.after s := by
  rw [after_bind]
  unfold after
  cases x s with
  | ok a t => exact hf a t
  | error fault t => rfl

/-- Behind a test the state is the one that the step has ended in, or the one that it began in. -/
theorem after_tested (x : Run α) (test : Heap → α → Except Fault Unit) (s : State) :
    (x.tested test).after s = x.after s ∨ (x.tested test).after s = s := by
  unfold after
  rcases tested_cases s x test with ⟨a, t, hok, -, heq⟩ | ⟨fault, t, herror, heq⟩ |
    ⟨a, t, fault, -, -, heq⟩
  · exact .inl (by rw [heq, hok])
  · exact .inl (by rw [heq, herror])
  · exact .inr (by rw [heq])

theorem after_mapFault (f : Fault → Fault) (x : Run α) (s : State) :
    (mapFault f x).after s = x.after s := by
  unfold after
  rw [mapFault_apply]
  cases x s <;> rfl

namespace Acts

theorem pure (a : α) : Acts limits named (pure a : Run α) := fun s => .none s

theorem throw {fault : Fault} : Acts limits named (throw fault : Run α) := fun s => .none s

theorem get : Acts limits named (MonadState.get : Run State) := fun s => .none s

theorem lift {x : Except Fault α} : Acts limits named (liftM x : Run α) := by
  intro s
  have hafter : (liftM x : Run α).after s = s := by
    unfold after
    rw [liftM_apply]
    cases x <;> rfl
  rw [hafter]
  exact .none s

theorem lifted {x : Except Fault α} : Acts limits named (Run.lift x) := .lift

theorem look {read : Heap → Except Fault α} : Acts limits named (look read) := by
  intro s
  have hafter : (Run.look read).after s = s := by
    unfold after
    rw [look_apply]
    cases read s.heap <;> rfl
  rw [hafter]
  exact .none s

/-- What goes on behind a step goes on in the state that the step ends in. -/
theorem bindOk {x : Run α} {f : α → Run β} (hx : Acts limits named x)
    (hf : ∀ s a t, x s = .ok a t → NamedEffects limits named t ((f a).after t)) :
    Acts limits named (x >>= f) := by
  intro s
  rw [after_bind]
  have hs : NamedEffects limits named s (x.after s) := hx s
  unfold after at hs
  cases hxs : x s with
  | ok a t =>
    rw [hxs] at hs
    exact hs.trans (hf s a t hxs)
  | error fault t =>
    rw [hxs] at hs
    exact hs

theorem bind {x : Run α} {f : α → Run β} (hx : Acts limits named x)
    (hf : ∀ a, Acts limits named (f a)) : Acts limits named (x >>= f) :=
  hx.bindOk fun _ a t _ => hf a t

theorem liftBind {x : Except Fault α} {f : α → Run β} (hf : ∀ a, x = .ok a → Acts limits named (f a)) :
    Acts limits named (liftM x >>= f) :=
  lift.bindOk fun _ a t h => hf a (liftM_ok_iff.mp h).1 t

theorem getBind {f : State → Run β} (hf : ∀ s, NamedEffects limits named s ((f s).after s)) :
    Acts limits named (MonadState.get >>= f) :=
  fun s => hf s

/-- Nothing comes after a fault. -/
theorem throwBind {fault : Fault} {f : α → Run β} :
    Acts limits named (MonadExcept.throw fault >>= f) := fun s => .none s

theorem ite {c : Prop} [Decidable c] {x y : Run α} (hx : Acts limits named x)
    (hy : Acts limits named y) : Acts limits named (if c then x else y) := by
  by_cases h : c
  · rw [if_pos h]
    exact hx
  · rw [if_neg h]
    exact hy

/-! ## Effects -/

theorem make {new : Heap → Value × Heap} (h : ∀ heap : Heap, heap.Changes (new heap).2) :
    Acts limits named (make new) := fun s => .object (h s.heap)

theorem change {update : Heap → Heap} (h : ∀ heap : Heap, heap.Changes (update heap)) :
    Acts limits named (change update) := fun s => .object (h s.heap)

/-- An object is made of what is found in the objects that are there. -/
theorem lookMake {read : Heap → Except Fault α} {new : α → Heap → Value × Heap}
    (h : ∀ heap : Heap, Gives (read heap) fun a => heap.Changes (new a heap).2) :
    Acts limits named (Run.look read >>= fun a => Run.make (new a)) :=
  look.bindOk fun s a t hlook => by
    obtain ⟨hread, rfl⟩ := look_ok_iff.mp hlook
    exact .object (h s.heap a hread)

theorem lookChange {read : Heap → Except Fault α} {update : α → Heap → Heap}
    (h : ∀ heap : Heap, Gives (read heap) fun a => heap.Changes (update a heap)) :
    Acts limits named (Run.look read >>= fun a => Run.change (update a)) :=
  look.bindOk fun s a t hlook => by
    obtain ⟨hread, rfl⟩ := look_ok_iff.mp hlook
    exact .object (h s.heap a hread)

theorem newList {items : List Value} : Acts limits named (newList items) :=
  .make fun _ => .newList _

theorem newTuple {items : List Value} : Acts limits named (newTuple items) :=
  .make fun _ => .newTuple _

theorem newFloat {x : Float} : Acts limits named (newFloat x) := .make fun _ => .newFloat x

theorem binds {name : Text} {v : Value} (hname : named name) :
    Acts limits named (Run.bind name v) := fun s => .bound s v hname

/-- A line is written or refused; its budget is used in either case. -/
theorem write {line : Text} : Acts limits named (write limits line) := by
  intro s
  unfold after Run.write
  simp only [bind_apply, modify_apply, get_apply]
  by_cases h : (s.output.charge line).used > limits.maxOutputSize
  · rw [if_pos h]
    exact .refused s line
  · rw [if_neg h]
    exact .written s line (Int.not_lt.mp h)

/-! ## Loops -/

theorem mapM {f : γ → Run β} {cs : List γ} (hf : ∀ c, Acts limits named (f c)) :
    Acts limits named (cs.mapM f) := by
  induction cs with
  | nil => exact .pure []
  | cons c cs ih =>
    rw [List.mapM_cons]
    exact (hf c).bind fun b => ih.bind fun bs => .pure (b :: bs)

theorem mapIdxM {f : Nat → γ → Run β} {cs : List γ} (hf : ∀ i c, Acts limits named (f i c)) :
    Acts limits named (cs.mapIdxM f) := by
  have hgo : ∀ done : Array β, Acts limits named (List.mapIdxM.go f cs done) := by
    induction cs with
    | nil => exact fun done => .pure done.toList
    | cons c cs ih => exact fun done => (hf done.size c).bind fun b => ih (done.push b)
  exact hgo #[]

theorem foldlM {f : α → γ → Run α} {cs : List γ} {a : α} (hf : ∀ a c, Acts limits named (f a c)) :
    Acts limits named (cs.foldlM f a) := by
  induction cs generalizing a with
  | nil => exact .pure a
  | cons c cs ih =>
    rw [List.foldlM_cons]
    exact (hf a c).bind fun b => ih

theorem filterM {f : γ → Run Bool} {cs : List γ} (hf : ∀ c, Acts limits named (f c)) :
    Acts limits named (cs.filterM f) := by
  have hkept : ∀ kept : List γ, Acts limits named (cs.filterAuxM f kept) := by
    induction cs with
    | nil => exact fun kept => .pure kept
    | cons c cs ih => exact fun kept => (hf c).bind fun b => ih (cond b (c :: kept) kept)
  exact (hkept []).bind fun kept => .pure kept.reverse

theorem forIn {f : γ → PUnit → Run (ForInStep PUnit)} {cs : List γ}
    (hf : ∀ c ∈ cs, ∀ u, Acts limits named (f c u)) : Acts limits named (forIn cs PUnit.unit f) := by
  induction cs with
  | nil => exact .pure PUnit.unit
  | cons c cs ih =>
    rw [List.forIn_cons]
    refine (hf c List.mem_cons_self PUnit.unit).bind fun step => ?_
    cases step with
    | done u => exact .pure u
    | yield u => exact ih fun c' hc' => hf c' (List.mem_cons_of_mem c hc')

/-! ## Around steps -/

theorem mapFault {f : Fault → Fault} {x : Run α} (hx : Acts limits named x) :
    Acts limits named (mapFault f x) := by
  intro s
  rw [after_mapFault]
  exact hx s

theorem tested {x : Run α} {test : Heap → α → Except Fault Unit} (hx : Acts limits named x) :
    Acts limits named (Run.tested x test) := by
  intro s
  rcases after_tested x test s with heq | heq
  · rw [heq]
    exact hx s
  · rw [heq]
    exact .none s

/-- A block that is not too deep does what its lines do, and its count is taken back. -/
theorem counted {x : Run α} {limit : Fault} (hx : Acts limits named x) :
    Acts limits named (do
      modify fun s => { s with depth := s.depth + 1 }
      Run.thenAlways (do
        if (← MonadState.get).depth > limits.maxNestingDepth then MonadExcept.throw limit
        x) fun s => { s with depth := s.depth - 1 }) := by
  intro s
  unfold after
  simp only [bind_apply, modify_apply, thenAlways_apply, get_apply]
  by_cases hdeep : ((s.depth + 1 : Nat) : Int) > limits.maxNestingDepth
  · rw [if_pos hdeep]
    exact .none s
  · rw [if_neg hdeep]
    have hblock := NamedEffects.block (Int.not_lt.mp hdeep) (hx { s with depth := s.depth + 1 })
    unfold after at hblock
    show NamedEffects limits named s (match (match x { s with depth := s.depth + 1 } with
      | .ok a t => EStateM.Result.ok a { t with depth := t.depth - 1 }
      | .error fault t => .error fault { t with depth := t.depth - 1 }) with
      | .ok _ t | .error _ t => t)
    cases hrun : x { s with depth := s.depth + 1 } with
    | ok a t =>
      rw [hrun] at hblock
      exact hblock
    | error fault t =>
      rw [hrun] at hblock
      exact hblock

end Acts

end Run

end Scriptlet
