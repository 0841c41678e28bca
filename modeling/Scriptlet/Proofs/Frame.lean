import Scriptlet.Proofs.Effects
import Scriptlet.Proofs.ReadBack

/-
  Runs that make objects at most.

  A heap grows when objects are added to it and those that are there keep their contents. A run makes
  objects at most when all that it does, whether it ends with a value or with a fault, is to let the heap
  grow: the variables, the output and everything else of the state stay.

  What is proved is how `Run.Grows` goes through the combinators that runs are written with, and
    1. `Operation.grows_binary`, `Operation.grows_unary`, `Operation.grows_slice` — that operators make
       objects at most, whatever their operands are.
-/

namespace Scriptlet

/-! ## Heaps that grow -/

/-- Whatever object is in the first heap has the same contents in the second one. -/
structure Heap.Grows (h g : Heap) : Prop where
  lists : ∀ (r : Ref) items, h.lists[r]? = some items → g.lists[r]? = some items
  tuples : ∀ (r : Ref) items, h.tuples[r]? = some items → g.tuples[r]? = some items
  dicts : ∀ (r : Ref) entries, h.dicts[r]? = some entries → g.dicts[r]? = some entries
  sets : ∀ (r : Ref) members, h.sets[r]? = some members → g.sets[r]? = some members
  records : ∀ (r : Ref) record, h.records[r]? = some record → g.records[r]? = some record

theorem Heap.Extends.grows {h g : Heap} (hext : h.Extends g) : h.Grows g where
  lists := hext.lists
  tuples := hext.tuples
  dicts := hext.dicts
  sets := hext.sets
  records r record hr := by
    rw [hext.records]
    exact hr

namespace Heap.Grows

variable {h g k : Heap}

theorem refl (h : Heap) : h.Grows h := (Extends.refl h).grows

theorem trans (first : h.Grows g) (second : g.Grows k) : h.Grows k where
  lists r items hr := second.lists r items (first.lists r items hr)
  tuples r items hr := second.tuples r items (first.tuples r items hr)
  dicts r entries hr := second.dicts r entries (first.dicts r entries hr)
  sets r members hr := second.sets r members (first.sets r members hr)
  records r record hr := second.records r record (first.records r record hr)

theorem newFloat (h : Heap) (x : Float) : h.Grows (h.newFloat x).2 := by
  unfold Heap.newFloat
  split
  · exact refl h
  · exact ⟨fun _ _ hr => hr, fun _ _ hr => hr, fun _ _ hr => hr, fun _ _ hr => hr, fun _ _ hr => hr⟩

end Heap.Grows

/-! ## Runs that make objects -/

/-- Whether it ends with a value or with a fault, the run has made objects at most: everything else is
as it was, and so are the objects that were there. -/
def Run.Grows {α : Type} (x : Run α) : Prop :=
  ∀ s, ∃ heap, s.heap.Grows heap ∧ x.after s = { s with heap := heap }

namespace Run.Grows

variable {α β γ : Type}

/-- A step that leaves the state as it is. -/
theorem of_reads {x : Run α} (h : ∀ s, x.after s = s) : Grows x := fun s => ⟨s.heap, .refl _, h s⟩

theorem pure {a : α} : Grows (Pure.pure a : Run α) := .of_reads fun _ => rfl

theorem throw {fault : Fault} : Grows (MonadExcept.throw fault : Run α) := .of_reads fun _ => rfl

theorem get : Grows (MonadState.get : Run State) := .of_reads fun _ => rfl

theorem lift {x : Except Fault α} : Grows (liftM x : Run α) := by
  refine .of_reads fun s => ?_
  unfold Run.after
  rw [Run.liftM_apply]
  cases x <;> rfl

theorem look {read : Heap → Except Fault α} : Grows (Run.look read) := by
  refine .of_reads fun s => ?_
  unfold Run.after
  rw [Run.look_apply]
  cases read s.heap <;> rfl

theorem bind {x : Run α} {f : α → Run β} (hx : Grows x) (hf : ∀ a, Grows (f a)) : Grows (x >>= f) := by
  intro s
  obtain ⟨heap, hgrows, hafter⟩ := hx s
  rw [Run.after_bind]
  unfold Run.after at hafter
  cases hxs : x s with
  | ok a t =>
    rw [hxs] at hafter
    obtain rfl : t = { s with heap := heap } := hafter
    obtain ⟨heap', hgrows', hafter'⟩ := hf a { s with heap := heap }
    exact ⟨heap', hgrows.trans hgrows', hafter'⟩
  | error fault t =>
    rw [hxs] at hafter
    exact ⟨heap, hgrows, hafter⟩

theorem tested {x : Run α} {test : Heap → α → Except Fault Unit} (hx : Grows x) :
    Grows (Run.tested x test) := by
  intro s
  rcases Run.after_tested x test s with heq | heq
  · rw [heq]
    exact hx s
  · exact ⟨s.heap, .refl _, heq⟩

theorem liftBind {x : Except Fault α} {f : α → Run β} (hf : ∀ a, x = .ok a → Grows (f a)) :
    Grows (liftM x >>= f) := by
  cases x with
  | ok a => exact hf a rfl
  | error fault => exact .of_reads fun _ => rfl

/-- Nothing comes after a fault. -/
theorem throwBind {fault : Fault} {f : α → Run β} : Grows (MonadExcept.throw fault >>= f) :=
  .of_reads fun _ => rfl

theorem ite {c : Prop} [Decidable c] {x y : Run α} (hx : Grows x) (hy : Grows y) :
    Grows (if c then x else y) := by
  split
  · exact hx
  · exact hy

theorem make {new : Heap → Value × Heap} (h : ∀ heap : Heap, heap.Grows (new heap).2) :
    Grows (Run.make new) := fun s => ⟨(new s.heap).2, h s.heap, rfl⟩

theorem newList {items : List Value} : Grows (Run.newList items) :=
  .make fun h => (Heap.Extends.newList h _).grows

theorem newTuple {items : List Value} : Grows (Run.newTuple items) :=
  .make fun h => (Heap.Extends.newTuple h _).grows

theorem newDict {entries : Array Entry} : Grows (Run.make (·.newDict entries)) :=
  .make fun h => (Heap.Extends.newDict h entries).grows

theorem newSet {members : Array Member} : Grows (Run.make (·.newSet members)) :=
  .make fun h => (Heap.Extends.newSet h members).grows

theorem newFloat {x : Float} : Grows (Run.newFloat x) := .make fun h => .newFloat h x

theorem mapM {f : γ → Run β} {cs : List γ} (hf : ∀ c ∈ cs, Grows (f c)) : Grows (cs.mapM f) := by
  induction cs with
  | nil => exact .pure
  | cons c cs ih =>
    rw [List.mapM_cons]
    refine (hf c List.mem_cons_self).bind fun b => ?_
    exact (ih fun d hd => hf d (List.mem_cons_of_mem c hd)).bind fun bs => .pure

theorem mapFault {f : Fault → Fault} {x : Run α} (hx : Grows x) : Grows (Run.mapFault f x) := by
  intro s
  rw [Run.after_mapFault]
  exact hx s

end Run.Grows

/-! ## Operators -/

namespace Operation

open Run (Grows)

variable {limits : Limits} {levels : Nat} {v w : Value}

theorem grows_ofComputed (c : Computed) : Grows (ofComputed c) := by
  cases c with
  | float x => exact .newFloat
  | _ => exact .pure

theorem grows_ofNumber (n : Number) : Grows (ofNumber n) := by
  cases n with
  | int n => exact .pure
  | float x => exact .newFloat

theorem grows_repeated (v : Value) (count : Int) : Grows (repeated v count) := by
  unfold repeated
  refine .ite .throwBind (Grows.get.bind fun s => Grows.lift.bind fun _ => ?_)
  cases v with
  | list r => exact .newList
  | tuple r => exact .ite .pure .newTuple
  | _ => exact .pure

theorem grows_multiply : Grows (multiply v w) := by
  unfold multiply
  refine Grows.lift.bind fun _ => .ite ?_ (Grows.lift.bind fun _ => .ite ?_ .throw)
  · cases w.integer? with
    | some n => exact grows_repeated v n
    | none => exact .throw
  · cases v.integer? with
    | some n => exact grows_repeated w n
    | none => exact .throw

/-- Joined sequences are a new object, or one of the two if the other is an empty tuple. -/
theorem grows_join : Grows (join v w) := by
  unfold join
  refine Grows.get.bind fun s => ?_
  split
  · exact .pure
  · exact .newList
  · exact .ite .pure (.ite .pure .newTuple)
  all_goals exact .throw

theorem grows_without : Grows (without v w) := by
  unfold without
  refine Grows.get.bind fun s => ?_
  split
  · exact .newSet
  · exact .throw

theorem grows_apply (op : BinaryOp) : Grows (apply limits levels op v w) := by
  unfold apply
  split
  · exact Grows.lift.bind fun c => grows_ofComputed c
  · split
    · exact grows_join
    · exact grows_without
    · exact grows_multiply
    · exact Grows.look.bind fun _ => Grows.lift.bind fun _ => .pure
    · exact .throw

theorem grows_binary (op : BinaryOp) : Grows (binary limits levels op v w) := by
  have hresult : Grows ((apply limits levels op v w).tested (requireSequence limits)) :=
    (grows_apply op).tested
  unfold binary
  refine Grows.lift.bind fun _ => Grows.lift.bind fun _ => ?_
  exact .ite (Grows.look.bind fun _ => hresult) hresult

theorem grows_unary (op : UnaryOp) : Grows (unary op v) := by
  cases op with
  | not => exact Grows.look.bind fun _ => .pure
  | negative =>
    refine Grows.lift.bind fun _ => ?_
    cases v.number? with
    | some n => exact grows_ofNumber n.negate
    | none => exact .pure
  | positive =>
    refine Grows.lift.bind fun _ => ?_
    cases v <;> exact .pure

theorem grows_slice {lower upper step : Value} : Grows (slice v lower upper step) := by
  unfold slice
  refine Grows.lift.bind fun stride => .ite .throwBind ?_
  refine Grows.lift.bind fun _ => Grows.lift.bind fun _ => Grows.get.bind fun s => ?_
  cases v with
  | list r => exact .newList
  | tuple r => exact .ite .pure .newTuple
  | _ => exact .pure

end Operation

end Scriptlet
