import Scriptlet.Proofs.Kinds.Values

/-
  Operators that keep kinds.

  Arithmetic can make a complex number, but the result of an operator is classified before it is given
  back.

  What is proved:
    1. `keeps_binary`, `keeps_unary`, `keeps_slice` — the results of operators and slices have kinds.
    2. `keeps_store` — so have the values of a container in which a value with a kind is stored.
-/

namespace Scriptlet

variable {text : Text} {v w : Value}

namespace Run

/-! ## Making objects -/

theorem keeps_newList {items : List Value} (hitems : ∀ v ∈ items, v.HasKind) :
    Keeps text (newList items) Value.HasKind :=
  .make fun _ hh => hh.newList fun v hv => hitems v (List.mem_toArray.mp hv)

theorem keeps_newTuple {items : List Value} (hitems : ∀ v ∈ items, v.HasKind) :
    Keeps text (newTuple items) Value.HasKind :=
  .make fun _ hh => hh.newTuple fun v hv => hitems v (List.mem_toArray.mp hv)

theorem keeps_newFloat (x : Float) : Keeps text (newFloat x) Value.HasKind :=
  .make fun _ hh => hh.newFloat x

/-! ## Variables and output -/

theorem mem_bind {name : Text} {bindings : List (Text × Value)} {p : Text × Value}
    (hp : p ∈ Variables.bind name v bindings) : p = (name, v) ∨ p ∈ bindings := by
  induction bindings with
  | nil =>
    cases List.mem_singleton.mp hp
    exact .inl rfl
  | cons q rest ih =>
    obtain ⟨other, old⟩ := q
    unfold Variables.bind at hp
    split at hp
    · rcases List.mem_cons.mp hp with rfl | hp
      · exact .inl rfl
      · exact .inr (List.mem_cons_of_mem _ hp)
    · rcases List.mem_cons.mp hp with rfl | hp
      · exact .inr List.mem_cons_self
      · exact (ih hp).imp_right (List.mem_cons_of_mem _)

theorem keeps_bind (name : Text) (hv : v.HasKind) : Keeps text (Run.bind name v) fun _ => True := by
  refine .modify fun s hs => ⟨fun p hp => ?_, hs.heap⟩
  rcases mem_bind hp with rfl | hp
  · exact hv
  · exact hs.vars p hp

theorem keeps_write (limits : Limits) (line : Text) :
    Keeps text (write limits line) fun _ => True := by
  have hpush : ∀ f : Output → Output,
      Keeps text (modify fun s => { s with output := f s.output } : Run PUnit) fun _ => True :=
    fun f => .modify fun s hs => ⟨hs.vars, hs.heap⟩
  refine (hpush (Output.charge · line)).bind fun _ _ => ?_
  refine Tracks.get.bind fun s _ => ?_
  refine .ite (fun _ => .throwBind) fun _ => ?_
  exact hpush (Output.push · line)

end Run

theorem State.HasKinds.find? {s : State} {name : Text} (hs : s.HasKinds)
    (hv : s.vars.find? name = some v) : v.HasKind := hs.vars _ (mem_of_lookup hv)

/-- The number is not complex. -/
def Computed.IsReal : Computed → Prop
  | .int _ | .float _ => True
  | .complex _ _ => False

/-- The number is no integer, and complex only where this holds. -/
def Computed.IsInexact (complex : Prop) : Computed → Prop
  | .int _ => False
  | .float _ => True
  | .complex _ _ => complex

namespace Computed.IsInexact

variable {c : Computed} {complex complex' : Prop}

theorem mono (hc : c.IsInexact complex) (h : complex → complex') : c.IsInexact complex' := by
  cases c with
  | int n => exact hc.elim
  | float x => trivial
  | complex re im => exact h hc

theorem isReal (hc : c.IsInexact complex) (h : ¬ complex) : c.IsReal := by
  cases c with
  | int n => exact hc.elim
  | float x => trivial
  | complex re im => exact h hc

theorem ne_int (hc : c.IsInexact complex) (n : Int) : c ≠ .int n := by
  rintro rfl
  exact hc

end Computed.IsInexact

namespace Number

/-! ## Numbers -/

/-- No integer comes of a power of doubles, and a complex number only where a negative one is raised to
what is no integer. -/
theorem gives_floatPower (x y : Float) :
    Gives (floatPower x y) (Computed.IsInexact (x < 0 ∧ Binary64.isIntegral y = false)) := by
  unfold floatPower
  refine .ite (fun _ => .pure trivial) fun _ => ?_
  refine .ite (fun _ => .pure trivial) fun _ => .ite (fun _ => .pure trivial) fun _ => ?_
  refine .ite (fun _ => .ite (fun _ => .pure trivial) fun _ => .pure trivial) fun _ => ?_
  refine .ite (fun _ => .ite (fun _ => .pure trivial) fun _ => .pure trivial) fun _ => ?_
  refine .ite (fun _ => .ite (fun _ => .throw) fun _ => .pure trivial) fun _ => ?_
  refine .ite (fun hcomplex => ?_) fun _ => .ite (fun _ => .pure trivial) fun _ => .throw
  have hcomplex : x < 0 ∧ Binary64.isIntegral y = false := by simpa using hcomplex
  exact .ite (fun _ => .pure hcomplex) fun _ => .throw

theorem gives_computeFloats (op : BinaryOp) (x y : Float) :
    Gives (computeFloats op x y)
      (Computed.IsInexact (op = .pow ∧ x < 0 ∧ Binary64.isIntegral y = false)) := by
  cases op with
  | add | sub | mul => exact .pure trivial
  | div | floorDiv | mod => exact .ite (fun _ => .throw) fun _ => .pure trivial
  | pow => exact (gives_floatPower x y).mono fun c hc => hc.mono fun h => ⟨rfl, h⟩

theorem gives_computeInts (op : BinaryOp) (hop : op ≠ .pow) (m n : Int) :
    Gives (computeInts op m n) Computed.IsReal := by
  cases op with
  | add | sub | mul => exact .pure trivial
  | div => exact Gives.any.bind fun _ _ => .pure trivial
  | floorDiv | mod => exact .ite (fun _ => .throw) fun _ => .pure trivial
  | pow => exact absurd rfl hop

theorem gives_compute (op : BinaryOp) (hop : op ≠ .pow) (a b : Number) :
    Gives (compute op a b) Computed.IsReal := by
  have hfloats : ∀ x y, Gives (computeFloats op x y) Computed.IsReal := fun x y =>
    (gives_computeFloats op x y).mono fun c hc => hc.isReal fun h => hop h.1
  cases a with
  | int m =>
    cases b with
    | int n => exact gives_computeInts op hop m n
    | float y =>
      exact Gives.any.bind fun x _ => Gives.any.bind fun y _ => hfloats x y
  | float x =>
    exact Gives.any.bind fun x _ => Gives.any.bind fun y _ => hfloats x y

end Number

namespace Operation

open Run

variable {limits : Limits} {room : Nat}

/-- What is computed is a value without a kind at worst, and the state keeps its kinds. -/
theorem keeps_ofComputed (c : Computed) : Keeps text (ofComputed c) fun v => c.IsReal → v.HasKind := by
  cases c with
  | int n => exact .pure fun _ => rfl
  | float x => exact (keeps_newFloat x).mono fun _ hv _ => hv
  | complex re im => exact .pure fun h => h.elim

theorem keeps_ofNumber (n : Number) : Keeps text (ofNumber n) Value.HasKind := by
  cases n with
  | int n => exact .pure rfl
  | float x => exact keeps_newFloat x

/-! ## Sequences and sets -/

theorem mem_copies {items : Array Value} {times : Nat}
    (hv : v ∈ (List.replicate times items.toList).flatten) : v ∈ items := by
  obtain ⟨copy, hcopy, hv⟩ := List.mem_flatten.mp hv
  rw [List.eq_of_mem_replicate hcopy] at hv
  exact Array.mem_toList_iff.mp hv

theorem keeps_repeated (hv : v.HasKind) (count : Int) : Keeps text (repeated v count) Value.HasKind := by
  unfold repeated
  refine .ite (fun _ => .throwBind) fun _ => ?_
  refine Tracks.get.bind fun s hs => ?_
  refine Tracks.liftAny.bind fun _ _ => ?_
  cases v with
  | text t => exact .pure rfl
  | list r => exact keeps_newList fun w hw => hs.heap.list r w (mem_copies hw)
  | tuple r =>
    refine .ite (fun _ => .pure rfl) fun _ => ?_
    exact keeps_newTuple fun w hw => hs.heap.tuple r w (mem_copies hw)
  | _ => exact .pure hv

theorem keeps_multiply (hv : v.HasKind) (hw : w.HasKind) :
    Keeps text (multiply v w) Value.HasKind := by
  unfold multiply
  refine Tracks.liftAny.bind fun k _ => ?_
  refine .ite (fun _ => ?_) fun _ => ?_
  · cases w.integer? with
    | some n => exact keeps_repeated hv n
    | none => exact .throw
  · refine Tracks.liftAny.bind fun k _ => ?_
    refine .ite (fun _ => ?_) fun _ => .throw
    cases v.integer? with
    | some n => exact keeps_repeated hw n
    | none => exact .throw

theorem keeps_join : Keeps text (join v w) Value.HasKind := by
  unfold join
  refine Tracks.get.bind fun s hs => ?_
  have hboth : ∀ {xs ys : Array Value}, (∀ v ∈ xs, v.HasKind) → (∀ v ∈ ys, v.HasKind) →
      ∀ v ∈ xs.toList ++ ys.toList, v.HasKind := by
    intro xs ys hxs hys v hv
    rcases List.mem_append.mp hv with hv | hv
    · exact hxs v (Array.mem_toList_iff.mp hv)
    · exact hys v (Array.mem_toList_iff.mp hv)
  split
  · exact .pure rfl
  · exact keeps_newList (hboth (hs.heap.list _) (hs.heap.list _))
  · refine .ite (fun _ => .pure rfl) fun _ => .ite (fun _ => .pure rfl) fun _ => ?_
    exact keeps_newTuple (hboth (hs.heap.tuple _) (hs.heap.tuple _))
  · exact .throw
  · exact .throw
  · exact .throw
  · exact .throw

theorem keeps_without : Keeps text (without v w) Value.HasKind := by
  unfold without
  refine Tracks.get.bind fun s hs => ?_
  split
  · refine .make fun h hh => hh.newSet fun m hm => ?_
    exact hs.heap.set _ m (Array.mem_filter.mp hm).1
  · exact .throw

theorem keeps_fillTemplate (template : Text) :
    Keeps text (fillTemplate limits room template v) Value.HasKind :=
  Tracks.lookAny.bind fun _ _ => Tracks.liftAny.bind fun _ _ => .pure rfl

/-! ## Operators -/

/-- Of two values that are no numbers an operator makes a value with a kind; of numbers it may make a
complex one. -/
theorem keeps_apply (op : BinaryOp) (hv : v.HasKind) (hw : w.HasKind) :
    Keeps text (apply limits room op v w) fun _ => True := by
  unfold apply
  split
  · refine Tracks.liftAny.bind fun c _ => ?_
    exact (keeps_ofComputed c).mono fun _ _ => trivial
  · split
    · exact keeps_join.mono fun _ _ => trivial
    · exact keeps_without.mono fun _ _ => trivial
    · exact (keeps_multiply hv hw).mono fun _ _ => trivial
    · exact (keeps_fillTemplate _).mono fun _ _ => trivial
    · exact .throw

theorem keeps_binary (op : BinaryOp) (hv : v.HasKind) (hw : w.HasKind) :
    Keeps text (binary limits room op v w) Value.HasKind := by
  unfold binary
  refine Tracks.liftAny.bind fun _ _ => Tracks.liftAny.bind fun _ _ => ?_
  have hresult : Keeps text ((apply limits room op v w).tested (requireSequence limits)) Value.HasKind := by
    refine (keeps_apply op hv hw).tested fun h result hpassed => ?_
    obtain ⟨k, hk, -⟩ := bind_ok hpassed
    exact result.gives_kind k hk
  exact .ite (fun _ => Tracks.lookAny.bind fun _ _ => hresult) fun _ => hresult

theorem keeps_unary (op : UnaryOp) (hv : v.HasKind) : Keeps text (unary op v) Value.HasKind := by
  cases op with
  | not => exact Tracks.lookAny.bind fun _ _ => .pure rfl
  | negative =>
    refine Tracks.liftAny.bind fun _ _ => ?_
    cases v.number? with
    | some n => exact keeps_ofNumber n.negate
    | none => exact .pure hv
  | positive =>
    refine Tracks.liftAny.bind fun _ _ => ?_
    cases v with
    | bool b => exact .pure rfl
    | _ => exact .pure hv

/-! ## Places -/

theorem mem_pick {places : Places} {items : Array Value} (hv : v ∈ places.pick items) : v ∈ items := by
  obtain ⟨i, -, hi⟩ := List.mem_filterMap.mp hv
  exact Array.mem_of_getElem? hi

theorem keeps_slice {lower upper step : Value} (hv : v.HasKind) :
    Keeps text (slice v lower upper step) Value.HasKind := by
  unfold slice
  refine Tracks.liftAny.bind fun stride _ => ?_
  refine .ite (fun _ => .throwBind) fun _ => ?_
  refine Tracks.liftAny.bind fun first _ => Tracks.liftAny.bind fun last _ => ?_
  refine Tracks.get.bind fun s hs => ?_
  cases v with
  | text t => exact .pure rfl
  | list r => exact keeps_newList fun w hw => hs.heap.list r w (mem_pick hw)
  | tuple r =>
    refine .ite (fun _ => .pure rfl) fun _ => ?_
    exact keeps_newTuple fun w hw => hs.heap.tuple r w (mem_pick hw)
  | _ => exact .pure hv

theorem keeps_store {source : Text} {container key value : Value} (hkey : key.HasKind)
    (hvalue : value.HasKind) : Keeps text (store source container key value) fun _ => True := by
  unfold store
  refine Tracks.liftAny.bind fun k _ => ?_
  cases container with
  | list r =>
    refine Tracks.liftAny.bind fun _ _ => ?_
    refine (Tracks.mapFault rfl Tracks.liftAny).bind fun index _ => ?_
    refine Tracks.get.bind fun s hs => ?_
    split
    · exact .change fun h hh => hh.setListItem r _ hvalue
    · exact .throw
  | dict r =>
    refine Tracks.lookAny.bind fun found _ => ?_
    exact .change fun h hh => hh.putEntry r found hkey hvalue
  | _ => exact .throw

end Operation

end Scriptlet
