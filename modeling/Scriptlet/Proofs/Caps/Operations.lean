import Scriptlet.Proofs.Caps.Values
import Scriptlet.Proofs.Kinds.Operations

/-
  Operators within a cap.

  Bits are estimated before integers are multiplied or raised to a power; the size of a sequence is
  tested when it has been made. So what a sum makes may exceed a cap on bits, but nothing that an
  operator gives exceeds a cap on sizes.

  What is proved:
    1. `keeps_binary` — what an operator gives fits the cap, unless it is a sum under a cap on bits.
    2. `keeps_unary`, `keeps_slice` — so do the results of the other operators and of slices.
    3. `keeps_store` — the objects go on to fit the cap, but for the number of entries of a mapping.
-/

namespace Scriptlet

variable {cap : Cap} {strict : Bool} {limits : Limits} {text : Text} {v w : Value}

namespace Run

/-! ## Making objects -/

theorem stays_newList {items : List Value} (hitems : Value.AllFit cap items) :
    Stays cap strict text (newList items) (Value.Fits cap) :=
  .make fun _ hh => hh.newList hitems

theorem stays_newTuple {items : List Value} (hitems : Value.AllFit cap items) :
    Stays cap strict text (newTuple items) (Value.Fits cap) :=
  .make fun _ hh => hh.newTuple hitems

theorem stays_newFloat (x : Float) : Stays cap strict text (newFloat x) (Value.Fits cap) :=
  .make fun _ hh => hh.newFloat x

/-! ## Variables and output -/

theorem stays_bind (name : Text) (hv : v.Fits cap ∨ (strict = false ∧ v.IsConstant)) :
    Stays cap strict text (Run.bind name v) fun _ => True := by
  refine .modify fun s hs => ⟨fun p hp => ?_, hs.heap⟩
  rcases mem_bind hp with rfl | hp
  · exact hv
  · exact hs.vars p hp

theorem stays_write (limits : Limits) (line : Text) :
    Stays cap strict text (write limits line) fun _ => True := by
  have hpush : ∀ f : Output → Output,
      Stays cap strict text (modify fun s => { s with output := f s.output } : Run PUnit)
        fun _ => True :=
    fun f => .modify fun s hs => ⟨hs.vars, hs.heap⟩
  refine (hpush (Output.charge · line)).bind fun _ _ => ?_
  refine Follows.get.bind fun s _ => ?_
  refine .ite (fun _ => .throwBind) fun _ => ?_
  exact hpush (Output.push · line)

/-- A size that has not been refused is admitted. -/
theorem gives_requireSize (hcap : cap.IsOf limits) (size : Nat) :
    Gives (requireSize limits size) fun _ => cap.AdmitsSize size := by
  unfold requireSize
  refine .ite (fun _ => .throw) fun h => .pure ?_
  exact hcap.admitsSize_of_limit (Int.not_lt.mp h)

theorem gives_requireBits (limits : Limits) (bits : Nat) :
    Gives (requireBits limits bits) fun _ => bits ≤ limits.maxIntBits := by
  unfold requireBits
  exact .ite (fun _ => .throw) fun h => .pure (Int.not_lt.mp h)

end Run

theorem State.Fits.find? {s : State} {name : Text} (hs : s.Fits cap true)
    (hv : s.vars.find? name = some v) : v.Fits cap := by
  rcases hs.vars _ (mem_of_lookup hv) with hv | ⟨hstrict, -⟩
  · exact hv
  · cases hstrict

/-! ## Numbers -/

def Number.Fits (cap : Cap) : Number → Prop
  | .int n => cap.AdmitsInt n
  | .float _ => True

def Computed.Fits (cap : Cap) : Computed → Prop
  | .int n => cap.AdmitsInt n
  | .float _ | .complex _ _ => True

/-- The number that a value is fits where the value does. -/
theorem Value.Fits.number? (hcap : cap.IsOf limits) (hv : v.Fits cap) {a : Number}
    (ha : v.number? = some a) : a.Fits cap := by
  cases v with
  | bool b =>
    cases ha
    cases b
    · exact hcap.admitsInt_zero
    · exact hcap.admitsInt_one
  | int n =>
    cases ha
    exact hv
  | float x | nan mark =>
    cases ha
    trivial
  | _ => cases ha

theorem Value.Fits.integer? (hcap : cap.IsOf limits) (hv : v.Fits cap) {n : Int}
    (hn : v.integer? = some n) : cap.AdmitsInt n := by
  cases v with
  | bool b =>
    cases hn
    cases b
    · exact hcap.admitsInt_zero
    · exact hcap.admitsInt_one
  | int m =>
    cases hn
    exact hv
  | _ => cases hn

theorem Value.integer?_of_number? {n : Int} (h : v.number? = some (.int n)) : v.integer? = some n := by
  cases v <;> cases h <;> rfl

namespace Number

/-- The bits of the result of an operator on two integers are as many as estimated at most. -/
theorem admitsInt_power (hcap : cap.IsOf limits) {m n : Int} (hn : 0 ≤ n)
    (hbits : Integer.powerBits m n ≤ limits.maxIntBits) :
    cap.AdmitsInt (Integer.power m n.toNat) := by
  rw [Integer.power_eq]
  by_cases hsmall : m.natAbs ≤ 1
  · exact hcap.admitsInt_one.mono (Integer.natAbs_pow_le_one _ hsmall)
  · rcases Int.lt_or_eq_of_le hn with hpos | hzero
    · refine hcap.admitsInt_of_limit (Int.le_trans (Int.ofNat_le.mpr ?_) hbits)
      exact Integer.bitLength_pow_le hpos (by omega)
    · subst hzero
      show cap.AdmitsInt (m ^ 0)
      rw [Int.pow_zero]
      exact hcap.admitsInt_one

/-- What is no integer fits. -/
theorem fits_of_isInexact {c : Computed} {complex : Prop} (hc : c.IsInexact complex) : c.Fits cap := by
  cases c with
  | int n => exact hc.elim
  | float x => trivial
  | complex re im => trivial

/-- What an operator makes of two integers; of products and powers the estimate is within the limit. -/
theorem computeInts_fits (hcap : cap.IsOf limits) {op : BinaryOp} {m n : Int}
    (hm : cap.AdmitsInt m) (hn : cap.AdmitsInt n)
    (hsum : op = .add ∨ op = .sub → ∀ k, cap.AdmitsInt k)
    (hbits : op = .mul ∨ op = .pow →
      Operation.bitEstimate op (.int m) (.int n) ≤ limits.maxIntBits) :
    Gives (computeInts op m n) (Computed.Fits cap) := by
  cases op with
  | add => exact .pure (hsum (.inl rfl) _)
  | sub => exact .pure (hsum (.inr rfl) _)
  | mul =>
    refine .pure (hcap.admitsInt_of_limit (Int.le_trans (Int.ofNat_le.mpr ?_) (hbits (.inl rfl))))
    exact Integer.bitLength_mul_le m n
  | div => exact Gives.any.bind fun _ _ => .pure trivial
  | floorDiv => exact .ite (fun _ => .throw) fun _ => .pure (hm.mono (Integer.natAbs_fdiv_le m n))
  | mod => exact .ite (fun _ => .throw) fun h => .pure (hn.mono (Integer.natAbs_fmod_le m h))
  | pow =>
    refine .ite (fun h => .pure (admitsInt_power hcap h (hbits (.inr rfl)))) fun _ => ?_
    exact Gives.any.bind fun x _ => Gives.any.bind fun y _ =>
      (gives_floatPower x y).mono fun _ hc => fits_of_isInexact hc

theorem computeFloats_fits (op : BinaryOp) (x y : Float) :
    Gives (computeFloats op x y) (Computed.Fits cap) :=
  (gives_computeFloats op x y).mono fun _ hc => fits_of_isInexact hc

/-- What an operator makes of two numbers. -/
theorem compute_fits (hcap : cap.IsOf limits) {op : BinaryOp} {a b : Number} (ha : a.Fits cap)
    (hb : b.Fits cap) (hsum : op = .add ∨ op = .sub → ∀ k, cap.AdmitsInt k)
    (hbits : op = .mul ∨ op = .pow → ∀ m n, a = .int m → b = .int n →
      Operation.bitEstimate op (.int m) (.int n) ≤ limits.maxIntBits) :
    Gives (compute op a b) (Computed.Fits cap) := by
  cases a with
  | float x =>
    exact Gives.any.bind fun _ _ => Gives.any.bind fun _ _ => computeFloats_fits op _ _
  | int m =>
    cases b with
    | int n => exact computeInts_fits hcap ha hb hsum fun h => hbits h m n rfl rfl
    | float y =>
      exact Gives.any.bind fun _ _ => Gives.any.bind fun _ _ => computeFloats_fits op _ _

theorem negate_fits {a : Number} (ha : a.Fits cap) : a.negate.Fits cap := by
  cases a with
  | int n => exact Cap.AdmitsInt.mono ha (by omega)
  | float x => trivial

theorem absolute_fits {a : Number} (ha : a.Fits cap) : a.absolute.Fits cap := by
  cases a with
  | int n => exact Cap.AdmitsInt.mono ha (by omega)
  | float x => trivial

end Number

namespace Operation

open Run

variable {room : Nat}

/-- The estimate goes by the numbers that the values are. -/
theorem bitEstimate_of_number? {op : BinaryOp} {m n : Int} (hm : v.number? = some (.int m))
    (hn : w.number? = some (.int n)) : bitEstimate op (.int m) (.int n) = bitEstimate op v w := by
  unfold bitEstimate
  rw [Value.integer?_of_number? hm, Value.integer?_of_number? hn]
  rfl

theorem stays_ofComputed {c : Computed} (hc : c.Fits cap) :
    Stays cap strict text (ofComputed c) (Value.Fits cap) := by
  cases c with
  | int n => exact .pure hc
  | float x => exact stays_newFloat x
  | complex re im => exact .pure trivial

theorem stays_ofNumber {n : Number} (hn : n.Fits cap) :
    Stays cap strict text (ofNumber n) (Value.Fits cap) := by
  cases n with
  | int n => exact .pure hn
  | float x => exact stays_newFloat x

/-! ## What has been made and not been tested yet -/

/-- A value and the state behind it, where the value may be a text that is too large or a new list or tuple
of too many values that fit. -/
inductive Untested (cap : Cap) : Value → State → Prop
  | fits {v : Value} {t : State} (ht : t.Fits cap true) (hv : v.Fits cap) : Untested cap v t
  | text {x : Text} {t : State} (ht : t.Fits cap true) : Untested cap (.text x) t
  | list {s : State} {items : List Value} (hs : s.Fits cap true) (hitems : ∀ v ∈ items, v.Fits cap) :
    Untested cap (s.heap.newList items.toArray).1 { s with heap := (s.heap.newList items.toArray).2 }
  | tuple {s : State} {items : List Value} (hs : s.Fits cap true) (hitems : ∀ v ∈ items, v.Fits cap) :
    Untested cap (s.heap.newTuple items.toArray).1 { s with heap := (s.heap.newTuple items.toArray).2 }

theorem size_newList (h : Heap) (items : Array Value) :
    (h.newList items).2.size (h.newList items).1 = items.size := by
  show ((h.lists.push items).getD h.lists.size #[]).size = items.size
  rw [Array.getD_eq_getD_getElem?, Array.getElem?_push_size]
  rfl

theorem size_newTuple {h : Heap} {items : Array Value} (hitems : items.isEmpty = false) :
    (h.newTuple items).2.size (h.newTuple items).1 = items.size := by
  unfold Heap.newTuple
  rw [hitems]
  show ((h.tuples.push items).getD h.tuples.size #[]).size = items.size
  rw [Array.getD_eq_getD_getElem?, Array.getElem?_push_size]
  rfl

/-- What has passed the test of its size fits. -/
theorem Untested.tested (hcap : cap.IsOf limits) {t : State} {k : Kind} (h : Untested cap v t)
    (hk : v.kind = .ok k) (hsize : k.isSequence = true → cap.AdmitsSize (t.heap.size v)) :
    t.Fits cap true ∧ v.Fits cap := by
  cases h with
  | fits ht hv => exact ⟨ht, hv⟩
  | text ht =>
    cases hk
    exact ⟨ht, hsize rfl⟩
  | @list s items hs hitems =>
    cases hk
    have hadmits := hsize rfl
    rw [size_newList] at hadmits
    obtain ⟨hv, hheap⟩ := hs.heap.newList ⟨hadmits, hitems⟩
    exact ⟨⟨hs.vars, hheap⟩, hv⟩
  | @tuple s items hs hitems =>
    have hadmits : cap.AdmitsSize items.length := by
      cases hempty : items.toArray.isEmpty with
      | true =>
        have hnil : items = [] := by simpa using hempty
        rw [hnil]
        exact hcap.admitsSize_zero
      | false =>
        have hkind : (s.heap.newTuple items.toArray).1.kind = .ok .tuple := by
          unfold Heap.newTuple
          split <;> rfl
        rw [hkind] at hk
        cases hk
        have hadmits := hsize rfl
        rwa [size_newTuple hempty] at hadmits
    obtain ⟨hv, hheap⟩ := hs.heap.newTuple ⟨hadmits, hitems⟩
    exact ⟨⟨hs.vars, hheap⟩, hv⟩

/-- The result is made, but its size is still to be tested. -/
def Made (cap : Cap) : EStateM.Result Fault State Value → Prop
  | .ok v t => Untested cap v t
  | .error _ t => t.Fits cap true

/-- From a state that fits the step makes something whose size is still to be tested. -/
def Makes (cap : Cap) (text : Text) (x : Run Value) : Prop :=
  ∀ s, s.Fits cap true → (∃ t, x s = .error (alarm text) t) ∨ Made cap (x s)

namespace Makes

variable {α : Type} {good : α → Prop} {x : Run Value}

theorem ofStays (h : Stays cap true text x (Value.Fits cap)) : Makes cap text x := by
  intro s hs
  refine (h s hs).imp_right fun ⟨_, hleaves⟩ => ?_
  cases hx : x s with
  | ok v t =>
    rw [hx] at hleaves
    exact .fits hleaves.1 hleaves.2
  | error fault t =>
    rw [hx] at hleaves
    exact hleaves

theorem bind {y : Run α} {f : α → Run Value} (hy : Stays cap true text y good)
    (hf : ∀ a, good a → Makes cap text (f a)) : Makes cap text (y >>= f) := by
  intro s hs
  rw [bind_apply]
  rcases hy s hs with ⟨t, halarm⟩ | ⟨-, hleaves⟩
  · exact .inl ⟨t, by rw [halarm]⟩
  · cases hys : y s with
    | ok a t =>
      rw [hys] at hleaves
      exact hf a hleaves.2 t hleaves.1
    | error fault t =>
      rw [hys] at hleaves
      exact .inr hleaves

theorem ite {c : Prop} [Decidable c] {y : Run Value} (hx : c → Makes cap text x)
    (hy : ¬ c → Makes cap text y) : Makes cap text (if c then x else y) := by
  by_cases h : c
  · simp only [h, if_true]
    exact hx h
  · simp only [h, if_false]
    exact hy h

theorem throw {fault : Fault} : Makes cap text (MonadExcept.throw fault : Run Value) :=
  fun _ hs => .inr hs

theorem throwBind {fault : Fault} {f : α → Run Value} :
    Makes cap text (MonadExcept.throw fault >>= f) :=
  fun _ hs => .inr hs

theorem newText {x : Text} : Makes cap text (pure (.text x) : Run Value) := fun _ hs => .inr (.text hs)

theorem newList {items : List Value} (hitems : ∀ v ∈ items, v.Fits cap) :
    Makes cap text (Run.newList items) := fun _ hs => .inr (.list hs hitems)

theorem newTuple {items : List Value} (hitems : ∀ v ∈ items, v.Fits cap) :
    Makes cap text (Run.newTuple items) := fun _ hs => .inr (.tuple hs hitems)

/-- What has been made is given back when its size has been tested, or given up. -/
theorem tested (hcap : cap.IsOf limits) (h : Makes cap text x) :
    Stays cap true text (x.tested (requireSequence limits)) (Value.Fits cap) := by
  intro s hs
  rcases h s hs with ⟨t, halarm⟩ | hmade
  · exact .inl ⟨t, tested_of_error _ halarm⟩
  · refine .inr ⟨rfl, ?_⟩
    rcases tested_cases s x (requireSequence limits) with ⟨v, t, hok, hpassed, heq⟩ |
      ⟨fault, t, herror, heq⟩ | ⟨v, t, fault, -, -, heq⟩
    · rw [hok] at hmade
      rw [heq]
      obtain ⟨k, hk, hsize⟩ := bind_ok hpassed
      exact Untested.tested hcap hmade hk fun hsequence =>
        gives_requireSize hcap _ _ ((if_pos hsequence).symm.trans hsize)
    · rw [herror] at hmade
      rw [heq]
      exact hmade
    · rw [heq]
      exact hs

end Makes

/-! ## Sequences and sets -/

theorem makes_repeated (hv : v.Fits cap) (count : Int) : Makes cap text (repeated v count) := by
  unfold repeated
  refine .ite (fun _ => .throwBind) fun _ => ?_
  refine .bind .get fun s hs => .bind .liftAny fun _ _ => ?_
  cases v with
  | text t => exact .newText
  | list r =>
    refine .newList fun w hw => (hs.heap.list r hv).each w (Array.mem_toList_iff.mpr ?_)
    exact mem_copies hw
  | tuple r =>
    refine .ite (fun _ => .ofStays (.pure trivial)) fun _ => ?_
    refine .newTuple fun w hw => (hs.heap.tuple r).each w (Array.mem_toList_iff.mpr ?_)
    exact mem_copies hw
  | _ => exact .ofStays (.pure hv)

theorem makes_multiply (hv : v.Fits cap) (hw : w.Fits cap) : Makes cap text (multiply v w) := by
  unfold multiply
  refine .bind .liftAny fun k _ => .ite (fun _ => ?_) fun _ => ?_
  · cases w.integer? with
    | some n => exact makes_repeated hv n
    | none => exact .throw
  · refine .bind .liftAny fun k _ => .ite (fun _ => ?_) fun _ => .throw
    cases v.integer? with
    | some n => exact makes_repeated hw n
    | none => exact .throw

theorem makes_join (hv : v.Fits cap) (hw : w.Fits cap) : Makes cap text (join v w) := by
  unfold join
  refine .bind .get fun s hs => ?_
  have hboth : ∀ {xs ys : List Value}, Value.AllFit cap xs → Value.AllFit cap ys →
      ∀ v ∈ xs ++ ys, v.Fits cap := by
    intro xs ys hxs hys v hv
    rcases List.mem_append.mp hv with hv | hv
    · exact hxs.each v hv
    · exact hys.each v hv
  split
  · exact .newText
  · exact .newList (hboth (hs.heap.list _ hv) (hs.heap.list _ hw))
  · refine .ite (fun _ => .ofStays (.pure hw)) fun _ => ?_
    refine .ite (fun _ => .ofStays (.pure hv)) fun _ => ?_
    exact .newTuple (hboth (hs.heap.tuple _) (hs.heap.tuple _))
  · exact .throw
  · exact .throw
  · exact .throw
  · exact .throw

theorem stays_without : Stays cap true text (without v w) (Value.Fits cap) := by
  unfold without
  refine Follows.get.bind fun s hs => ?_
  split
  · refine .make fun h hh => hh.newSet ⟨?_, fun m hm => ?_⟩
    · exact (hs.heap.set _).size.mono Array.size_filter_le
    · exact (hs.heap.set _).each m (Array.mem_filter.mp hm).1
  · exact .throw

theorem makes_fillTemplate (template : Text) :
    Makes cap text (fillTemplate limits room template v) :=
  .bind .lookAny fun _ _ => .bind .liftAny fun _ _ => .newText

/-! ## Operators -/

/-- What an operator makes of two values, when the estimate of its bits is within the limit. -/
theorem makes_apply (hcap : cap.IsOf limits) (op : BinaryOp) (hv : v.Fits cap) (hw : w.Fits cap)
    (hsum : op = .add ∨ op = .sub → ∀ k, cap.AdmitsInt k)
    (hbits : bitEstimate op v w ≤ limits.maxIntBits) :
    Makes cap text (apply limits room op v w) := by
  unfold apply
  split
  · rename_i a b ha hb
    have hcompute := Number.compute_fits hcap (hv.number? hcap ha) (hw.number? hcap hb) hsum
      fun _ m n hm hn => by
        subst hm hn
        rw [bitEstimate_of_number? ha hb]
        exact hbits
    exact .bind (.lift hcompute) fun c hc => .ofStays (stays_ofComputed hc)
  · split
    · exact makes_join hv hw
    · exact .ofStays stays_without
    · exact makes_multiply hv hw
    · exact makes_fillTemplate _
    · exact .throw

/-- Under a cap on sizes every operator is within the cap, and under a cap on bits every one but for
sums and differences. -/
theorem stays_binary (hcap : cap.IsOf limits) (op : BinaryOp) (hv : v.Fits cap) (hw : w.Fits cap)
    (hsum : op = .add ∨ op = .sub → ∀ k, cap.AdmitsInt k) :
    Stays cap true text (binary limits room op v w) (Value.Fits cap) := by
  unfold binary
  refine Follows.liftAny.bind fun _ _ => ?_
  refine (Follows.lift (gives_requireBits limits _)).bind fun _ hbits => ?_
  have hresult : Stays cap true text ((apply limits room op v w).tested (requireSequence limits))
      (Value.Fits cap) := (makes_apply hcap op hv hw hsum hbits).tested hcap
  exact .ite (fun _ => Follows.lookAny.bind fun _ _ => hresult) fun _ => hresult

theorem stays_unary (hcap : cap.IsOf limits) (op : UnaryOp) (hv : v.Fits cap) :
    Stays cap true text (unary op v) (Value.Fits cap) := by
  cases op with
  | not => exact Follows.lookAny.bind fun _ _ => .pure trivial
  | negative =>
    refine Follows.liftAny.bind fun _ _ => ?_
    cases hn : v.number? with
    | some n => exact stays_ofNumber (Number.negate_fits (hv.number? hcap hn))
    | none => exact .pure hv
  | positive =>
    refine Follows.liftAny.bind fun _ _ => ?_
    cases v with
    | bool b =>
      cases b
      · exact .pure hcap.admitsInt_zero
      · exact .pure hcap.admitsInt_one
    | _ => exact .pure hv

/-! ## Places -/

/-- A slice is no longer than what it is taken of. -/
theorem pick_allFit {items : Array Value} (hitems : Value.AllFit cap items.toList)
    (lower upper : Option Int) {step : Int} (hstep : step ≠ 0) :
    Value.AllFit cap ((Places.of items.size lower upper step).pick items) := by
  refine hitems.mono ?_ fun v hv => Array.mem_toList_iff.mpr (mem_pick hv)
  exact Nat.le_trans (Places.length_pick_le _ _) (Places.count_of_le _ _ _ hstep)

theorem stays_slice {lower upper step : Value} (hv : v.Fits cap) :
    Stays cap true text (slice v lower upper step) (Value.Fits cap) := by
  unfold slice
  refine Follows.liftAny.bind fun stride _ => ?_
  refine .ite (fun _ => .throwBind) fun hstep => ?_
  refine Follows.liftAny.bind fun first _ => Follows.liftAny.bind fun last _ => ?_
  refine Follows.get.bind fun s hs => ?_
  cases v with
  | text t =>
    refine .pure (Cap.AdmitsSize.mono hv ?_)
    exact Nat.le_trans (Places.length_pick_le _ _) (Places.count_of_le _ _ _ hstep)
  | list r => exact stays_newList (pick_allFit (hs.heap.list r hv) first last hstep)
  | tuple r =>
    refine .ite (fun _ => .pure trivial) fun _ => ?_
    exact stays_newTuple (pick_allFit (hs.heap.tuple r) first last hstep)
  | _ => exact .pure hv

/-- Storing an item may make a mapping too large. -/
theorem stays_store {source : Text} {container key value : Value} (hkey : key.Fits cap)
    (hvalue : value.Fits cap) :
    Stays cap false text (store source container key value) fun _ => True := by
  unfold store
  refine Follows.liftAny.bind fun k _ => ?_
  cases container with
  | list r =>
    refine Follows.liftAny.bind fun _ _ => ?_
    refine (Follows.mapFault rfl Follows.liftAny).bind fun index _ => ?_
    refine Follows.get.bind fun s hs => ?_
    split
    · exact .change fun h hh => hh.setListItem r _ hvalue
    · exact .throw
  | dict r =>
    refine Follows.lookAny.bind fun found _ => ?_
    exact .change fun h hh => hh.putEntry r found hkey hvalue fun hstrict =>
      (Bool.false_ne_true hstrict).elim
  | _ => exact .throw

end Operation

end Scriptlet
