import Scriptlet.Proofs.Caps.Running

/-
  The limit on the size of collections.

  Sizes are tested behind operators, before a sequence is repeated, before one more element is appended
  to a list and before a range is made; displays, conversions, the assignment of items and functions
  that make texts or collections are left open.

  What is proved:
    1. `Guard.passes_size_iff` — all texts and collections of a run are within the limit, at every point
       of it, just when those are that come of what is left open; what the tests find is refused.
    2. `Guard.not_passes_bindings_text` — the text of a list within the limit may be beyond it.
-/

namespace Scriptlet

variable {α β : Type} {limits : Limits} {room : Nat} {op : BinaryOp} {v w result : Value} {n : Int}
  {s t : State}

/-- The fault of a collection that is too large. -/
def Limits.sizeFault (limits : Limits) (size : Nat) : Fault :=
  .limit ("collection size " ++ Text.ofNat size ++ " exceeds the limit of " ++
    Text.ofInt limits.maxCollectionSize)

/-! ## What is refused -/

namespace Run

/-- The step stops at a limit and leaves the state as it is. -/
def IsRefused (x : Run α) (s : State) : Prop := ∃ text, x s = .error (.limit text) s

/-- The test finds nothing, or it finds a limit exceeded. -/
def IsTest (x : Except Fault Unit) : Prop := x = .ok () ∨ ∃ text, x = .error (.limit text)

theorem IsRefused.bind {x : Run α} {f : α → Run β} (h : IsRefused x s) : IsRefused (x >>= f) s := by
  obtain ⟨text, hx⟩ := h
  exact ⟨text, bind_of_error hx f⟩

theorem IsRefused.behind {x : Run α} {f : α → Run β} {a : α} (hx : x s = .ok a s)
    (h : IsRefused (f a) s) : IsRefused (x >>= f) s := by
  obtain ⟨text, hf⟩ := h
  exact ⟨text, (bind_of_ok hx f).trans hf⟩

theorem requireSize_error {size : Nat} (h : limits.maxCollectionSize < size) :
    requireSize limits size = .error (limits.sizeFault size) := by
  unfold requireSize
  rw [if_pos h]
  rfl

theorem requireSize_refused {size : Nat} (h : limits.maxCollectionSize < size) :
    IsRefused (liftM (requireSize limits size) : Run Unit) s :=
  ⟨_, by rw [liftM_apply, requireSize_error h]; rfl⟩

theorem isTest_requireSize (size : Nat) : IsTest (requireSize limits size) := by
  by_cases h : limits.maxCollectionSize < size
  · exact .inr ⟨_, requireSize_error h⟩
  · unfold requireSize
    rw [if_neg h]
    exact .inl rfl

theorem isTest_requireBits (bits : Nat) : IsTest (requireBits limits bits) := by
  unfold requireBits
  by_cases h : limits.maxIntBits < bits
  · rw [if_pos h]
    exact .inr ⟨_, rfl⟩
  · rw [if_neg h]
    exact .inl rfl

theorem IsTest.bind {x : Except Fault Unit} {f : Unit → Except Fault Unit} (hx : IsTest x)
    (hf : IsTest (f ())) : IsTest (x >>= f) := by
  rcases hx with rfl | ⟨text, rfl⟩
  · exact hf
  · exact .inr ⟨text, rfl⟩

/-- What is refused behind a test is refused, by the test or behind it. -/
theorem IsTest.refused {x : Except Fault Unit} {f : Unit → Run β} (hx : IsTest x)
    (h : IsRefused (f ()) s) : IsRefused (liftM x >>= f) s := by
  rcases hx with rfl | ⟨text, rfl⟩
  · exact .behind (liftM_apply ..) h
  · exact IsRefused.bind ⟨text, liftM_apply ..⟩

theorem IsTest.refusedLooking {read : Heap → Except Fault Unit} {f : Unit → Run β}
    (hx : IsTest (read s.heap)) (h : IsRefused (f ()) s) : IsRefused (look read >>= f) s := by
  rcases hx with hread | ⟨text, hread⟩
  · exact .behind (by rw [look_apply, hread]) h
  · exact IsRefused.bind ⟨text, by rw [look_apply, hread]⟩

end Run

/-- The value is a text, a list or a tuple. -/
inductive Value.IsSequence : Value → Prop
  | text (t : Text) : IsSequence (.text t)
  | list (r : Ref) : IsSequence (.list r)
  | tuple (r : Ref) : IsSequence (.tuple r)

theorem Value.IsSequence.kind (hv : v.IsSequence) : ∃ k, v.kind = .ok k ∧ k.isSequence = true := by
  cases hv with
  | text t => exact ⟨.text, rfl, rfl⟩
  | list r => exact ⟨.list, rfl, rfl⟩
  | tuple r => exact ⟨.tuple, rfl, rfl⟩

namespace Operation

open Run

/-- Operands that an operator takes have kinds. -/
theorem kind_of_requireOperands (h : requireOperands op v w = .ok ()) :
    (∃ k, v.kind = .ok k) ∧ ∃ k, w.kind = .ok k := by
  constructor
  · cases v with
    | complex re im => cases h
    | _ => exact ⟨_, rfl⟩
  · cases w with
    | complex re im => cases v <;> cases h
    | _ => exact ⟨_, rfl⟩

theorem isTest_requireRepetition {h : Heap} (hv : ∃ k, v.kind = .ok k) :
    IsTest (requireRepetition limits h v w) := by
  obtain ⟨k, hk⟩ := hv
  unfold requireRepetition
  rw [hk]
  change IsTest (if k.isSequence then _ else _)
  split
  · split
    · exact isTest_requireSize _
    · exact .inl rfl
  · exact .inl rfl

/-- What an operator makes of two values exceeds the limit on sizes. -/
inductive Exceeds (limits : Limits) (room : Nat) (s : State) : BinaryOp → Value → Value → Prop
  /-- The result is too large. -/
  | result {op : BinaryOp} {v w result : Value} {t : State}
      (hoperands : requireOperands op v w = .ok ()) (happly : apply limits room op v w s = .ok result t)
      (hresult : result.IsSequence) (hsize : limits.maxCollectionSize < t.heap.size result) :
    Exceeds limits room s op v w
  /-- All copies of the sequence on the left would be too large. -/
  | copiesLeft {v w : Value} {n : Int} (hv : v.IsSequence) (hw : w.integer? = some n)
      (hsize : limits.maxCollectionSize < (s.heap.size v * n.toNat : Nat)) :
    Exceeds limits room s .mul v w
  /-- All copies of the sequence on the right would be too large. -/
  | copiesRight {v w : Value} {n : Int} (hw : w.IsSequence) (hv : v.integer? = some n)
      (hsize : limits.maxCollectionSize < (s.heap.size w * n.toNat : Nat)) :
    Exceeds limits room s .mul v w
  /-- The template would be too large when it is filled in. -/
  | template {template : Text} {w : Value} {segments : List Segment}
      (hoperands : requireOperands .mod (.text template) w = .ok ())
      (hfill : Template.fill s.heap room template w = .ok segments)
      (hsize : limits.maxCollectionSize < Segment.total segments) :
    Exceeds limits room s .mod (.text template) w

theorem requireOperands_repetition (hv : v.IsSequence) (hw : w.integer? = some n) :
    requireOperands .mul v w = .ok () ∧ requireOperands .mul w v = .ok () := by
  cases hv <;> cases w <;> cases hw <;> exact ⟨rfl, rfl⟩

theorem requireRepetition_error {h : Heap} (hv : v.IsSequence) (hw : w.integer? = some n)
    (hsize : limits.maxCollectionSize < (h.size v * n.toNat : Nat)) :
    requireRepetition limits h v w = .error (limits.sizeFault (h.size v * n.toNat)) := by
  obtain ⟨k, hk, hsequence⟩ := hv.kind
  unfold requireRepetition
  rw [hk, hw]
  change (if k.isSequence then _ else _) = _
  rw [if_pos hsequence]
  exact requireSize_error hsize

/-- An integer is not repeated. -/
theorem requireRepetition_integer {h : Heap} (hv : v.integer? = some n) :
    requireRepetition limits h v w = .ok () := by
  cases v <;> cases hv <;> rfl

theorem fillTemplate_refused {template : Text} {segments : List Segment}
    (hfill : Template.fill s.heap room template w = .ok segments)
    (hsize : limits.maxCollectionSize < Segment.total segments) :
    IsRefused (fillTemplate limits room template w) s := by
  unfold fillTemplate
  refine .behind (by rw [look_apply, hfill]) ?_
  exact (requireSize_refused hsize).bind

/-- The tests in front of an operator are passed, or one of them is not. -/
theorem binary_refused_behind (hoperands : requireOperands op v w = .ok ())
    (h : IsRefused ((apply limits room op v w).tested (requireSequence limits)) s) :
    IsRefused (binary limits room op v w) s := by
  obtain ⟨hv, hw⟩ := kind_of_requireOperands hoperands
  unfold binary
  refine .behind (by rw [liftM_apply, hoperands]) ((isTest_requireBits _).refused ?_)
  by_cases hmul : op == .mul
  · rw [if_pos hmul]
    refine IsTest.refusedLooking ?_ h
    exact (isTest_requireRepetition hv).bind (isTest_requireRepetition hw)
  · rw [if_neg hmul]
    exact h

/-- Copies that would be too many are not made. -/
theorem binary_refused_copies (hoperands : requireOperands .mul v w = .ok ()) (size : Nat)
    (htests : (do
      requireRepetition limits s.heap v w
      requireRepetition limits s.heap w v) = .error (limits.sizeFault size)) :
    IsRefused (binary limits room .mul v w) s := by
  unfold binary
  refine .behind (by rw [liftM_apply, hoperands]) ((isTest_requireBits _).refused ?_)
  rw [if_pos (show (BinaryOp.mul == BinaryOp.mul) = true from rfl)]
  exact IsRefused.bind ⟨_, by rw [look_apply, htests]; rfl⟩

/-- What exceeds the limit on sizes is refused. -/
theorem binary_refused_size (h : Exceeds limits room s op v w) :
    IsRefused (binary limits room op v w) s := by
  cases h with
  | @result _ _ _ result t hoperands happly hresult hsize =>
    obtain ⟨k, hk, hsequence⟩ := hresult.kind
    have htest : requireSequence limits t.heap result = .error (limits.sizeFault (t.heap.size result)) := by
      unfold requireSequence
      rw [hk]
      exact (if_pos hsequence).trans (requireSize_error hsize)
    exact binary_refused_behind hoperands ⟨_, tested_of_refused happly htest⟩
  | @copiesLeft _ _ n hv hw hsize =>
    refine binary_refused_copies (requireOperands_repetition hv hw).1 (s.heap.size v * n.toNat) ?_
    rw [requireRepetition_error hv hw hsize]
    rfl
  | @copiesRight _ _ n hw hv hsize =>
    refine binary_refused_copies (requireOperands_repetition hw hv).2 (s.heap.size w * n.toNat) ?_
    rw [requireRepetition_integer hv, requireRepetition_error hw hv hsize]
    rfl
  | template hoperands hfill hsize =>
    obtain ⟨text, hrefused⟩ := fillTemplate_refused hfill hsize
    exact binary_refused_behind hoperands ⟨text, tested_of_error _ hrefused⟩

end Operation

/-- One element more than the limit allows is not appended. -/
theorem Evaluation.callMethod_refused {r : Ref}
    (h : limits.maxCollectionSize < ((s.heap.list r).size + 1 : Nat)) :
    callMethod limits (.list r) "append" ⟨[v], []⟩ s =
      .error (limits.sizeFault ((s.heap.list r).size + 1)) s := by
  unfold callMethod
  rw [Run.bind_apply, Run.liftM_apply]
  simp only [Value.kind, Value.kind?]
  rw [if_pos (show (Text.ofString "append" == Text.ofString "append") = true from rfl)]
  rw [Run.bind_apply, Run.get_apply]
  simp only
  rw [Run.bind_apply, Run.liftM_apply, Run.requireSize_error h]

namespace Reckoning

/-- The bounds and the step that the arguments give to a range. -/
inductive Bounds : List Value → Int → Int → Int → Prop
  | stop (n : Int) : Bounds [.int n] 0 n 1
  | startStop (m n : Int) : Bounds [.int m, .int n] m n 1
  | startStopStep (m n k : Int) : Bounds [.int m, .int n, .int k] m n k

/-- A range with more terms than the limit allows is not made. -/
theorem range_refused {args : List Value} {start stop step : Int} (hargs : Bounds args start stop step)
    (hstep : step ≠ 0) (hcount : rangeCount start stop step < twoTo 63)
    (h : limits.maxCollectionSize < rangeCount start stop step) :
    range limits args s = .error (limits.sizeFault (rangeCount start stop step)) s := by
  have hrest : (do
      if step = 0 then throw (.badValue "range() arg 3 must not be zero")
      let count := rangeCount start stop step
      if count ≥ twoTo 63 then throw (.of .overflow "Python int too large to convert to C ssize_t")
      Run.requireSize limits count
      Run.newList ((progression start step count).map .int) : Run Value) s =
        .error (limits.sizeFault (rangeCount start stop step)) s := by
    rw [if_neg hstep, if_neg (Nat.not_le.mpr hcount)]
    beta_reduce
    rw [Run.bind_apply, Run.liftM_apply, Run.requireSize_error h]
  cases hargs <;> exact hrest

end Reckoning

/-! ## Runs -/

/-- Limits on sources of 20 code points and on collections of 20 elements. -/
def Limits.narrowSizes : Limits := ⟨20, 50, 1000000, 256, 20, 100000⟩

namespace Guard

/-- A list of nine elements has a text of 27 code points. -/
theorem leaves_text :
    Execution.leaves? .narrowSizes "x = str([0] * 9)" (.initial ⟨0⟩ 0) "x" =
      some (.text "[0, 0, 0, 0, 0, 0, 0, 0, 0]") := by
  decide +kernel

theorem not_passesSource_text :
    ¬ (bindings (.size 20)).PassesSource .narrowSizes "x = str([0] * 9)" (.initial ⟨0⟩ 0) := by
  refine not_passesSource (by decide) (by decide) leaves_text fun h hadmits => ?_
  have hsize : (Text.ofString "[0, 0, 0, 0, 0, 0, 0, 0, 0]").length ≤ (20 : Int) := hadmits.2
  exact absurd hsize (by decide)

/-- At every point of a run all texts and collections are within the limit, just when all of them are
behind what is left open: attributes, literals and displays longer than a source, and the functions that
make texts or collections. Then in particular all that is bound at any depth is within the limit. What
the tests find to be too large is refused and leaves the state as it is: the result of an operator, copies
of a sequence, a template that is filled in, one more element of a list, and the terms of a range. -/
theorem passes_size_iff (limits : Limits) (h : limits.maxSourceLength ≤ limits.maxCollectionSize)
    (clock : Moment) (seed : Nat) (source : Text) :
    ((fits (.size limits.maxCollectionSize)).PassesSource limits source (.initial clock seed) ↔
        (growth limits (.size limits.maxCollectionSize)).PassesSource limits source
          (.initial clock seed)) ∧
      ((growth limits (.size limits.maxCollectionSize)).PassesSource limits source
          (.initial clock seed) →
        (bindings (.size limits.maxCollectionSize)).PassesSource limits source
          (.initial clock seed)) ∧
      ∀ s : State,
        (∀ room op v w, Operation.Exceeds limits room s op v w →
          (Operation.binary limits room op v w).IsRefused s) ∧
        (∀ r v, limits.maxCollectionSize < ((s.heap.list r).size + 1 : Nat) →
          Evaluation.callMethod limits (.list r) "append" ⟨[v], []⟩ s =
            .error (limits.sizeFault ((s.heap.list r).size + 1)) s) ∧
        ∀ args start stop step, Reckoning.Bounds args start stop step → step ≠ 0 →
          Reckoning.rangeCount start stop step < twoTo 63 →
          limits.maxCollectionSize < Reckoning.rangeCount start stop step →
          Reckoning.range limits args s =
            .error (limits.sizeFault (Reckoning.rangeCount start stop step)) s := by
  have hcap : 0 < limits.maxSourceLength → Cap.IsOf limits (.size limits.maxCollectionSize) :=
    fun hsource => .size hsource h
  refine ⟨⟨?_, ?_⟩, ?_, fun s => ⟨?_, ?_, ?_⟩⟩
  · exact PassesSource.of hcap fits_catches fun _ => growth_accepts
  · exact PassesSource.of hcap growth_catches fun _ => fits_accepts
  · exact PassesSource.of hcap growth_catches bindings_accepts
  · exact fun _ _ _ _ => Operation.binary_refused_size
  · exact fun _ _ => Evaluation.callMethod_refused
  · exact fun _ _ _ _ => Reckoning.range_refused

/-- Not all that comes of the conversion is within the limit; a range with one more term is refused. -/
theorem passes_size_iff_text :
    Limits.narrowSizes.maxSourceLength ≤ Limits.narrowSizes.maxCollectionSize ∧
      ¬ (growth .narrowSizes (.size 20)).PassesSource .narrowSizes "x = str([0] * 9)"
        (.initial ⟨0⟩ 0) ∧
      Reckoning.range .narrowSizes [.int 21] (.initial ⟨0⟩ 0) =
        .error (.limit "collection size 21 exceeds the limit of 20") (.initial ⟨0⟩ 0) := by
  have h : Limits.narrowSizes.maxSourceLength ≤ Limits.narrowSizes.maxCollectionSize := by decide
  obtain ⟨-, hbindings, hrefused⟩ := passes_size_iff .narrowSizes h ⟨0⟩ 0 "x = str([0] * 9)"
  refine ⟨h, fun hgrowth => not_passesSource_text (hbindings hgrowth), ?_⟩
  exact (hrefused (.initial ⟨0⟩ 0)).2.2 [.int 21] 0 21 1 (.stop 21) (by decide) (by decide) (by decide)

/-- The limits let no literal of a source exceed 20 code points, and yet a text is bound that does. -/
theorem not_passes_bindings_text :
    Limits.narrowSizes.maxSourceLength ≤ Limits.narrowSizes.maxCollectionSize ∧
      ¬ (bindings (.size Limits.narrowSizes.maxCollectionSize)).PassesSource .narrowSizes
        "x = str([0] * 9)" (.initial ⟨0⟩ 0) :=
  ⟨by decide, not_passesSource_text⟩

end Guard

end Scriptlet
