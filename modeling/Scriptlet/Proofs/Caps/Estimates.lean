import Scriptlet.Proofs.Caps.Bits
import Scriptlet.Proofs.Caps.Sizes

/-
  The estimate of the bits of products and powers.

  The bits of a product or of a power are estimated from those of the operands, before anything is
  multiplied. The estimate is never below the bits of the result, and never far above them.

  What is proved:
    1. `Integer.productBits_le`, `Integer.powerBits_le` — the estimate of a product is at most one bit too
       large, and that of a power at most twice as large as need be.
    2. `Operation.returns_binary`, `Reckoning.returns_power` — the integers that come of a product or a
       power come of two integers, and have been estimated.
    3. `bitEstimate_bounds` — whatever the limit is, a script makes no product and no power beyond it, and
       none that is refused is far below it.
-/

namespace Scriptlet

/-! ## Bits from below -/

namespace Integer

variable {m n : Int}

theorem lt_bitLength_iff {bits : Nat} : bits < bitLength n ↔ 2 ^ bits ≤ n.natAbs := by
  rw [← Nat.not_le, bitLength_le_iff, Nat.not_lt]

theorem bitLength_pos (hn : n ≠ 0) : 0 < bitLength n := by
  rw [lt_bitLength_iff]
  exact Int.natAbs_pos.mpr hn

/-- An integer is at least the power of two with its highest bit. -/
theorem two_pow_le_natAbs (hn : n ≠ 0) : 2 ^ (bitLength n - 1) ≤ n.natAbs := by
  rw [← lt_bitLength_iff]
  have := bitLength_pos hn
  omega

theorem productBits_le (hm : m ≠ 0) (hn : n ≠ 0) : productBits m n ≤ bitLength (m * n) + 1 := by
  have hhighest : bitLength m - 1 + (bitLength n - 1) < bitLength (m * n) := by
    rw [lt_bitLength_iff]
    calc 2 ^ (bitLength m - 1 + (bitLength n - 1))
        = 2 ^ (bitLength m - 1) * 2 ^ (bitLength n - 1) := Nat.pow_add 2 _ _
      _ ≤ m.natAbs * n.natAbs := Nat.mul_le_mul (two_pow_le_natAbs hm) (two_pow_le_natAbs hn)
      _ = (m * n).natAbs := (Int.natAbs_mul m n).symm
  unfold productBits
  omega

/-- The estimate of a power is not zero only for a base beyond the units and a positive exponent. -/
theorem powerBits_eq {base exponent : Int} (hbase : 2 ≤ base.natAbs) (hexponent : 1 ≤ exponent) :
    powerBits base exponent = bitLength base * exponent.toNat := by
  unfold powerBits
  rw [if_neg]
  simp only [Bool.or_eq_true, decide_eq_true_eq]
  omega

theorem powerBits_eq_zero {base exponent : Int} (h : ¬ (2 ≤ base.natAbs ∧ 1 ≤ exponent)) :
    powerBits base exponent = 0 := by
  unfold powerBits
  rw [if_pos]
  simp only [Bool.or_eq_true, decide_eq_true_eq]
  omega

theorem powerBits_le (base exponent : Int) :
    powerBits base exponent ≤ 2 * bitLength (base ^ exponent.toNat) := by
  by_cases h : 2 ≤ base.natAbs ∧ 1 ≤ exponent
  · obtain ⟨hbase, hexponent⟩ := h
    have hhighest : (bitLength base - 1) * exponent.toNat < bitLength (base ^ exponent.toNat) := by
      rw [lt_bitLength_iff, Int.natAbs_pow, Nat.pow_mul]
      exact Nat.pow_le_pow_left (two_pow_le_natAbs (by omega)) _
    -- A base beyond the units has two bits at least, so one bit less is half of them or more.
    have htwo : 1 < bitLength base := lt_bitLength_iff.mpr hbase
    calc powerBits base exponent = bitLength base * exponent.toNat := powerBits_eq hbase hexponent
      _ ≤ 2 * (bitLength base - 1) * exponent.toNat := Nat.mul_le_mul_right _ (by omega)
      _ = 2 * ((bitLength base - 1) * exponent.toNat) := Nat.mul_assoc 2 _ _
      _ ≤ 2 * bitLength (base ^ exponent.toNat) := Nat.mul_le_mul_left 2 (Nat.le_of_lt hhighest)
  · rw [powerBits_eq_zero h]
    exact Nat.zero_le _

/-- A product whose estimate is within a limit is within it. -/
theorem bitLength_mul_le_max {limit : Int} (h : productBits m n ≤ limit) :
    bitLength (m * n) ≤ max 1 limit := by
  have hbits : (bitLength (m * n) : Int) ≤ productBits m n := Int.ofNat_le.mpr (bitLength_mul_le m n)
  omega

/-- A power whose estimate is within a limit is within it, or has one bit. -/
theorem bitLength_pow_le_max {limit : Int} (h : powerBits m n ≤ limit) :
    bitLength (m ^ n.toNat) ≤ max 1 limit := by
  by_cases hlarge : 2 ≤ m.natAbs ∧ 1 ≤ n
  · have hbits : (bitLength (m ^ n.toNat) : Int) ≤ powerBits m n :=
      Int.ofNat_le.mpr (bitLength_pow_le hlarge.2 hlarge.1)
    omega
  · have hone : (m ^ n.toNat).natAbs ≤ 1 := by
      by_cases hsmall : m.natAbs ≤ 1
      · exact natAbs_pow_le_one _ hsmall
      · rw [show n.toNat = 0 by omega, pow_zero]
        decide
    have hbits : bitLength (m ^ n.toNat) ≤ 1 := bitLength_le_iff.mpr (Nat.lt_succ_of_le hone)
    omega

end Integer

/-! ## What integers come of an operation -/

/-- What a run returns, if it returns, is good. -/
def Run.Returns {α : Type} (x : Run α) (good : α → Prop) : Prop := ∀ s a t, x s = .ok a t → good a

namespace Run.Returns

variable {α β : Type} {good : α → Prop} {fine : β → Prop}

theorem pure {a : α} (ha : good a) : Returns (Pure.pure a : Run α) good := by
  intro s b t h
  cases h
  exact ha

theorem throw {fault : Fault} : Returns (MonadExcept.throw fault : Run α) good := fun _ _ _ h => nomatch h

theorem throwBind {fault : Fault} {f : β → Run α} :
    Returns (MonadExcept.throw fault >>= f : Run α) good := fun _ _ _ h => nomatch h

theorem make {new : Heap → Value × Heap} {good : Value → Prop} (hnew : ∀ h, good (new h).1) :
    Returns (Run.make new) good := by
  intro s v t h
  cases h
  exact hnew s.heap

theorem any {x : Run α} : Returns x fun _ => True := fun _ _ _ _ => trivial

theorem lift {x : Except Fault α} (hx : Gives x good) : Returns (liftM x : Run α) good :=
  fun _ a _ h => hx a (Run.liftM_ok_iff.mp h).1

theorem computed {x : Except Fault α} : Returns (liftM x : Run α) fun a => x = .ok a :=
  lift fun _ h => h

theorem bind {x : Run α} {f : α → Run β} (hx : Returns x good) (hf : ∀ a, good a → Returns (f a) fine) :
    Returns (x >>= f) fine := by
  intro s b t h
  obtain ⟨a, u, hxs, hfa⟩ := Run.bind_ok_iff.mp h
  exact hf a (hx s a u hxs) u b t hfa

theorem tested {x : Run α} {test : Heap → α → Except Fault Unit} (hx : Returns x good) :
    Returns (Run.tested x test) good := fun s a t h => hx s a t (Run.tested_ok_iff.mp h).1

theorem ite {c : Prop} [Decidable c] {x y : Run α} (hx : c → Returns x good) (hy : ¬ c → Returns y good) :
    Returns (if c then x else y) good := by
  split
  · exact hx ‹_›
  · exact hy ‹_›

end Run.Returns

namespace Number

variable {op : BinaryOp} {a b : Number}

theorem computeInts_pow {m n : Int} (hn : 0 ≤ n) : computeInts .pow m n = .ok (.int (m ^ n.toNat)) := by
  rw [← Integer.power_eq]
  exact if_pos hn

theorem eq_of_computeInts_pow {m n k : Int} (h : computeInts .pow m n = .ok (.int k)) :
    0 ≤ n ∧ k = m ^ n.toNat := by
  have hgives : Gives (computeInts .pow m n) fun c => ∀ k, c = .int k → 0 ≤ n ∧ k = m ^ n.toNat := by
    refine .ite (fun hn => .pure ?_) fun _ => ?_
    · rintro k ⟨⟩
      exact ⟨hn, Integer.power_eq m n.toNat⟩
    · refine Gives.any.bind fun x _ => Gives.any.bind fun y _ => ?_
      exact (gives_floatPower x y).mono fun c hc k hk => absurd hk (hc.ne_int k)
  exact hgives _ h k rfl

/-- An integer comes of two integers only. -/
theorem gives_compute_ints : Gives (compute op a b) fun c => ∀ k, c = .int k →
    ∃ m n, a = .int m ∧ b = .int n ∧ computeInts op m n = .ok (.int k) := by
  have hfloats : ∀ (a b : Except Fault Float), Gives (do computeFloats op (← a) (← b))
      fun c => ∀ k, c ≠ .int k :=
    fun a b => Gives.any.bind fun x _ => Gives.any.bind fun y _ =>
      (gives_computeFloats op x y).mono fun _ hc => hc.ne_int
  rintro c hc k rfl
  cases a with
  | float x => exact absurd rfl (hfloats _ _ _ hc k)
  | int m =>
    cases b with
    | float y => exact absurd rfl (hfloats _ _ _ hc k)
    | int n => exact ⟨m, n, rfl, rfl, hc⟩

end Number

theorem Value.integer?_of_isSequence {v : Value} {k : Kind} (hk : v.kind = .ok k)
    (hsequence : k.isSequence = true) : v.integer? = Option.none := by
  cases v with
  | bool b | int n =>
    cases hk
    cases hsequence
  | _ => rfl

namespace Operation

open Run

variable {limits : Limits} {room : Nat} {op : BinaryOp} {v w x : Value}

/-- If a value is an integer, it is what an operator makes of two integers. -/
def ComesOfIntegers (op : BinaryOp) (v w x : Value) : Prop :=
  ∀ k, x.integer? = some k → ∃ m n, v.integer? = some m ∧ w.integer? = some n ∧
    Number.computeInts op m n = .ok (.int k)

theorem ComesOfIntegers.of_none (h : x.integer? = none) : ComesOfIntegers op v w x := by
  intro k hk
  rw [h] at hk
  cases hk

theorem returns_newFloat (x : Float) : Returns (newFloat x) fun v => v.integer? = none := by
  refine .make fun h => ?_
  unfold Heap.newFloat
  split <;> rfl

theorem returns_newTuple (items : List Value) : Returns (newTuple items) fun v => v.integer? = none := by
  refine .make fun h => ?_
  unfold Heap.newTuple
  split <;> rfl

theorem returns_ofComputed (c : Computed) :
    Returns (ofComputed c) fun x => ∀ k, x.integer? = some k → c = .int k := by
  cases c with
  | int n =>
    refine .pure fun k hk => ?_
    cases hk
    rfl
  | float x =>
    intro s v t h k hk
    rw [returns_newFloat x s v t h] at hk
    cases hk
  | complex re im => exact .pure fun k hk => nomatch hk

/-- What comes of two numbers by an operator. -/
theorem returns_computed {a b : Number} (ha : v.number? = some a) (hb : w.number? = some b) :
    Returns (do ofComputed (← Number.compute op a b)) (ComesOfIntegers op v w) := by
  refine (Returns.lift Number.gives_compute_ints).bind fun c hc => ?_
  intro s x t h k hk
  obtain ⟨m, n, rfl, rfl, hcomputed⟩ := hc k (returns_ofComputed c s x t h k hk)
  exact ⟨m, n, Value.integer?_of_number? ha, Value.integer?_of_number? hb, hcomputed⟩

theorem returns_repeated {sequence : Value} (h : sequence.integer? = none) (count : Int) :
    Returns (repeated sequence count) fun x => x.integer? = none := by
  unfold repeated
  refine .ite (fun _ => .throwBind) fun _ => ?_
  refine Returns.any.bind fun _ _ => Returns.any.bind fun _ _ => ?_
  cases sequence with
  | text t => exact .pure rfl
  | list r => exact .make fun _ => rfl
  | tuple r => exact .ite (fun _ => .pure rfl) fun _ => returns_newTuple _
  | _ => exact .pure h

theorem returns_multiply : Returns (multiply v w) fun x => x.integer? = none := by
  unfold multiply
  refine Returns.computed.bind fun k hk => ?_
  refine .ite (fun hsequence => ?_) fun _ => ?_
  · cases w.integer? with
    | none => exact .throw
    | some n => exact returns_repeated (Value.integer?_of_isSequence hk hsequence) n
  refine Returns.computed.bind fun k hk => ?_
  refine .ite (fun hsequence => ?_) fun _ => .throw
  cases v.integer? with
  | none => exact .throw
  | some n => exact returns_repeated (Value.integer?_of_isSequence hk hsequence) n

theorem returns_apply (hop : op = .mul ∨ op = .pow) :
    Returns (apply limits room op v w) (ComesOfIntegers op v w) := by
  unfold apply
  split
  · rename_i ha hb
    exact returns_computed ha hb
  · rcases hop with rfl | rfl
    · exact fun s x t h => .of_none (returns_multiply s x t h)
    · exact .throw

/-- The integers that come of a product or a power have been estimated. -/
theorem returns_binary (hop : op = .mul ∨ op = .pow) :
    Returns (binary limits room op v w) fun x =>
      bitEstimate op v w ≤ limits.maxIntBits ∧ ComesOfIntegers op v w x := by
  unfold binary
  refine Returns.any.bind fun _ _ => ?_
  refine (Returns.lift (gives_requireBits limits _)).bind fun _ hbits => ?_
  have hresult : Returns ((apply limits room op v w).tested (requireSequence limits))
      fun x => bitEstimate op v w ≤ limits.maxIntBits ∧ ComesOfIntegers op v w x :=
    fun s x t h => ⟨hbits, (returns_apply hop).tested s x t h⟩
  exact .ite (fun _ => Returns.any.bind fun _ _ => hresult) fun _ => hresult

/-- An integer that comes of a product or a power is within every limit that the estimate is within. -/
theorem ComesOfIntegers.bitLength_le {limit : Int} {k : Int} (hop : op = .mul ∨ op = .pow)
    (hx : ComesOfIntegers op v w x) (hbits : bitEstimate op v w ≤ limit) (hk : x.integer? = some k) :
    Integer.bitLength k ≤ max 1 limit := by
  obtain ⟨m, n, hm, hn, hcomputed⟩ := hx k hk
  rw [bitEstimate_integers op hm hn] at hbits
  rcases hop with rfl | rfl
  · cases hcomputed
    exact Integer.bitLength_mul_le_max hbits
  · obtain ⟨-, rfl⟩ := Number.eq_of_computeInts_pow hcomputed
    exact Integer.bitLength_pow_le_max hbits

/-! ## What is refused -/

theorem requireBits_ok {bits : Nat} (h : bits ≤ limits.maxIntBits) : requireBits limits bits = .ok () := by
  unfold requireBits
  rw [if_neg (Int.not_lt.mpr h)]
  rfl

theorem number?_of_integer? {m : Int} (hm : v.integer? = some m) : v.number? = some (.int m) := by
  cases v <;> cases hm <;> rfl

/-- An operator on two integers is computed if the estimate is within the limit. -/
theorem binary_integers {m n k : Int} {s : State} (hm : v.integer? = some m) (hn : w.integer? = some n)
    (hbits : bitEstimate op (.int m) (.int n) ≤ limits.maxIntBits)
    (hk : Number.computeInts op m n = .ok (.int k)) :
    binary limits room op v w s = .ok (.int k) s := by
  have hcompute : Number.compute op (.int m) (.int n) = .ok (.int k) := hk
  have happly : apply limits room op v w s = .ok (.int k) s := by
    unfold apply
    rw [number?_of_integer? hm, number?_of_integer? hn]
    simp only
    rw [hcompute]
    rfl
  have hlook : Run.look (fun h => do
      requireRepetition limits h v w
      requireRepetition limits h w v) s = .ok () s := by
    rw [look_ok_iff, requireRepetition_integer hm]
    exact ⟨requireRepetition_integer hn, rfl⟩
  have hresult : (apply limits room op v w).tested (requireSequence limits) s = .ok (.int k) s :=
    tested_of_ok happly rfl
  unfold binary
  rw [bind_of_ok (by rw [liftM_apply, requireOperands_integers op hm hn]),
    bind_of_ok (by rw [liftM_apply, bitEstimate_integers op hm hn, requireBits_ok hbits])]
  split
  · exact (bind_of_ok hlook _).trans hresult
  · exact hresult

/-- An operator that is computed on integers is refused by the limit on bits only. -/
theorem lt_of_binary_error {m n k : Int} {s t : State} {fault : Fault} (hm : v.integer? = some m)
    (hn : w.integer? = some n) (hk : Number.computeInts op m n = .ok (.int k))
    (h : binary limits room op v w s = .error fault t) :
    limits.maxIntBits < bitEstimate op (.int m) (.int n) := by
  refine Int.not_le.mp fun hbits => ?_
  rw [binary_integers hm hn hbits hk] at h
  cases h

end Operation

namespace Reckoning

open Run Operation

variable {limits : Limits} {x y : Value}

/-- The integers that come of the function that raises to a power have been estimated as well. -/
theorem returns_power : Returns (power limits x y .none) fun v =>
    bitEstimate .pow x y ≤ limits.maxIntBits ∧ ComesOfIntegers .pow x y v := by
  unfold power
  refine Returns.any.bind fun _ _ => Returns.any.bind fun _ _ => ?_
  change Returns (plainPower limits x y .none) _
  unfold plainPower
  refine (Returns.lift (gives_requireBits limits _)).bind fun _ hbits => ?_
  refine (Returns.lift (number_number? "pow()")).bind fun a ha => ?_
  refine (Returns.lift (number_number? "pow()")).bind fun b hb => ?_
  exact fun s v t h => ⟨hbits, returns_computed ha hb s v t h⟩

theorem power_integers {m n k : Int} {s : State} (hm : x.integer? = some m) (hn : y.integer? = some n)
    (hbits : bitEstimate .pow (.int m) (.int n) ≤ limits.maxIntBits)
    (hk : Number.computeInts .pow m n = .ok (.int k)) :
    power limits x y .none s = .ok (.int k) s := by
  have hcompute : Number.compute .pow (.int m) (.int n) = .ok (.int k) := hk
  have hnumber : ∀ {v : Value} {n : Int}, v.integer? = some n → number v "pow()" = .ok (.int n) := by
    intro v n hn
    unfold number
    rw [Value.requireNumber_integer hn, number?_of_integer? hn]
    rfl
  have hplain : plainPower limits x y .none s = .ok (.int k) s := by
    unfold plainPower
    rw [bind_of_ok (by rw [liftM_apply, bitEstimate_integers .pow hm hn, requireBits_ok hbits]),
      bind_of_ok (by rw [liftM_apply, hnumber hm]), bind_of_ok (by rw [liftM_apply, hnumber hn]),
      bind_of_ok (by rw [liftM_apply, hcompute])]
    rfl
  unfold power
  rw [bind_of_ok (by rw [liftM_apply, Value.requireNumber_integer hm]),
    bind_of_ok (by rw [liftM_apply, Value.requireNumber_integer hn])]
  exact hplain

end Reckoning

/-! ## Scripts -/

section

open Operation

variable {limits : Limits} {room : Room} {text : Text} {span : Span} {op : BinaryOp} {left right : Expr}
  {s t u : State} {v w x y : Value} {m n k : Int} {fault : Fault} {given : Arguments}

namespace Evaluation

/-- An operator makes its value of those of its operands, which are evaluated first. -/
theorem node_binary : node limits room text (.binary span op left right) =
    Run.mapFault (Fault.within (Expr.source (.binary span op left right) text)) (do
      let v ← (room.below 1).evaluateNode text left
      let w ← (room.below 1).evaluateNode text right
      binary limits room.levels op v w) := by
  funext s
  unfold node
  rw [Run.bind_apply, Run.mapFault_apply, Run.mapFault_apply]
  simp only [nodeValue, Run.bind_apply]
  cases (room.below 1).evaluateNode text left s with
  | error fault t => rfl
  | ok v t =>
    simp only
    cases (room.below 1).evaluateNode text right t with
    | error fault u => rfl
    | ok w u =>
      simp only
      cases binary limits room.levels op v w u <;> rfl

theorem node_binary_apply (hleft : (room.below 1).evaluateNode text left s = .ok v u)
    (hright : (room.below 1).evaluateNode text right u = .ok w t) :
    node limits room text (.binary span op left right) s =
      Run.mapFault (Fault.within (Expr.source (.binary span op left right) text))
        (binary limits room.levels op v w) t := by
  rw [node_binary, Run.mapFault_apply, Run.bind_of_ok hleft, Run.bind_of_ok hright, Run.mapFault_apply]

/-- The operands of an operator come out as two integers. -/
def GivesIntegers (engine : Engine) (text : Text) (left right : Expr) (m n : Int) (s t : State) : Prop :=
  ∃ v w u, engine.evaluateNode text left s = .ok v u ∧ engine.evaluateNode text right u = .ok w t ∧
    v.integer? = some m ∧ w.integer? = some n

theorem node_binary_ok (h : node limits room text (.binary span op left right) s = .ok x t) :
    ∃ v w u, binary limits room.levels op v w u = .ok x t := by
  rw [node_binary, Run.mapFault_apply] at h
  split at h
  · rename_i hvalue
    cases h
    obtain ⟨v, u, -, hvalue⟩ := Run.bind_ok_iff.mp hvalue
    obtain ⟨w, u, -, hvalue⟩ := Run.bind_ok_iff.mp hvalue
    exact ⟨v, w, u, hvalue⟩
  · cases h

/-- An operator on two integers fails only where the integers are refused. -/
theorem node_binary_error (hoperands : GivesIntegers (room.below 1) text left right m n s t)
    (hk : Number.computeInts op m n = .ok (.int k))
    (h : node limits room text (.binary span op left right) s = .error fault u) :
    limits.maxIntBits < bitEstimate op (.int m) (.int n) := by
  obtain ⟨v, w, between, hleft, hright, hm, hn⟩ := hoperands
  rw [node_binary_apply hleft hright, Run.mapFault_apply] at h
  split at h
  · cases h
  · rename_i hrefused
    exact lt_of_binary_error hm hn hk hrefused

end Evaluation

/-- A call with these arguments raises one value to the power of another, without a modulus. -/
def Arguments.IsPower (given : Arguments) (x y : Value) : Prop :=
  ∃ b, Builtin.pow.signature.bind given = .ok b ∧ b.value 0 = x ∧ b.value 1 = y ∧ b.value 2 = .none

example (x y : Value) : Arguments.IsPower ⟨[x, y], []⟩ x y :=
  ⟨⟨[some x, some y, none], [], []⟩, rfl, rfl, rfl, rfl⟩

theorem Call.function_pow (h : given.IsPower x y) :
    function limits room (.builtin .pow) given = Reckoning.power limits x y .none := by
  obtain ⟨b, hb, rfl, rfl, hmodulus⟩ := h
  unfold function
  simp only
  rw [hb]
  change Reckoning.power limits (b.value 0) (b.value 1) (b.value 2) = _
  rw [hmodulus]

/-- The estimate of a product is at most one bit above the bits of the product, and that of a power at
most their double. So whatever the limit is, no product and no power that a script makes exceeds it, and
none that is far below it is refused. -/
theorem bitEstimate_bounds (limits : Limits) (levels : Nat) (text : Text) (s t : State) :
    (∀ m n : Int, m ≠ 0 → n ≠ 0 →
      Integer.bitLength (m * n) ≤ bitEstimate .mul (.int m) (.int n) ∧
        bitEstimate .mul (.int m) (.int n) ≤ Integer.bitLength (m * n) + 1) ∧
    (∀ m n : Int, 2 ≤ m.natAbs → 1 ≤ n →
      Integer.bitLength (m ^ n.toNat) ≤ bitEstimate .pow (.int m) (.int n) ∧
        bitEstimate .pow (.int m) (.int n) ≤ 2 * Integer.bitLength (m ^ n.toNat)) ∧
    (∀ (span : Span) (op : BinaryOp) (left right : Expr) (x : Value) (k : Int), op = .mul ∨ op = .pow →
      (Engine.tower limits levels 0).evaluateNode text (.binary span op left right) s = .ok x t →
      x.integer? = some k → Integer.bitLength k ≤ max 1 limits.maxIntBits) ∧
    (∀ (given : Arguments) (v w x : Value) (k : Int), given.IsPower v w →
      (Engine.tower limits levels 0).call (.builtin .pow) given s = .ok x t →
      x.integer? = some k → Integer.bitLength k ≤ max 1 limits.maxIntBits) ∧
    (∀ (span : Span) (left right : Expr) (m n : Int) (u : State) (fault : Fault),
      Evaluation.GivesIntegers (Engine.tower limits levels 2) text left right m n s u → m ≠ 0 → n ≠ 0 →
      (Engine.tower limits levels 0).evaluateNode text (.binary span .mul left right) s = .error fault t →
      limits.maxIntBits ≤ Integer.bitLength (m * n)) ∧
    (∀ (span : Span) (left right : Expr) (m n : Int) (u : State) (fault : Fault),
      Evaluation.GivesIntegers (Engine.tower limits levels 2) text left right m n s u → 0 ≤ n →
      (Engine.tower limits levels 0).evaluateNode text (.binary span .pow left right) s = .error fault t →
      limits.maxIntBits < 2 * Integer.bitLength (m ^ n.toNat)) ∧
    (∀ (given : Arguments) (v w : Value) (m n : Int) (fault : Fault), given.IsPower v w →
      v.integer? = some m → w.integer? = some n → 0 ≤ n → 0 < levels →
      (Engine.tower limits levels 0).call (.builtin .pow) given s = .error fault t →
      limits.maxIntBits < 2 * Integer.bitLength (m ^ n.toNat)) := by
  refine ⟨fun m n hm hn => ⟨Integer.bitLength_mul_le m n, Integer.productBits_le hm hn⟩,
    fun m n hm hn => ⟨Integer.bitLength_pow_le hn hm, Integer.powerBits_le m n⟩, ?_, ?_, ?_, ?_, ?_⟩
  · intro span op left right x k hop h hk
    cases levels with
    | zero => cases h
    | succ levels =>
      obtain ⟨v, w, u, hbinary⟩ := Evaluation.node_binary_ok h
      obtain ⟨hbits, hx⟩ := returns_binary hop u x t hbinary
      exact hx.bitLength_le hop hbits hk
  · intro given v w x k hgiven h hk
    cases levels with
    | zero => cases h
    | succ levels =>
      have hpower : Reckoning.power limits v w .none s = .ok x t := by
        rw [← Call.function_pow hgiven]
        exact h
      obtain ⟨hbits, hx⟩ := Reckoning.returns_power s x t hpower
      exact hx.bitLength_le (.inr rfl) hbits hk
  · intro span left right m n u fault hoperands hm hn h
    -- Without a level the operands would have no value.
    cases levels with
    | zero =>
      obtain ⟨v, w, between, hleft, -⟩ := hoperands
      cases hleft
    | succ levels =>
      have hestimate : limits.maxIntBits < Integer.productBits m n :=
        Evaluation.node_binary_error hoperands rfl h
      have htight := Integer.productBits_le hm hn
      omega
  · intro span left right m n u fault hoperands hn h
    cases levels with
    | zero =>
      obtain ⟨v, w, between, hleft, -⟩ := hoperands
      cases hleft
    | succ levels =>
      have hestimate : limits.maxIntBits < Integer.powerBits m n :=
        Evaluation.node_binary_error hoperands (Number.computeInts_pow hn) h
      have htight := Integer.powerBits_le m n
      omega
  · intro given v w m n fault hgiven hm hn hexponent hlevels h
    obtain ⟨levels, rfl⟩ := Nat.exists_eq_add_of_lt hlevels
    have hpower : Reckoning.power limits v w .none s = .error fault t := by
      rw [← Call.function_pow hgiven]
      exact h
    have hestimate : limits.maxIntBits < Integer.powerBits m n := by
      refine Int.not_le.mp fun hbits => ?_
      rw [Reckoning.power_integers hm hn hbits (Number.computeInts_pow hexponent)] at hpower
      cases hpower
    have htight := Integer.powerBits_le m n
    omega

/-- Limits on integers of four bits. -/
def Limits.fourBits : Limits := { Limits.standard with maxIntBits := 4 }

/-- Three times five, as it is read from its text. -/
def threeTimesFive : Expr := .binary ⟨0, 5⟩ .mul (.literal ⟨0, 1⟩ (.int 3)) (.literal ⟨4, 5⟩ (.int 5))

theorem Evaluation.threeTimesFive_refused (s : State) :
    (Engine.tower .fourBits 3 0).evaluateNode "3 * 5" threeTimesFive s =
      .error (Limits.fourBits.bitsFault.within "3 * 5") s := by
  have hrefused : binary .fourBits (Engine.room .fourBits 2).levels .mul (.int 3) (.int 5) s =
      .error Limits.fourBits.bitsFault s :=
    binary_refused _ s rfl rfl (by decide +kernel)
  change node .fourBits (Engine.room .fourBits 2) "3 * 5" threeTimesFive s = _
  rw [threeTimesFive, node_binary_apply (v := .int 3) (w := .int 5) rfl rfl, Run.mapFault_apply, hrefused]
  rfl

/-- The product has four bits and is estimated at five, so a limit of four bits refuses it. -/
theorem bitEstimate_bounds_fifteen :
    (Engine.tower .fourBits 3 0).evaluateNode "3 * 5" threeTimesFive (.initial ⟨0⟩ 0) =
        .error (Limits.fourBits.bitsFault.within "3 * 5") (.initial ⟨0⟩ 0) ∧
      Limits.fourBits.maxIntBits ≤ Integer.bitLength (3 * 5) := by
  let s := State.initial ⟨0⟩ 0
  obtain ⟨-, -, -, -, hproduct, -⟩ := bitEstimate_bounds .fourBits 3 "3 * 5" s s
  have hoperands : Evaluation.GivesIntegers (Engine.tower .fourBits 3 2) "3 * 5"
      (.literal ⟨0, 1⟩ (.int 3)) (.literal ⟨4, 5⟩ (.int 5)) 3 5 s s :=
    ⟨.int 3, .int 5, s, rfl, rfl, rfl, rfl⟩
  have hrefused := Evaluation.threeTimesFive_refused s
  exact ⟨hrefused, hproduct ⟨0, 5⟩ _ _ 3 5 s _ hoperands (by decide) (by decide) hrefused⟩

end

end Scriptlet
