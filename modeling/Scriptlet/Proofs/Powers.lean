import Scriptlet.Proofs.Caps.Estimates

/-
  Powers by a modulus.

  A power by a modulus is squared and multiplied along the bits of its exponent, with a remainder taken
  at every step, so it is never formed. It is the remainder of the power all the same, and no limit on bits
  is looked at on the way. The power itself, of which the remainder is taken afterwards, is refused where
  its estimate is beyond the limit.

  What is proved:
    1. `Integer.isFloorRemainder_power_iff` — the remainder that is computed is that of the power.
    2. `Call.function_pow_modulus` — the function gives it under any limits.
    3. `Evaluation.node_remainder` — the remainder of a power that is formed is the same, or refused.
    4. `pow_remainder` — so under all limits both ways give one remainder, as far as they give any.
-/

namespace Scriptlet

/-! ## Remainders -/

namespace Integer

variable {m n : Int}

/-- What is left of an integer when it is divided by `m` with a floor: nothing, or something of the sign
of `m` that is nearer to zero than `m`. -/
structure IsFloorRemainder (n m r : Int) : Prop where
  dvd_sub : m ∣ n - r
  between : (0 ≤ r ∧ r < m) ∨ (m < r ∧ r ≤ 0)

theorem isFloorRemainder_fmod (n : Int) (hm : m ≠ 0) : IsFloorRemainder n m (Int.fmod n m) := by
  refine ⟨Int.dvd_self_sub_fmod, ?_⟩
  rcases Int.lt_or_gt_of_ne hm with hneg | hpos
  · refine .inr ?_
    have hlow := Int.emod_nonneg n hm
    have hhigh := Int.emod_lt n hm
    rw [Int.fmod_eq_emod]
    by_cases hdvd : m ∣ n
    · rw [if_pos (.inr hdvd), Int.emod_eq_zero_of_dvd hdvd]
      omega
    · have hne : n % m ≠ 0 := fun hzero => hdvd (Int.dvd_of_emod_eq_zero hzero)
      rw [if_neg (by omega)]
      omega
  · exact .inl ⟨Int.fmod_nonneg_of_pos n hpos, Int.fmod_lt_of_pos n hpos⟩

/-- There is only one floor remainder. -/
theorem isFloorRemainder_iff {r : Int} (hm : m ≠ 0) : IsFloorRemainder n m r ↔ r = Int.fmod n m := by
  constructor
  · intro h
    have h' := isFloorRemainder_fmod n hm
    have hdvd : m ∣ Int.fmod n m - r := by
      have hsub := Int.dvd_sub h.dvd_sub h'.dvd_sub
      rwa [show n - r - (n - Int.fmod n m) = Int.fmod n m - r by omega] at hsub
    have hsmall : (Int.fmod n m - r).natAbs < m.natAbs := by
      have hbetween := h.between
      have hbetween' := h'.between
      omega
    have hzero := Int.eq_zero_of_dvd_of_natAbs_lt_natAbs hdvd hsmall
    omega
  · rintro rfl
    exact isFloorRemainder_fmod n hm

/-- A remainder may be taken of the factors before they are multiplied, so at every step. -/
theorem powMod_eq (base : Int) (exponent : Nat) (modulus : Int) :
    powMod base exponent modulus = Int.fmod (base ^ exponent) modulus := by
  induction exponent using Nat.strong_induction_on with
  | _ exponent ih =>
    unfold powMod
    by_cases hzero : exponent = 0
    · rw [if_pos hzero, hzero, pow_zero]
    have hhalf := ih (exponent / 2) (Nat.div_lt_self (Nat.pos_of_ne_zero hzero) (by decide))
    have hsplit : exponent = exponent / 2 + exponent / 2 + exponent % 2 := by omega
    rw [if_neg hzero, hhalf]
    simp only [← Int.mul_fmod, ← pow_add]
    split
    · rename_i heven
      rw [heven, Nat.add_zero] at hsplit
      rw [← hsplit]
    · rename_i hodd
      rw [Nat.mod_two_ne_zero.mp hodd] at hsplit
      rw [← pow_succ, ← hsplit]

/-- The remainder of a power is computed without the power. -/
theorem isFloorRemainder_power_iff {base r : Int} {exponent : Nat} (hm : m ≠ 0) :
    IsFloorRemainder (base ^ exponent) m r ↔ r = powMod base exponent m := by
  rw [powMod_eq, isFloorRemainder_iff hm]

end Integer

/-! ## The function -/

section

open Operation

variable {limits : Limits} {room : Room} {text : Text} {inner outer : Span} {base exponent modulus : Expr}
  {s t u : State} {v w z : Value} {x y m : Int} {given : Arguments}

theorem Number.powerMod_nonneg (hy : 0 ≤ y) (hm : m ≠ 0) :
    powerMod x y m = .ok (Integer.powMod x y.toNat m) := by
  unfold powerMod
  rw [if_neg hm, if_pos hy]

theorem Number.computeInts_mod (hm : m ≠ 0) : computeInts .mod x m = .ok (.int (Int.fmod x m)) := if_neg hm

theorem Value.requireInteger_integer {context : Text} (hv : v.integer? = some m) :
    v.requireInteger context = .ok m := by
  cases v <;> cases hv <;> rfl

/-- With a modulus no limit on bits is looked at. -/
theorem Reckoning.power_modulus (hx : v.integer? = some x) (hy : w.integer? = some y)
    (hm : z.integer? = some m) {r : Int} (hr : Number.powerMod x y m = .ok r) :
    power limits v w z s = .ok (.int r) s := by
  unfold power
  rw [Run.bind_of_ok (by rw [Run.liftM_apply, Value.requireNumber_integer hx]),
    Run.bind_of_ok (by rw [Run.liftM_apply, Value.requireNumber_integer hy]), hx, hy]
  have hmodulus : z.requireInteger "pow()" = .ok m := Value.requireInteger_integer hm
  have hresult : (do
      let k ← (liftM (z.requireInteger "pow()") : Run Int)
      let r ← (liftM (Number.powerMod x y k) : Run Int)
      return (.int r : Value)) s = .ok (.int r) s := by
    rw [Run.bind_of_ok (by rw [Run.liftM_apply, hmodulus]), Run.bind_of_ok (by rw [Run.liftM_apply, hr])]
    rfl
  cases z with
  | none => cases hm
  | _ => exact hresult

/-- A call with these arguments raises one value to the power of another by a modulus. -/
def Arguments.IsModularPower (given : Arguments) (v w z : Value) : Prop :=
  ∃ b, Builtin.pow.signature.bind given = .ok b ∧ b.value 0 = v ∧ b.value 1 = w ∧ b.value 2 = z

theorem Arguments.isModularPower_positional (v w z : Value) : IsModularPower ⟨[v, w, z], []⟩ v w z :=
  ⟨⟨[some v, some w, some z], [], []⟩, rfl, rfl, rfl, rfl⟩

theorem Call.function_pow_modulus (h : given.IsModularPower v w z) :
    function limits room (.builtin .pow) given = Reckoning.power limits v w z := by
  obtain ⟨b, hb, rfl, rfl, rfl⟩ := h
  unfold function
  simp only
  rw [hb]
  rfl

/-! ## The operators -/

namespace Evaluation

/-- A power of two integers is formed if its estimate is within the limit, and refused otherwise. -/
theorem node_power (hoperands : GivesIntegers (room.below 1) text base exponent x y s t) (hy : 0 ≤ y) :
    node limits room text (.binary inner .pow base exponent) s =
      if (Integer.powerBits x y : Int) ≤ limits.maxIntBits then .ok (.int (x ^ y.toNat)) t
      else .error (limits.bitsFault.within (Expr.source (.binary inner .pow base exponent) text)) t := by
  obtain ⟨v, w, between, hbase, hexponent, hv, hw⟩ := hoperands
  rw [node_binary_apply hbase hexponent, Run.mapFault_apply]
  change _ = if (bitEstimate .pow (.int x) (.int y) : Int) ≤ limits.maxIntBits then _ else _
  by_cases hwithin : (bitEstimate .pow (.int x) (.int y) : Int) ≤ limits.maxIntBits
  · rw [if_pos hwithin, binary_integers hv hw hwithin (Number.computeInts_pow hy)]
  · rw [if_neg hwithin, binary_refused _ t hv hw (Int.not_le.mp hwithin)]

/-- The remainder of a power that is formed. -/
theorem node_remainder {levels : Nat}
    (hoperands : GivesIntegers (Engine.tower limits levels 4) text base exponent x y s t)
    (hmodulus : (Engine.tower limits levels 2).evaluateNode text modulus t = .ok z u)
    (hz : z.integer? = some m) (hy : 0 ≤ y) (hm : m ≠ 0) :
    (Engine.tower limits levels 0).evaluateNode text
        (.binary outer .mod (.binary inner .pow base exponent) modulus) s =
      if (Integer.powerBits x y : Int) ≤ limits.maxIntBits then .ok (.int (Int.fmod (x ^ y.toNat) m)) u
      else .error (limits.bitsFault.within (Expr.source (.binary inner .pow base exponent) text)) t := by
  -- The remainder, the power and its operands take two levels each.
  match levels with
  | 0 | 1 | 2 =>
    obtain ⟨v, w, between, hbase, -⟩ := hoperands
    cases hbase
  | levels + 3 =>
    have hpower : (Engine.tower limits (levels + 2) 1).evaluateNode text
        (.binary inner .pow base exponent) s = _ := node_power hoperands hy
    change node limits ⟨Engine.tower limits (levels + 2), levels + 2⟩ text _ s = _
    by_cases hwithin : (Integer.powerBits x y : Int) ≤ limits.maxIntBits
    · rw [if_pos hwithin] at hpower ⊢
      have hbits : (bitEstimate .mod (.int (x ^ y.toNat)) (.int m) : Int) ≤ limits.maxIntBits :=
        Int.le_trans (Int.ofNat_le.mpr (Nat.zero_le _)) hwithin
      rw [node_binary_apply hpower hmodulus, Run.mapFault_apply,
        binary_integers rfl hz hbits (Number.computeInts_mod hm)]
    · rw [if_neg hwithin] at hpower ⊢
      rw [node_binary, Run.mapFault_apply, Run.bind_apply]
      simp only [hpower]
      rfl

end Evaluation

/-- By a modulus a power gives its floor remainder under any limits, and the remainder of the power that
is formed first is the same wherever the power is within the limit on bits. -/
theorem pow_remainder {x y m : Int} (hy : 0 ≤ y) (hm : m ≠ 0) :
    ∃ r, (∀ k, Integer.IsFloorRemainder (x ^ y.toNat) m k ↔ k = r) ∧ ∀ (limits : Limits) (levels : Nat),
      (∀ (given : Arguments) (v w z : Value) (s : State), given.IsModularPower v w z →
        v.integer? = some x → w.integer? = some y → z.integer? = some m → 0 < levels →
        (Engine.tower limits levels 0).call (.builtin .pow) given s = .ok (.int r) s) ∧
      ∀ (text : Text) (inner outer : Span) (base exponent modulus : Expr) (z : Value) (s t u : State),
        Evaluation.GivesIntegers (Engine.tower limits levels 4) text base exponent x y s t →
        (Engine.tower limits levels 2).evaluateNode text modulus t = .ok z u → z.integer? = some m →
        (Engine.tower limits levels 0).evaluateNode text
            (.binary outer .mod (.binary inner .pow base exponent) modulus) s =
          if (Integer.powerBits x y : Int) ≤ limits.maxIntBits then .ok (.int r) u
          else .error (limits.bitsFault.within (Expr.source (.binary inner .pow base exponent) text)) t := by
  refine ⟨Integer.powMod x y.toNat m, fun k => Integer.isFloorRemainder_power_iff hm, fun limits levels => ?_⟩
  constructor
  · intro given v w z s hgiven hv hw hz hlevels
    obtain ⟨levels, rfl⟩ := Nat.exists_eq_add_of_lt hlevels
    change Call.function limits (Engine.room limits (0 + levels)) (.builtin .pow) given s = _
    rw [Call.function_pow_modulus hgiven]
    exact Reckoning.power_modulus hv hw hz (Number.powerMod_nonneg hy hm)
  · intro text inner outer base exponent modulus z s t u hoperands hmodulus hz
    rw [Integer.powMod_eq]
    exact Evaluation.node_remainder hoperands hmodulus hz hy hm

/-- Three to the power of five by minus seven, as it is read from its text. -/
def threeToFive : Expr :=
  .binary ⟨0, 11⟩ .mod (.binary ⟨0, 6⟩ .pow (.literal ⟨0, 1⟩ (.int 3)) (.literal ⟨5, 6⟩ (.int 5)))
    (.unary ⟨9, 11⟩ .negative (.literal ⟨10, 11⟩ (.int 7)))

/-- The power has eight bits and is estimated at ten, so of its remainder by a negative modulus the function
alone makes something under a limit of four bits. -/
theorem pow_remainder_negative :
    (Engine.tower .fourBits 5 0).call (.builtin .pow) ⟨[.int 3, .int 5, .int (-7)], []⟩ (.initial ⟨0⟩ 0) =
        .ok (.int (-2)) (.initial ⟨0⟩ 0) ∧
      (Engine.tower .fourBits 5 0).evaluateNode "3 ** 5 % -7" threeToFive (.initial ⟨0⟩ 0) =
        .error (Limits.fourBits.bitsFault.within "3 ** 5") (.initial ⟨0⟩ 0) ∧
      (Engine.tower .standard 5 0).evaluateNode "3 ** 5 % -7" threeToFive (.initial ⟨0⟩ 0) =
        .ok (.int (-2)) (.initial ⟨0⟩ 0) := by
  let s := State.initial ⟨0⟩ 0
  obtain ⟨r, hr, hways⟩ := pow_remainder (x := 3) (y := 5) (m := -7) (by decide) (by decide)
  obtain rfl : -2 = r := (hr (-2)).mp ⟨by decide, .inr ⟨by decide, by decide⟩⟩
  have hoperands : ∀ limits, Evaluation.GivesIntegers (Engine.tower limits 5 4) "3 ** 5 % -7"
      (.literal ⟨0, 1⟩ (.int 3)) (.literal ⟨5, 6⟩ (.int 5)) 3 5 s s :=
    fun _ => ⟨.int 3, .int 5, s, rfl, rfl, rfl, rfl⟩
  have hwhole := fun limits => (hways limits 5).2 "3 ** 5 % -7" ⟨0, 6⟩ ⟨0, 11⟩ _ _
    (.unary ⟨9, 11⟩ .negative (.literal ⟨10, 11⟩ (.int 7))) (.int (-7)) s s s (hoperands limits) rfl rfl
  have hbits : Integer.powerBits 3 5 = 10 := by decide +kernel
  refine ⟨(hways .fourBits 5).1 _ _ _ _ s (Arguments.isModularPower_positional _ _ _) rfl rfl rfl (by decide),
    (hwhole .fourBits).trans ?_, (hwhole .standard).trans ?_⟩
  · rw [hbits, if_neg (by decide)]
    rfl
  · rw [hbits, if_pos (by decide)]

end

end Scriptlet
