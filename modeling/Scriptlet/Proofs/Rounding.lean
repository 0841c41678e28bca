import Scriptlet.Call
import Scriptlet.Proofs.Rounding.Scales
import Scriptlet.Proofs.Run

/-
  Rounding integers.

  An integer is rounded by way of doubles: it is multiplied with a power of ten, a half is added, and the
  floor is divided by the power again. Each step rounds to a double of 53 digits, and so a half that an
  integer has no room for rounds it up or gets lost, and a power of ten that is not exact brings the
  quotient to the wrong side of the multiple.

  What is proved:
    1. `roundedBy_one_iff` — rounding to units gives an integer back just when it is small, or even and a
       double.
    2. `roundedBy_scale` — rounding to tens and more is exact up to 53 digits where the power of ten is near
       enough.
    3. `call_round_exact` — for which integers and places a call of `round` gives the nearest multiple.
-/

namespace Scriptlet

open Binary64

variable {n M : ℤ} {d : Nat}

/-- A computation of two steps without a state. -/
theorem Run.liftM_bind {α β : Type} (x : Except Fault α) (f : α → Except Fault β) :
    (liftM (x >>= f) : Run β) = (liftM x : Run α) >>= fun a => (liftM (f a) : Run β) := by
  funext s
  cases x <;> rfl

namespace Reckoning

/-- What is left of rounding an integer to an integer when the power of ten is reckoned. -/
def roundedBy (n : Int) (factor : Number) : Except Fault Int := do
  let shifted ← compute .add (← compute .mul (.int n) factor) (.float 0.5)
  let result ← compute .div (.int (← floor shifted)) factor
  whole result

/-- Rounding to an integer is reckoning with a power of ten. -/
theorem round_int (n : Int) (d : Nat) :
    round (.int n) (.int (-d)) =
      (liftM (do return .int (← roundedBy n (← compute .pow (.int 10) (.int (-d)))) : Except Fault Value) :
        Run Value) := by
  have hplaces : (-d : Int) ≤ 0 := by omega
  have hstart : round (.int n) (.int (-d)) = (do
      let factor ← compute .pow (.int 10) (.int (-d))
      let shifted ← compute .add (← compute .mul (.int n) factor) (.float 0.5)
      let result ← compute .div (.int (← floor shifted)) factor
      if (-d : Int) ≤ 0 then return .int (← whole result)
      else Operation.ofNumber result) := rfl
  rw [hstart]
  simp only [if_pos hplaces, roundedBy, Run.liftM_bind, bind_assoc]
  rfl

theorem half_finite : (parts 0.5).IsFinite ∧ (parts 0.5).value = 1 / 2 := by
  have hparts : parts 0.5 = .finite false (twoTo 52) (-53) := by decide +kernel
  rw [hparts]
  refine ⟨⟨_, _, _, rfl⟩, ?_⟩
  norm_num [Parts.value, signed]

/-- A quotient by one is the integer. -/
theorem quotient_one (h : IsDouble n) :
    ∃ x, compute .div (.int n) (.int 1) = .ok (.float x) ∧ (parts x).IsFinite ∧ (parts x).value = n := by
  have hdouble := isDoubleOf_ofInt h.inRange
  refine ⟨_, ?_, hdouble.finite, hdouble.value_eq h.isOnGrid⟩
  have hsign : ((n < 0 : Bool) != ((1 : Int) < 0 : Bool)) = decide (n < 0) := by simp
  have hquotient : Number.quotient n 1 = .ok (ofRatio (n < 0) n.natAbs 1) := by
    unfold Number.quotient
    rw [if_neg (by decide), hsign]
    exact if_pos (isFinite_iff.mpr hdouble.finite)
  unfold compute Number.compute Number.computeInts
  simp only [hquotient]
  rfl

/-- A half is added to the double of an integer. -/
theorem roundedBy_one_eq (n : Int) :
    roundedBy n (.int 1) = (do
      let k ← floorOf ((← floatOfInt n) + 0.5)
      whole (← compute .div (.int k) (.int 1))) := by
  have hproduct : compute .mul (.int n) (.int 1) = .ok (.int n) := by
    show Except.ok (Number.int (n * 1)) = _
    rw [Int.mul_one]
  have hsum : compute .add (.int n) (.float 0.5) = (do return .float ((← floatOfInt n) + 0.5)) := by
    unfold compute Number.compute Number.toFloat
    simp only
    cases floatOfInt n <;> rfl
  unfold roundedBy
  rw [hproduct]
  show (do
    let shifted ← compute .add (.int n) (.float 0.5)
    let result ← compute .div (.int (← floor shifted)) (.int 1)
    whole result) = _
  rw [hsum]
  cases floatOfInt n <;> rfl

theorem inRange_half (h : IsDouble n) : InRange ((n : ℚ) + 1 / 2) := by
  by_cases hlarge : 2 ^ 53 ≤ |n|
  · intro v hv
    rw [(hv.half_of_large h.isOnGrid hlarge).1]
    exact h.abs_lt
  · have hn : |(n : ℚ)| + 1 ≤ 2 ^ 53 := by exact_mod_cast not_le.mp hlarge
    have hbounds := abs_le.mp (le_refl |(n : ℚ)|)
    exact inRange_of_abs_le (abs_le.mpr ⟨by linarith, by linarith⟩)

/-- An integer that is a double is rounded with a half behind it. -/
theorem roundedBy_one (h : IsDouble n) :
    ∃ v, IsNearest (n + 1 / 2) v ∧ roundedBy n (.int 1) = .ok ⌊v⌋ := by
  obtain ⟨x, hx, hfinite, hvalue⟩ := floatOfInt_of_isDouble h
  have hsum := isDoubleOf_add hfinite half_finite.1 (by
    rw [hvalue, half_finite.2]
    exact inRange_half h)
  obtain ⟨y, hy, hyfinite, hyvalue⟩ := quotient_one (isDouble_floor hsum.finite)
  refine ⟨(parts (x + 0.5)).value, ?_, ?_⟩
  · rw [← hvalue, ← half_finite.2]
    exact hsum.nearest
  · rw [roundedBy_one_eq, hx]
    show (do
      let k ← floorOf (x + 0.5)
      whole (← compute .div (.int k) (.int 1))) = _
    rw [floorOf_eq hsum.finite]
    show (do whole (← compute .div (.int ⌊(parts (x + 0.5)).value⌋) (.int 1))) = _
    rw [hy]
    exact truncate_of_value hyfinite hyvalue

/-- What comes of rounding to units is a double. -/
theorem isDouble_of_roundedBy {k : ℤ} (h : roundedBy n (.int 1) = .ok k) : IsDouble k := by
  rw [roundedBy_one_eq] at h
  cases hx : floatOfInt n with
  | error fault =>
    rw [hx] at h
    cases h
  | ok x =>
    rw [hx] at h
    cases hfloor : floorOf (x + 0.5) with
    | error fault =>
      simp only [bind, Except.bind, hfloor] at h
      cases h
    | ok j =>
      obtain ⟨hfinite, rfl⟩ := floorOf_ok hfloor
      have hdouble := isDouble_floor hfinite
      obtain ⟨y, hy, hyfinite, hyvalue⟩ := quotient_one hdouble
      simp only [bind, Except.bind, hfloor, hy] at h
      rw [whole, truncate_of_value hyfinite hyvalue] at h
      cases h
      exact hdouble

/-- Rounding to units gives the integer back just when it is small, or even and a double. -/
theorem roundedBy_one_iff :
    roundedBy n (.int 1) = .ok n ↔ |n| ≤ 2 ^ 52 ∨ 2 ∣ n ∧ IsDouble n := by
  by_cases hdouble : IsDouble n
  · obtain ⟨v, hnearest, hround⟩ := roundedBy_one hdouble
    rw [hround, Except.ok.injEq, floor_half_iff hdouble.isOnGrid hnearest, and_iff_left hdouble]
  · have hlarge : ¬ |n| ≤ 2 ^ 52 := fun hle => hdouble (isDouble_of_abs_le (by omega))
    exact iff_of_false (fun h => hdouble (isDouble_of_roundedBy h)) (by
      rintro (hle | ⟨-, h⟩)
      · exact hlarge hle
      · exact hdouble h)

/-! ## Tens -/

theorem roundedBy_float {x y : Float} (hy : floatOfInt n = .ok y) :
    roundedBy n (.float x) = (do
      let k ← floorOf (y * x + 0.5)
      whole (← compute .div (.int k) (.float x))) := by
  have hproduct : compute .mul (.int n) (.float x) = .ok (.float (y * x)) := by
    unfold compute Number.compute Number.toFloat
    simp only [hy]
    rfl
  unfold roundedBy
  rw [hproduct]
  rfl

theorem compute_div_float {x z : Float} (hz : floatOfInt M = .ok z) :
    compute .div (.int M) (.float x) =
      if x == 0 then .error (Number.zeroDivision "float division by zero") else .ok (.float (z / x)) := by
  unfold compute Number.compute Number.toFloat
  simp only [hz]
  show (do return real (← Number.computeFloats .div z x)) = _
  simp only [Number.computeFloats]
  split <;> rfl

theorem beq_zero_iff_value {x : Float} (hx : (parts x).IsFinite) :
    (x == 0) = true ↔ (parts x).value = 0 := by
  obtain ⟨negative, m, e, hparts⟩ := hx
  rw [beq_zero_iff, hparts, value_eq_zero_iff]
  constructor
  · rintro ⟨_, _, hzero⟩
    cases hzero
    rfl
  · rintro rfl
    exact ⟨_, _, rfl⟩

/-- Reckoning with a scale gives the nearest multiple of the power of ten. -/
theorem roundedBy_scale {x : Float} (hx : IsScale x d) (hd : 0 < d) (hn : |n| ≤ 2 ^ 52) :
    roundedBy n (.float x) = .ok (nearestMultiple n (tenTo d)) := by
  have hxfinite : (parts x).IsFinite := isFinite_iff.mp hx.1
  obtain ⟨hxpos, hxle⟩ := hx.bounds hd
  have hn' : |(n : ℚ)| ≤ 2 ^ 52 := by exact_mod_cast hn
  obtain ⟨y, hy, hyfinite, hyvalue⟩ := floatOfInt_of_isDouble (isDouble_of_abs_le (by omega : |n| ≤ 2 ^ 53))
  -- The product and the sum stay small, so that both are doubles.
  have hsmall : |(parts y).value * (parts x).value| ≤ 2 ^ 52 := by
    rw [hyvalue, abs_mul, abs_of_pos hxpos]
    nlinarith [abs_nonneg (n : ℚ)]
  have hproduct := isDoubleOf_mul hyfinite hxfinite (inRange_of_abs_le (le_trans hsmall (by norm_num)))
  have hproduct_le : |(parts (y * x)).value| ≤ (2 ^ 52 : ℤ) :=
    hproduct.nearest.abs_le_int (by norm_num) (by exact_mod_cast hsmall)
  have hsum := isDoubleOf_add hproduct.finite half_finite.1 (by
    have hbounds := abs_le.mp hproduct_le
    push_cast at hbounds
    rw [half_finite.2]
    exact inRange_of_abs_le (abs_le.mpr ⟨by linarith, by linarith⟩))
  obtain ⟨hfloor, hmultiple, hscale⟩ :=
    floor_by_scale hx hd hn (hyvalue ▸ hproduct.nearest) (half_finite.2 ▸ hsum.nearest)
  generalize hM : ⌊(parts (y * x + 0.5)).value⌋ = M at hfloor hmultiple hscale
  have hMdouble : IsDouble M := hM ▸ isDouble_floor hsum.finite
  obtain ⟨z, hz, hzfinite, hzvalue⟩ := floatOfInt_of_isDouble hMdouble
  -- So is the quotient, since it is the multiple.
  have hquotient := isDoubleOf_div hzfinite hxfinite hxpos.ne' (by
    intro v hv
    rw [hzvalue] at hv
    rw [quotient_scaled hmultiple hscale hv]
    exact (isDouble_of_abs_le hmultiple.le).abs_lt)
  have hvalue : (parts (z / x)).value = (tenTo d * M : ℤ) :=
    quotient_scaled hmultiple hscale (hzvalue ▸ hquotient.nearest)
  have hnonzero : ¬ (x == 0) = true := fun h => hxpos.ne' ((beq_zero_iff_value hxfinite).mp h)
  rw [roundedBy_float hy, floorOf_eq hsum.finite, hM]
  simp only [bind, Except.bind, compute_div_float hz, if_neg hnonzero]
  rw [whole, truncate_of_value hquotient.finite hvalue, hfloor]

/-- A half of the places that are dropped rounds up. -/
example : (roundedBy 25 (.float (tenToNeg 1))).toOption = some 30 := by decide +kernel

/-- Nothing is divided by a scale that vanishes. -/
theorem roundedBy_vanished {x : Float} (hx : (parts x).IsFinite) (hzero : (parts x).value = 0) :
    roundedBy 0 (.float x) = .error (Number.zeroDivision "float division by zero") := by
  have hnone : IsDouble ((0 : ℤ) : ℚ) := isDouble_of_abs_le (by norm_num)
  obtain ⟨y, hy, hyfinite, hyvalue⟩ := floatOfInt_of_isDouble hnone
  have hgrid : IsOnGrid 0 := hnone.isOnGrid
  have hproduct_zero : (parts y).value * (parts x).value = 0 := by rw [hzero, mul_zero]
  have hproduct := isDoubleOf_mul hyfinite hx (hproduct_zero ▸ inRange_of_abs_le (by norm_num))
  have hproduct_value : (parts (y * x)).value = 0 := (hproduct_zero ▸ hproduct).value_eq hgrid
  have hsum_half : (parts (y * x)).value + (parts 0.5).value = ((0 : ℤ) : ℚ) + 1 / 2 := by
    rw [hproduct_value, half_finite.2, Int.cast_zero]
  have hsum := isDoubleOf_add hproduct.finite half_finite.1 (hsum_half ▸ inRange_half hnone)
  have hfloor : ⌊(parts (y * x + 0.5)).value⌋ = 0 := by
    rw [hsum_half] at hsum
    rw [hsum.value_eq (isOnGrid_half (by norm_num))]
    norm_num
  rw [roundedBy_float hy, floorOf_eq hsum.finite, hfloor]
  simp only [bind, Except.bind, compute_div_float hy, if_pos ((beq_zero_iff_value hx).mpr hzero)]

/-- For places whose power of ten is no near double there are integers that come to the wrong multiple. -/
theorem roundedBy_tenToNeg_wrong : ∀ d ∈ [5, 9, 11, 15], ∃ n : ℤ, |n| ≤ 2 ^ 52 ∧
    (roundedBy n (.float (tenToNeg d))).toOption ≠ some (nearestMultiple n (tenTo d)) := by
  intro d hd
  simp only [List.mem_cons, List.not_mem_nil, or_false] at hd
  rcases hd with rfl | rfl | rfl | rfl
  · exact ⟨50000, by decide, by decide +kernel⟩
  · exact ⟨500000000, by decide, by decide +kernel⟩
  · exact ⟨750000000000, by decide, by decide +kernel⟩
  · exact ⟨500000000000000, by decide, by decide +kernel⟩

/-! ## Calls -/

/-- Rounding an integer to a multiple of a power of ten gives the nearest multiple, in every state. -/
def RoundsExactly (limits : Limits) (room : Room) (n : ℤ) (d : Nat) : Prop :=
  ∀ s, Call.function limits room (.builtin .round) ⟨[.int n, .int (-d)], []⟩ s =
    .ok (.int (nearestMultiple n (tenTo d))) s

variable {limits : Limits} {room : Room} {factor : Number}

/-- A call reckons with the power of ten. -/
theorem call_round (limits : Limits) (room : Room) (n : ℤ)
    (hfactor : compute .pow (.int 10) (.int (-d)) = .ok factor) (s : State) :
    Call.function limits room (.builtin .round) ⟨[.int n, .int (-d)], []⟩ s =
      match roundedBy n factor with
      | .ok k => .ok (.int k) s
      | .error fault => .error fault s := by
  have hcall : Call.function limits room (.builtin .round) ⟨[.int n, .int (-d)], []⟩ =
      round (.int n) (.int (-d)) := rfl
  rw [hcall, round_int, Run.liftM_apply, hfactor]
  simp only [bind, Except.bind]
  cases roundedBy n factor <;> rfl

theorem roundsExactly_iff (hfactor : compute .pow (.int 10) (.int (-d)) = .ok factor) :
    RoundsExactly limits room n d ↔ roundedBy n factor = .ok (nearestMultiple n (tenTo d)) := by
  unfold RoundsExactly
  simp only [call_round limits room n hfactor]
  constructor
  · intro h
    have hstart := h (.initial ⟨0⟩ 0)
    cases hround : roundedBy n factor with
    | error fault =>
      rw [hround] at hstart
      cases hstart
    | ok k =>
      rw [hround] at hstart
      cases hstart
      rfl
  · intro h s
    rw [h]

/-- For which integers and places rounding is exact. The power of ten below one is reckoned by the host, so
that `scaled` and `tens` are about what it may give: any scale, and the double nearest to the power. -/
structure RoundsIntegers (limits : Limits) (room : Room) : Prop where
  units : ∀ n, RoundsExactly limits room n 0 ↔ |n| ≤ 2 ^ 52 ∨ 2 ∣ n ∧ IsDouble n
  scaled : ∀ d x n, 0 < d → compute .pow (.int 10) (.int (-(d : Nat))) = .ok (.float x) → IsScale x d →
    |n| ≤ 2 ^ 52 → RoundsExactly limits room n d
  tens : ∀ d, 0 < d → compute .pow (.int 10) (.int (-(d : Nat))) = .ok (.float (tenToNeg d)) →
    ((∀ n, |n| ≤ 2 ^ 52 → RoundsExactly limits room n d) ↔ d < 324 ∧ d ∉ [5, 9, 11, 15])

/-- Units are exact up to 52 digits, and tens for all powers of ten that have a near enough double. -/
theorem call_round_exact (limits : Limits) (room : Room) : RoundsIntegers limits room where
  units n := by
    have hfactor : compute .pow (.int 10) (.int (-(0 : Nat))) = .ok (.int 1) := rfl
    rw [roundsExactly_iff hfactor, nearestMultiple_one, roundedBy_one_iff]
  scaled d x n hd hfactor hx hn := (roundsExactly_iff hfactor).mpr (roundedBy_scale hx hd hn)
  tens d hd hfactor := by
    simp only [roundsExactly_iff hfactor]
    constructor
    · intro h
      constructor
      · -- From 324 places on the power of ten is zero, and nothing is rounded by it.
        by_contra hlarge
        obtain ⟨hfinite, hzero⟩ := tenToNeg_value_zero (Nat.le_of_not_lt hlarge)
        have hstop := h 0 (by norm_num)
        rw [roundedBy_vanished hfinite hzero] at hstop
        cases hstop
      · intro hmem
        obtain ⟨n, hn, hwrong⟩ := roundedBy_tenToNeg_wrong d hmem
        rw [h n hn] at hwrong
        exact hwrong rfl
    · rintro ⟨hlt, hne⟩ n hn
      refine roundedBy_scale ?_ hd hn
      rcases Nat.lt_or_ge d 16 with hfew | hmany
      · exact (isScale_tenToNeg_of_lt d hfew hd).mpr hne
      · exact isScale_tenToNeg_of_ge hmany hlt

/-- An odd integer of 53 digits has no room for a half and is rounded up. -/
theorem not_roundsExactly_odd :
    ¬ RoundsExactly .standard (Engine.room .standard 0) (2 ^ 52 + 1) 0 := by
  have hfactor : compute .pow (.int 10) (.int (-(0 : Nat))) = .ok (.int 1) := rfl
  rw [roundsExactly_iff hfactor, nearestMultiple_one, roundedBy_one_iff]
  rintro (hsmall | ⟨heven, -⟩)
  · norm_num at hsmall
  · omega

end Reckoning

end Scriptlet
