import Scriptlet.Proofs.Doubles.Rounding

/-
  Operations on doubles.

  The result of an operation on finite doubles is the double nearest to the exact result, as long as that
  is not too large for any double.

  What is proved:
    1. `mul_rounds`, `div_rounds`, `add_rounds` — core's model rounds products, quotients and sums.
    2. `isDoubleOf_add`, `isDoubleOf_mul`, `isDoubleOf_div` — the same for doubles, which are packed.
-/

namespace Scriptlet

namespace Binary64

open Float.Model Float.Model.UnpackedFloat

variable {x y : Float} {m m' : Nat} {e e' : Int} {q : ℚ} {s s' : Sign}

/-! ## Operations of core's model -/

theorem isNearest_zero : IsNearest 0 0 :=
  ⟨-1074, 0, ⟨le_rfl, .inl rfl, by norm_num⟩, ⟨by norm_num, fun _ => dvd_zero 2⟩, by norm_num⟩

theorem rounds_zero (s : Sign) : Rounds 0 (.zero s) := by
  refine ⟨s, 0, -1074, ⟨by decide, le_rfl, .inr rfl⟩, rfl, ?_⟩
  rw [Nat.cast_zero, zero_mul, mul_zero]
  exact isNearest_zero

/-- A double is nearest to itself. -/
theorem IsCanonical.isNearest_self (h : IsCanonical m e) : IsNearest (m * 2 ^ e) (m * 2 ^ e) := by
  have hpos := two_zpow_pos e
  have hsize : |(m : ℚ) * 2 ^ e| = m * 2 ^ e := abs_of_nonneg (by positivity)
  refine ⟨e, m, ⟨h.least, h.full.symm.imp_right fun hfull => ?_, ?_⟩, ?_, rfl⟩
  · rw [hsize]
    exact mul_le_mul_of_nonneg_right (by exact_mod_cast hfull) hpos.le
  · rw [hsize]
    exact mul_lt_mul_of_pos_right (by exact_mod_cast h.digits) hpos
  · rw [mul_div_cancel_right₀ _ hpos.ne']
    constructor <;> simp

theorem rounds_self (s : Sign) (h : IsCanonical m e) : Rounds (unit s * (m * 2 ^ e)) (ofDigits s m e) :=
  ⟨s, m, e, h, rfl, h.isNearest_self.unit_mul s⟩

theorem mul_finite (hm : 0 < m) (hm' : 0 < m') :
    UnpackedFloat.mul Format.binary64 (.finite s m e hm) (.finite s' m' e' hm') =
      roundWithAccuracy Format.binary64 (s * s') (m * m') (e + e') .exact := rfl

theorem mul_rounds (h : IsCanonical m e) (h' : IsCanonical m' e') :
    Rounds (unit s * (m * 2 ^ e) * (unit s' * (m' * 2 ^ e')))
      (UnpackedFloat.mul Format.binary64 (ofDigits s m e) (ofDigits s' m' e')) := by
  by_cases hm : m = 0
  · subst hm
    rw [Nat.cast_zero, zero_mul, mul_zero, zero_mul]
    by_cases hm' : m' = 0
    · subst hm'
      exact rounds_zero _
    · rw [ofDigits_of_ne s' hm']
      exact rounds_zero _
  by_cases hm' : m' = 0
  · subst hm'
    rw [Nat.cast_zero, zero_mul, mul_zero, mul_zero, ofDigits_of_ne s hm]
    exact rounds_zero _
  have hwide : twoTo 52 ≤ m * m' ∨ e + e' ≤ -1074 := by
    rcases h.full with hfull | hleast
    · exact .inl (Nat.le_trans hfull (Nat.le_mul_of_pos_right m (Nat.pos_of_ne_zero hm')))
    · rcases h'.full with hfull' | hleast'
      · exact .inl (Nat.le_trans hfull' (Nat.le_mul_of_pos_left m' (Nat.pos_of_ne_zero hm)))
      · omega
  have hvalue : unit s * (m * 2 ^ e) * (unit s' * (m' * 2 ^ e')) =
      unit (s * s') * (((m * m' : Nat) + 0) * 2 ^ (e + e')) := by
    rw [unit_mul, zpow_add₀ (by norm_num)]
    push_cast
    ring
  rw [hvalue, ofDigits_of_ne s hm, ofDigits_of_ne s' hm', mul_finite]
  exact roundWithAccuracy_rounds (s * s') isCutOff_exact hwide

/-- The quotient of the digits has digits enough, and what is left of it says how they are rounded. -/
theorem divCore_wide (hm : m ≠ 0) (e : Int) (hm' : m' ≠ 0) (e' : Int) :
    ∃ (k : Nat) (j : Int) (rest : Nat), rest < m' ∧ (twoTo 52 ≤ k ∨ j ≤ -1074) ∧
      divCore Format.binary64 m e m' e' = (k, j, accuracyOfFraction rest m') ∧
      ((k : ℚ) + rest / m') * 2 ^ j = m * 2 ^ e / (m' * 2 ^ e') := by
  have htarget : Format.binary64.targetExponent (totalExponent m e - totalExponent m' e') =
      max (m.log2 + e - (m'.log2 + e') - 53) (-1074) := by
    show max (((m.log2 : Int) + 1 + e - (m'.log2 + 1 + e')) - (53 : Nat)) (-1074) = _
    congr 1
    omega
  let j : Int := min (e - e') (max (m.log2 + e - (m'.log2 + e') - 53) (-1074))
  obtain ⟨i, hi⟩ : ∃ i : Nat, j + i = e - e' := Int.le.dest (min_le_left _ _)
  have hshift : (e - e' - j).toNat = i := by omega
  refine ⟨m * 2 ^ i / m', j, m * 2 ^ i % m', Nat.mod_lt _ (Nat.pos_of_ne_zero hm'), ?_, ?_, ?_⟩
  · refine or_iff_not_imp_right.mpr fun hlarge => ?_
    have hi : m'.log2 + 53 ≤ m.log2 + i := by omega
    refine (Nat.le_div_iff_mul_le (Nat.pos_of_ne_zero hm')).mpr ?_
    calc twoTo 52 * m' ≤ 2 ^ 52 * 2 ^ (m'.log2 + 1) :=
          Nat.mul_le_mul_left _ (Nat.lt_log2_self (n := m')).le
      _ = 2 ^ (m'.log2 + 53) := by rw [← Nat.pow_add]; congr 1; omega
      _ ≤ 2 ^ (m.log2 + i) := Nat.pow_le_pow_right (by decide) hi
      _ = 2 ^ m.log2 * 2 ^ i := Nat.pow_add 2 _ _
      _ ≤ m * 2 ^ i := Nat.mul_le_mul_right _ (Nat.log2_self_le hm)
  · simp only [divCore, htarget]
    show ((m <<< (e - e' - j).toNat) / m', j, _) = _
    rw [hshift, Nat.shiftLeft_eq]
  · have hquotient := quotient_add_rest (m * 2 ^ i) (Nat.pos_of_ne_zero hm')
    push_cast at hquotient
    have hexponent : (2 : ℚ) ^ e = 2 ^ i * 2 ^ j * 2 ^ e' := by
      rw [← zpow_natCast, ← zpow_add₀ (by norm_num), ← zpow_add₀ (by norm_num)]
      congr 1
      omega
    rw [hquotient, hexponent]
    field_simp [(two_zpow_pos e').ne']

theorem div_finite {k : Nat} {j : Int} {acc : Accuracy} (hm : 0 < m) (hm' : 0 < m')
    (hcore : divCore Format.binary64 m e m' e' = (k, j, acc)) :
    UnpackedFloat.div Format.binary64 (.finite s m e hm) (.finite s' m' e' hm') =
      roundWithAccuracy Format.binary64 (s / s') k j acc := by
  show (match divCore Format.binary64 m e m' e' with
    | (k, j, acc) => roundWithAccuracy Format.binary64 (s / s') k j acc) = _
  rw [hcore]

theorem div_rounds (h : IsCanonical m e) (hm' : m' ≠ 0) :
    Rounds (unit s * (m * 2 ^ e) / (unit s' * (m' * 2 ^ e')))
      (UnpackedFloat.div Format.binary64 (ofDigits s m e) (ofDigits s' m' e')) := by
  by_cases hm : m = 0
  · subst hm
    rw [Nat.cast_zero, zero_mul, mul_zero, zero_div, ofDigits_of_ne s' hm']
    exact rounds_zero _
  obtain ⟨k, j, rest, hrest, hwide, hcore, hvalue⟩ := divCore_wide hm e hm' e'
  rw [mul_div_mul_comm, ← unit_div, ← hvalue, ofDigits_of_ne s hm, ofDigits_of_ne s' hm',
    div_finite _ _ hcore]
  exact roundWithAccuracy_rounds (s / s') (isCutOff_accuracyOfFraction hrest) hwide

theorem round_rounds (s : Sign) (hm : m ≠ 0) (e : Int) :
    Rounds (unit s * (m * 2 ^ e)) (UnpackedFloat.round Format.binary64 s m e) := by
  let i : Nat := (e - max ((m.log2 : Int) + e - 52) (-1074)).toNat
  have hwide : twoTo 52 ≤ m * 2 ^ i ∨ e - i ≤ -1074 := by
    refine or_iff_not_imp_right.mpr fun hlarge => ?_
    have hi : 52 ≤ m.log2 + i := by omega
    calc twoTo 52 ≤ 2 ^ (m.log2 + i) := Nat.pow_le_pow_right (by decide) hi
      _ = 2 ^ m.log2 * 2 ^ i := Nat.pow_add 2 _ _
      _ ≤ m * 2 ^ i := Nat.mul_le_mul_right _ (Nat.log2_self_le hm)
  have hvalue : (m : ℚ) * 2 ^ e = ((m * 2 ^ i : Nat) + 0) * 2 ^ (e - i) := by
    rw [zpow_sub₀ (by norm_num), zpow_natCast]
    push_cast
    field_simp
    ring
  rw [hvalue]
  simp only [UnpackedFloat.round, decreaseExponent, targetExponent_eq, Nat.shiftLeft_eq]
  exact roundWithAccuracy_rounds s isCutOff_exact hwide

theorem normalize_rounds (n e : Int) :
    Rounds (n * 2 ^ e) (UnpackedFloat.normalize Format.binary64 n e .positive) := by
  rcases Int.lt_trichotomy n 0 with hneg | rfl | hpos
  · have hcast : (n : ℚ) = unit .negative * (-n).toNat := by
      have : ((-n).toNat : ℤ) = -n := Int.toNat_of_nonneg (by omega)
      have : (((-n).toNat : Nat) : ℚ) = -n := by exact_mod_cast this
      rw [this]
      simp [unit, Sign.apply]
    rw [UnpackedFloat.normalize, Int.compare_eq_lt.mpr hneg, hcast, mul_assoc]
    exact round_rounds .negative (by omega) e
  · rw [Int.cast_zero, zero_mul]
    exact rounds_zero _
  · have hcast : (n : ℚ) = unit .positive * n.toNat := by
      have : (n.toNat : ℤ) = n := Int.toNat_of_nonneg (by omega)
      have : ((n.toNat : Nat) : ℚ) = n := by exact_mod_cast this
      rw [this]
      simp [unit, Sign.apply]
    rw [UnpackedFloat.normalize, Int.compare_eq_gt.mpr hpos, hcast, mul_assoc]
    exact round_rounds .positive (by omega) e

/-- Digits at a lower exponent. -/
theorem decreaseExponent_value (s : Sign) (m : Nat) {j : Int} (he : j ≤ e) :
    ((s.apply (decreaseExponent m e j).1 : Int) : ℚ) * 2 ^ j = unit s * (m * 2 ^ e) := by
  obtain ⟨i, rfl⟩ := Int.le.dest he
  have hshift : (j + i - j).toNat = i := by omega
  have happly : ∀ k : Nat, ((s.apply k : Int) : ℚ) = unit s * k := by
    intro k
    cases s <;> simp [unit, Sign.apply]
  simp only [decreaseExponent, hshift, Nat.shiftLeft_eq, happly]
  rw [zpow_add₀ (by norm_num), zpow_natCast]
  push_cast
  ring

theorem add_finite (hm : 0 < m) (hm' : 0 < m') :
    UnpackedFloat.add Format.binary64 (.finite s m e hm) (.finite s' m' e' hm') =
      UnpackedFloat.normalize Format.binary64 (s.apply (decreaseExponent m e (min e e')).1 +
        s'.apply (decreaseExponent m' e' (min e e')).1) (min e e') .positive := rfl

theorem add_rounds (h : IsCanonical m e) (h' : IsCanonical m' e') :
    Rounds (unit s * (m * 2 ^ e) + unit s' * (m' * 2 ^ e'))
      (UnpackedFloat.add Format.binary64 (ofDigits s m e) (ofDigits s' m' e')) := by
  by_cases hm : m = 0
  · subst hm
    rw [Nat.cast_zero, zero_mul, mul_zero, zero_add]
    by_cases hm' : m' = 0
    · subst hm'
      rw [Nat.cast_zero, zero_mul, mul_zero]
      cases s <;> cases s' <;> exact rounds_zero _
    · have hself := rounds_self s' h'
      rw [ofDigits_of_ne s' hm'] at hself ⊢
      exact hself
  by_cases hm' : m' = 0
  · subst hm'
    rw [Nat.cast_zero, zero_mul, mul_zero, add_zero]
    have hself := rounds_self s h
    rw [ofDigits_of_ne s hm] at hself ⊢
    exact hself
  rw [ofDigits_of_ne s hm, ofDigits_of_ne s' hm', add_finite, ← decreaseExponent_value s m (min_le_left e e'),
    ← decreaseExponent_value s' m' (min_le_right e e'), ← add_mul, ← Int.cast_add]
  exact normalize_rounds _ _

/-! ## Operations on doubles -/

/-- A double that is nearest to a number. -/
structure IsDoubleOf (x : Float) (q : ℚ) : Prop where
  finite : (parts x).IsFinite
  nearest : IsNearest q (parts x).value

/-- A number that is not rounded to a power of two that no double has. -/
def InRange (q : ℚ) : Prop := ∀ v, IsNearest q v → |v| < 2 ^ (1024 : Int)

theorem InRange.exponent_le (hrange : InRange q) (hcanonical : IsCanonical m e)
    (hnearest : IsNearest q (unit s * (m * 2 ^ e))) : e ≤ 971 := by
  rcases hcanonical.full with hfull | hleast
  · have hsize : |unit s * ((m : ℚ) * 2 ^ e)| = m * 2 ^ e := by
      rw [← mul_assoc, ← signed_isMinus]
      exact abs_value _ _ _
    have hlt : (2 : ℚ) ^ 52 * 2 ^ e < 2 ^ (1024 : Int) :=
      calc (2 : ℚ) ^ 52 * 2 ^ e ≤ m * 2 ^ e :=
            mul_le_mul_of_nonneg_right (by exact_mod_cast hfull) (two_zpow_pos e).le
        _ < 2 ^ (1024 : Int) := hsize ▸ hrange _ hnearest
    rw [← zpow_natCast, ← zpow_add₀ (by norm_num), zpow_lt_zpow_iff_right₀ (by norm_num)] at hlt
    omega
  · omega

theorem isDoubleOf_of_parts (hparts : parts x = .finite (isMinus s) m e)
    (hnearest : IsNearest q (unit s * (m * 2 ^ e))) : IsDoubleOf x q := by
  refine ⟨hparts ▸ ⟨_, _, _, rfl⟩, ?_⟩
  rw [hparts]
  simpa [Parts.value, signed_isMinus, mul_assoc] using hnearest

/-- What is not too large is a double when it is packed. -/
theorem Rounds.isDoubleOf {u : UnpackedFloat} (h : Rounds q u) (hrange : InRange q) :
    IsDoubleOf (.ofModel (.pack u)) q := by
  obtain ⟨s, m, e, hcanonical, rfl, hnearest⟩ := h
  by_cases hm : m = 0
  · subst hm
    refine isDoubleOf_of_parts (parts_pack_zero s) ?_
    simpa using hnearest
  · refine isDoubleOf_of_parts ?_ hnearest
    rw [ofDigits_of_ne s hm]
    exact parts_pack _ hcanonical (hrange.exponent_le hcanonical hnearest)

/-- The digits of a finite double. -/
theorem exists_ofDigits (h : (parts x).IsFinite) :
    ∃ s m e, IsCanonical m e ∧ x.toModel.unpack = ofDigits s m e ∧
      (parts x).value = unit s * (m * 2 ^ e) := by
  obtain ⟨negative, m, e, hparts⟩ := h
  have hcanonical : IsCanonical m e :=
    ⟨(finite_bounds hparts).1, (finite_shape hparts).1, (finite_shape hparts).2⟩
  rw [parts_eq] at hparts ⊢
  cases hx : x.toModel.unpack with
  | notANumber | infinity s =>
    rw [hx] at hparts
    cases hparts
  | zero s =>
    refine ⟨s, 0, -1074, ⟨by decide, le_rfl, .inr rfl⟩, rfl, ?_⟩
    show (signed (isMinus s) 0 : ℚ) * 2 ^ (-1074 : Int) = _
    rw [signed_isMinus, mul_assoc]
  | finite s m' e' hm =>
    rw [hx] at hparts
    cases hparts
    refine ⟨s, m, e, hcanonical, ?_, ?_⟩
    · rw [ofDigits_of_ne s hm.ne']
    · show (signed (isMinus s) m : ℚ) * 2 ^ e = _
      rw [signed_isMinus, mul_assoc]

theorem isDoubleOf_add (hx : (parts x).IsFinite) (hy : (parts y).IsFinite)
    (hrange : InRange ((parts x).value + (parts y).value)) :
    IsDoubleOf (x + y) ((parts x).value + (parts y).value) := by
  obtain ⟨s, m, e, hcanonical, hunpack, hvalue⟩ := exists_ofDigits hx
  obtain ⟨s', m', e', hcanonical', hunpack', hvalue'⟩ := exists_ofDigits hy
  rw [hvalue, hvalue'] at hrange ⊢
  have hsum : x + y = .ofModel (.pack (UnpackedFloat.add Format.binary64 x.toModel.unpack y.toModel.unpack)) := rfl
  rw [hsum, hunpack, hunpack']
  exact (add_rounds hcanonical hcanonical').isDoubleOf hrange

theorem isDoubleOf_mul (hx : (parts x).IsFinite) (hy : (parts y).IsFinite)
    (hrange : InRange ((parts x).value * (parts y).value)) :
    IsDoubleOf (x * y) ((parts x).value * (parts y).value) := by
  obtain ⟨s, m, e, hcanonical, hunpack, hvalue⟩ := exists_ofDigits hx
  obtain ⟨s', m', e', hcanonical', hunpack', hvalue'⟩ := exists_ofDigits hy
  rw [hvalue, hvalue'] at hrange ⊢
  have hproduct : x * y =
      .ofModel (.pack (UnpackedFloat.mul Format.binary64 x.toModel.unpack y.toModel.unpack)) := rfl
  rw [hproduct, hunpack, hunpack']
  exact (mul_rounds hcanonical hcanonical').isDoubleOf hrange

theorem isDoubleOf_div (hx : (parts x).IsFinite) (hy : (parts y).IsFinite) (hzero : (parts y).value ≠ 0)
    (hrange : InRange ((parts x).value / (parts y).value)) :
    IsDoubleOf (x / y) ((parts x).value / (parts y).value) := by
  obtain ⟨s, m, e, hcanonical, hunpack, hvalue⟩ := exists_ofDigits hx
  obtain ⟨s', m', e', hcanonical', hunpack', hvalue'⟩ := exists_ofDigits hy
  rw [hvalue, hvalue'] at hrange ⊢
  have hm' : m' ≠ 0 := by
    rintro rfl
    rw [hvalue', Nat.cast_zero, zero_mul, mul_zero] at hzero
    exact hzero rfl
  have hquotient : x / y =
      .ofModel (.pack (UnpackedFloat.div Format.binary64 x.toModel.unpack y.toModel.unpack)) := rfl
  rw [hquotient, hunpack, hunpack']
  exact (div_rounds hcanonical hm').isDoubleOf hrange

end Binary64

end Scriptlet
