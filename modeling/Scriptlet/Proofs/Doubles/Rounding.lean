import Scriptlet.Proofs.Doubles.Nearest

/-
  Rounding in core's model of doubles.

  Core's model keeps, beside the digits of a number, what it has to know of the part that they cut off. The
  digits are shifted to the exponent of the number, are rounded there, and are shifted once more if there
  is one too many of them.

  What is proved:
    1. `Represents.shiftRight` — a shift keeps what is known of the number.
    2. `IsCutOff.isRounded` — digits are rounded to the nearest integer, an exact half to the even one.
    3. `roundWithAccuracy_rounds` — the result of rounding has digits and an exponent that a double has, and
       is the nearest such number.
-/

namespace Scriptlet

namespace Binary64

open Float.Model Float.Model.UnpackedFloat

variable {m : Nat} {e : Int} {q v : ℚ}

/-! ## Rounding of digits -/

/-- What an accuracy says about the part of a unit that is cut off. -/
def IsCutOff : Accuracy → ℚ → Prop
  | .exact, t => t = 0
  | .inexact .lt, t => 0 < t ∧ 2 * t < 1
  | .inexact .eq, t => 2 * t = 1
  | .inexact .gt, t => 1 < 2 * t ∧ t < 1

theorem isCutOff_exact : IsCutOff .exact 0 := rfl

theorem IsCutOff.bounds {acc : Accuracy} {t : ℚ} (h : IsCutOff acc t) : 0 ≤ t ∧ t < 1 := by
  cases acc with
  | exact =>
    obtain rfl : t = 0 := h
    norm_num
  | inexact o =>
    cases o <;> simp only [IsCutOff] at h <;> constructor <;> linarith

/-- The digits of a number and what its further ones say about the rest of it. -/
def Represents (em : ExtendedMantissa) (a : ℚ) : Prop := IsCutOff em.accuracy (a - em.mantissa)

theorem represents_of_isCutOff {acc : Accuracy} {t : ℚ} (h : IsCutOff acc t) (m : Nat) :
    Represents (.ofMantissaAndAccuracy m acc) (m + t) := by
  cases acc with
  | exact => simpa [Represents, ExtendedMantissa.ofMantissaAndAccuracy, ExtendedMantissa.accuracy] using h
  | inexact o =>
    cases o <;>
      simpa [Represents, ExtendedMantissa.ofMantissaAndAccuracy, ExtendedMantissa.accuracy] using h

/-- A digit less is half the number. -/
theorem Represents.shiftRightOne {em : ExtendedMantissa} {a : ℚ} (h : Represents em a) :
    Represents em.shiftRightOne (a / 2) := by
  obtain ⟨m, roundBit, stickyBit⟩ := em
  have hdigits : ((m % 2 : Nat) : ℚ) + 2 * (m / 2 : Nat) = m := by exact_mod_cast Nat.mod_add_div m 2
  rcases Nat.mod_two_eq_zero_or_one m with hlast | hlast <;> rw [hlast] at hdigits <;>
    cases roundBit <;> cases stickyBit <;>
    simp [Represents, ExtendedMantissa.shiftRightOne, ExtendedMantissa.accuracy, IsCutOff, hlast] at h ⊢ <;>
    (try constructor) <;> push_cast at hdigits <;> linarith

theorem Represents.shiftRight {em : ExtendedMantissa} {a : ℚ} (h : Represents em a) (n : Nat) :
    Represents (em >>> n) (a / 2 ^ n) := by
  show Represents (n.repeat ExtendedMantissa.shiftRightOne em) _
  induction n with
  | zero => simpa [Nat.repeat] using h
  | succ n ih =>
    rw [pow_succ, ← div_div]
    exact ih.shiftRightOne

/-- Digits are rounded to the nearest ones by what is cut off. -/
theorem IsCutOff.isRounded {acc : Accuracy} {t : ℚ} (h : IsCutOff acc t) (m : Nat) :
    IsRounded (m + t) (acc.roundToNearestEven m : Nat) := by
  cases acc with
  | exact =>
    obtain rfl : t = 0 := h
    constructor <;> simp [Accuracy.roundToNearestEven]
  | inexact o =>
    cases o with
    | lt =>
      have hdiff : (m : ℚ) + t - ((m : Nat) : ℤ) = t := by
        push_cast
        ring
      simp only [Accuracy.roundToNearestEven]
      constructor <;> rw [hdiff, abs_of_pos h.1]
      · exact h.2.le
      · exact fun heq => absurd heq h.2.ne
    | gt =>
      have hdiff : (m : ℚ) + t - ((m + 1 : Nat) : ℤ) = -(1 - t) := by
        push_cast
        ring
      simp only [Accuracy.roundToNearestEven]
      constructor <;> rw [hdiff, abs_neg, abs_of_pos (sub_pos.mpr h.2)]
      · linarith [h.1]
      · intro heq
        linarith [h.1]
    | eq =>
      have hhalf : 2 * t = 1 := h
      have heven : (2 : ℤ) ∣ (m + m % 2 : Nat) := by omega
      refine ⟨?_, fun _ => heven⟩
      simp only [Accuracy.roundToNearestEven]
      rcases Nat.mod_two_eq_zero_or_one m with hlast | hlast <;> rw [hlast] <;> push_cast
      · rw [add_zero, add_sub_cancel_left, abs_of_pos (by linarith)]
        exact hhalf.le
      · rw [add_sub_add_left_eq_sub, abs_of_neg (by linarith)]
        linarith

theorem Represents.isRounded {em : ExtendedMantissa} {a : ℚ} (h : Represents em a) :
    IsRounded a (em.roundedMantissa : Nat) := by
  have hrounded := IsCutOff.isRounded h em.mantissa
  rwa [add_sub_cancel] at hrounded

/-- The digits of a quotient and what is left of it. -/
theorem quotient_add_rest (num : Nat) {den : Nat} (hden : 0 < den) :
    ((num / den : Nat) : ℚ) + ((num % den : Nat) : ℚ) / den = num / den := by
  have hne : (den : ℚ) ≠ 0 := by exact_mod_cast hden.ne'
  have hsum : ((num % den : Nat) : ℚ) + den * (num / den : Nat) = num := by
    exact_mod_cast Nat.mod_add_div num den
  field_simp
  linarith

/-- What is left of a quotient, as a part of its divisor. -/
theorem isCutOff_accuracyOfFraction {rest den : Nat} (h : rest < den) :
    IsCutOff (accuracyOfFraction rest den) (rest / den) := by
  have hpos : (0 : ℚ) < den := by exact_mod_cast Nat.zero_lt_of_lt h
  have htwice : (2 : ℚ) * (rest / den) = (2 * rest : Nat) / den := by
    push_cast
    ring
  unfold accuracyOfFraction
  by_cases hzero : rest = 0
  · rw [if_pos hzero, hzero]
    simp [IsCutOff]
  · have hrest : (0 : ℚ) < rest := by exact_mod_cast Nat.pos_of_ne_zero hzero
    rw [if_neg hzero]
    rcases Nat.lt_trichotomy (2 * rest) den with hlt | heq | hgt
    · rw [Nat.compare_eq_lt.mpr hlt]
      refine ⟨div_pos hrest hpos, ?_⟩
      rw [htwice, div_lt_one hpos]
      exact_mod_cast hlt
    · rw [Nat.compare_eq_eq.mpr heq]
      show 2 * ((rest : ℚ) / den) = 1
      rw [htwice, heq, div_self hpos.ne']
    · rw [Nat.compare_eq_gt.mpr hgt]
      refine ⟨?_, (div_lt_one hpos).mpr (by exact_mod_cast h)⟩
      rw [htwice, one_lt_div hpos]
      exact_mod_cast hgt

/-! ## Rounding to digits that doubles have -/

theorem targetExponent_eq (m : Nat) (e : Int) :
    Format.binary64.targetExponent (totalExponent m e) = max (m.log2 + e - 52) (-1074) := by
  show max ((m.log2 : Int) + 1 + e - (53 : Nat)) (-1074) = _
  congr 1
  omega

/-- The exponent that core's model aims at is that of the number. -/
theorem isExponent_target {t : ℚ} (ht : 0 ≤ t ∧ t < 1) (hwide : twoTo 52 ≤ m ∨ e ≤ -1074) :
    IsExponent ((m + t) * 2 ^ e) (max (m.log2 + e - 52) (-1074)) := by
  have hpos := two_zpow_pos e
  have hsize : |((m : ℚ) + t) * 2 ^ e| = (m + t) * 2 ^ e := by
    have := ht.1
    exact abs_of_nonneg (by positivity)
  refine ⟨le_max_right _ _, ?_, ?_⟩
  · rw [hsize, or_iff_not_imp_left]
    intro hlarge
    have htarget : max ((m.log2 : Int) + e - 52) (-1074) = m.log2 + e - 52 := by omega
    have hm : m ≠ 0 := by
      rintro rfl
      have : ¬ twoTo 52 ≤ 0 := by decide
      have : Nat.log2 0 = 0 := by decide
      omega
    have hlog : (2 : ℚ) ^ m.log2 ≤ m + t := by
      have : (2 : ℚ) ^ m.log2 ≤ m := by exact_mod_cast Nat.log2_self_le hm
      linarith [ht.1]
    rw [htarget]
    calc (2 : ℚ) ^ 52 * 2 ^ ((m.log2 : Int) + e - 52) = 2 ^ m.log2 * 2 ^ e := by
          rw [zpow_sub₀ (by norm_num), zpow_add₀ (by norm_num), zpow_natCast]
          norm_num
          ring
      _ ≤ (m + t) * 2 ^ e := mul_le_mul_of_nonneg_right hlog hpos.le
  · have hlog : (m : ℚ) + t < 2 ^ (m.log2 + 1) := by
      have : (m : ℚ) + 1 ≤ 2 ^ (m.log2 + 1) := by exact_mod_cast Nat.lt_log2_self (n := m)
      linarith [ht.2]
    rw [hsize]
    calc ((m : ℚ) + t) * 2 ^ e < 2 ^ (m.log2 + 1) * 2 ^ e := mul_lt_mul_of_pos_right hlog hpos
      _ = 2 ^ 53 * 2 ^ ((m.log2 : Int) + e - 52) := by
          rw [zpow_sub₀ (by norm_num), zpow_add₀ (by norm_num), zpow_natCast, pow_succ]
          norm_num
          ring
      _ ≤ 2 ^ 53 * 2 ^ max ((m.log2 : Int) + e - 52) (-1074) :=
          mul_le_mul_of_nonneg_left (zpow_le_zpow_right₀ (by norm_num) (le_max_left _ _)) (by norm_num)

/-- Digits that are shifted to the exponent of their number are rounded there. -/
theorem shiftToTargetExponent_isRounded {acc : Accuracy} {t : ℚ} (hcut : IsCutOff acc t)
    (hwide : twoTo 52 ≤ m ∨ e ≤ -1074) :
    (shiftToTargetExponent Format.binary64 m e acc).2 = max (m.log2 + e - 52) (-1074) ∧
      IsRounded ((m + t) * 2 ^ e / 2 ^ max ((m.log2 : Int) + e - 52) (-1074))
        ((shiftToTargetExponent Format.binary64 m e acc).1.roundedMantissa : Nat) := by
  have hle : e ≤ max ((m.log2 : Int) + e - 52) (-1074) := by
    rcases hwide with hwide | hleast
    · have hlog : 52 ≤ m.log2 :=
        (Nat.le_log2 (Nat.pos_iff_ne_zero.mp (Nat.lt_of_lt_of_le (by decide) hwide))).mpr hwide
      omega
    · omega
  obtain ⟨n, hn⟩ := Int.le.dest hle
  have hamount : (max ((m.log2 : Int) + e - 52) (-1074) - e).toNat = n := by omega
  simp only [shiftToTargetExponent, shiftToExponent, targetExponent_eq, hamount]
  refine ⟨hn, ?_⟩
  have hshifted := ((represents_of_isCutOff hcut m).shiftRight n).isRounded
  have hscaled : ((m : ℚ) + t) * 2 ^ e / 2 ^ max ((m.log2 : Int) + e - 52) (-1074) = (m + t) / 2 ^ n := by
    rw [← hn, zpow_add₀ (by norm_num), zpow_natCast]
    field_simp [(two_zpow_pos e).ne']
  rwa [hscaled]

/-- Rounding up may make one digit more than fits. It is a zero, and cutting it off raises the exponent. -/
def carried (k : Nat) (e : Int) : Nat × Int := if k < twoTo 53 then (k, e) else (k / 2, e + 1)

theorem carried_of_le {k : Nat} (hk : k ≤ twoTo 53) :
    k < twoTo 53 ∧ carried k e = (k, e) ∨ k = twoTo 53 ∧ carried k e = (twoTo 52, e + 1) := by
  refine (Nat.lt_or_eq_of_le hk).imp (fun hlt => ⟨hlt, if_pos hlt⟩) fun heq => ⟨heq, ?_⟩
  rw [carried, if_neg (by omega), heq]
  rfl

theorem carried_value {k : Nat} (hk : k ≤ twoTo 53) :
    ((carried k e).1 : ℚ) * 2 ^ (carried k e).2 = k * 2 ^ e := by
  rcases carried_of_le (e := e) hk with ⟨-, hcarried⟩ | ⟨rfl, hcarried⟩
  · rw [hcarried]
  · rw [hcarried, two_zpow_add_one]
    norm_num
    ring

theorem carried_isCanonical {k : Nat} (hk : k ≤ twoTo 53) (hleast : -1074 ≤ e)
    (hfull : twoTo 52 ≤ k ∨ e = -1074) : IsCanonical (carried k e).1 (carried k e).2 := by
  rcases carried_of_le (e := e) hk with ⟨hlt, hcarried⟩ | ⟨rfl, hcarried⟩
  · rw [hcarried]
    exact ⟨hlt, hleast, hfull⟩
  · rw [hcarried]
    exact ⟨show twoTo 52 < twoTo 53 by decide, show -1074 ≤ e + 1 by omega, .inl le_rfl⟩

/-- Core's model carries by another shift. -/
theorem shiftToTargetExponent_carried {k : Nat} (hk : k ≤ twoTo 53) (hleast : -1074 ≤ e)
    (hfull : twoTo 52 ≤ k ∨ e = -1074) :
    (shiftToTargetExponent Format.binary64 k e .exact).1.mantissa = (carried k e).1 ∧
      (shiftToTargetExponent Format.binary64 k e .exact).2 = (carried k e).2 := by
  simp only [shiftToTargetExponent, shiftToExponent, targetExponent_eq]
  rcases carried_of_le (e := e) hk with ⟨hlt, hcarried⟩ | ⟨rfl, hcarried⟩
  · have hlog : k.log2 < 53 := by
      by_cases hzero : k = 0
      · subst hzero
        decide
      · exact (Nat.log2_lt hzero).mpr hlt
    have hnone : (max ((k.log2 : Int) + e - 52) (-1074) - e).toNat = 0 := by omega
    rw [hnone, hcarried]
    exact ⟨rfl, Int.add_zero e⟩
  · have hlog : (twoTo 53).log2 = 53 := Nat.log2_two_pow
    have hone : (max (((twoTo 53).log2 : Int) + e - 52) (-1074) - e).toNat = 1 := by omega
    rw [hone, hcarried]
    exact ⟨rfl, rfl⟩

/-- The digits of a rounded number are no more than fit, and as many unless the exponent is the least one. -/
theorem IsExponent.digits_bounds {k : Nat} (h : IsExponent q e) (hk : IsRounded (q / 2 ^ e) k)
    (hq : 0 ≤ q) : k ≤ twoTo 53 ∧ (twoTo 52 ≤ k ∨ e = -1074) := by
  have hpos := two_zpow_pos e
  have hfits := h.fits
  rw [abs_of_nonneg hq] at hfits
  refine ⟨?_, h.full.symm.imp_left fun hfull => ?_⟩
  · have hle : ((k : Nat) : ℤ) ≤ ((twoTo 53 : Nat) : ℤ) := hk.le (by
      rw [div_le_iff₀ hpos]
      exact_mod_cast hfits.le)
    exact_mod_cast hle
  · rw [abs_of_nonneg hq] at hfull
    have hge : ((twoTo 52 : Nat) : ℤ) ≤ ((k : Nat) : ℤ) := hk.ge (by
      rw [le_div_iff₀ hpos]
      exact_mod_cast hfull)
    exact_mod_cast hge

/-- The number that a sign is a factor of. -/
def unit (s : Sign) : ℚ := s.apply 1

theorem unit_mul (s s' : Sign) : unit (s * s') = unit s * unit s' := by
  cases s <;> cases s' <;> decide +kernel

theorem unit_div (s s' : Sign) : unit (s / s') = unit s / unit s' := by
  cases s <;> cases s' <;> decide +kernel

theorem signed_isMinus (s : Sign) (m : Nat) : (signed (isMinus s) m : ℚ) = unit s * m := by
  cases s <;> simp [signed, isMinus, unit, Sign.apply]

theorem IsNearest.unit_mul (h : IsNearest q v) (s : Sign) : IsNearest (unit s * q) (unit s * v) := by
  cases s with
  | positive => simpa [unit, Sign.apply] using h
  | negative => simpa [unit, Sign.apply] using h.neg

/-- The double of a sign, digits and an exponent. -/
def ofDigits (s : Sign) (m : Nat) (e : Int) : UnpackedFloat :=
  if h : m = 0 then .zero s else .finite s m e (Nat.pos_of_ne_zero h)

theorem ofDigits_of_ne (s : Sign) (hm : m ≠ 0) (e : Int) :
    ofDigits s m e = .finite s m e (Nat.pos_of_ne_zero hm) := dif_neg hm

/-- A number of core's model that is nearest to another one, as it is before it is packed. -/
def Rounds (q : ℚ) (u : UnpackedFloat) : Prop :=
  ∃ s m e, IsCanonical m e ∧ u = ofDigits s m e ∧ IsNearest q (unit s * (m * 2 ^ e))

theorem roundWithAccuracy_rounds {acc : Accuracy} {t : ℚ} (s : Sign) (hcut : IsCutOff acc t)
    (hwide : twoTo 52 ≤ m ∨ e ≤ -1074) :
    Rounds (unit s * ((m + t) * 2 ^ e)) (roundWithAccuracy Format.binary64 s m e acc) := by
  have hexponent := isExponent_target hcut.bounds hwide
  obtain ⟨htarget, hrounded⟩ := shiftToTargetExponent_isRounded hcut hwide
  have hnonneg : 0 ≤ ((m : ℚ) + t) * 2 ^ e := by
    have := hcut.bounds.1
    have := two_zpow_pos e
    positivity
  obtain ⟨hdigits, hfull⟩ := hexponent.digits_bounds hrounded hnonneg
  obtain ⟨hmantissa, hshifted⟩ := shiftToTargetExponent_carried hdigits hexponent.least hfull
  refine ⟨s, _, _, carried_isCanonical hdigits hexponent.least hfull, ?_, .unit_mul ⟨_, _, hexponent, hrounded, ?_⟩ s⟩
  · rw [← hmantissa, ← hshifted, ← htarget]
    rfl
  · rw [carried_value hdigits]
    rfl

end Binary64

end Scriptlet
