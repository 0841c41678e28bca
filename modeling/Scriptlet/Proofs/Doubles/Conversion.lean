import Scriptlet.Proofs.Doubles.Operations
import Scriptlet.Value.Conversion

/-
  Doubles of quotients and of integers.

  The double of a quotient of natural numbers is put together as a number of its bits. The exponent that
  leaves 53 digits before the point is guessed by the sizes of the two numbers and is at most one too low.
  An integer is made a double, and a double an integer, without loss where the integer is a double: up to
  53 digits all integers are, and the integer part of a double is one.

  What is proved:
    1. `ratioScale_isExponent` — the exponent is that of the quotient.
    2. `isDoubleOf_ofRatio` — the double is the one nearest to the quotient.
    3. `floatOfInt_of_isDouble` — the double of an integer that is one has its value.
    4. `isDouble_floor`, `floorOf_eq` — the integer part of a double is a double.
    5. `truncate_of_value` — an integer comes back from its double.
-/

namespace Scriptlet

namespace Binary64

open Float.Model Float.Model.UnpackedFloat

variable {x : Float} {negative : Bool} {m : Nat} {e : Int} {s : Sign} {q : ℚ} {n : ℤ}

/-! ## Digits of quotients -/

/-- A quotient of natural numbers is rounded to the nearest one. -/
theorem isRounded_roundDiv (num : Nat) {den : Nat} (hden : 0 < den) :
    IsRounded (num / den) (roundDiv num den : Nat) := by
  have hcut := (isCutOff_accuracyOfFraction (Nat.mod_lt num hden)).isRounded (num / den)
  have hdigits : (accuracyOfFraction (num % den) den).roundToNearestEven (num / den) = roundDiv num den := by
    unfold accuracyOfFraction roundDiv
    by_cases hzero : num % den = 0
    · rw [if_pos hzero, hzero, if_pos (by omega)]
      rfl
    · rw [if_neg hzero]
      rcases Nat.lt_trichotomy (2 * (num % den)) den with hlt | heq | hgt
      · rw [Nat.compare_eq_lt.mpr hlt, if_pos hlt]
        rfl
      · rw [Nat.compare_eq_eq.mpr heq, if_neg (by omega), if_pos heq]
        rfl
      · rw [Nat.compare_eq_gt.mpr hgt, if_neg (by omega), if_neg (by omega)]
        rfl
  rwa [quotient_add_rest num hden, hdigits] at hcut

theorem scaled_ite {α : Type} (f : Nat → Nat → α) (num : Nat) {den : Nat} (hden : 0 < den) (j : Int) :
    ∃ num' den' : Nat, 0 < den' ∧ (num' : ℚ) / den' = num / den / 2 ^ j ∧
      (if j ≥ 0 then f num (den * twoTo j.toNat) else f (num * twoTo (-j).toNat) den) = f num' den' := by
  by_cases hj : j ≥ 0
  · refine ⟨num, den * twoTo j.toNat, Nat.mul_pos hden (Nat.pow_pos (by decide)), ?_, if_pos hj⟩
    rw [two_zpow_toNat hj, div_div]
    push_cast
    rfl
  · refine ⟨num * twoTo (-j).toNat, den, hden, ?_, if_neg hj⟩
    rw [two_zpow_neg_toNat (by omega)]
    push_cast
    field_simp

/-- The exponent that a quotient of natural numbers is rounded at. -/
def ratioScale (num den : Nat) : Int :=
  let scale : Int := (num.log2 : Int) - den.log2 - 53
  let wide := if scale ≥ 0 then num / (den * twoTo scale.toNat) else num * twoTo (-scale).toNat / den
  let scale := if wide ≥ twoTo 53 then scale + 1 else scale
  if scale < -1074 then -1074 else scale

/-- The digits of a quotient of natural numbers at an exponent. -/
def ratioDigits (num den : Nat) (scale : Int) : Nat :=
  if scale ≥ 0 then roundDiv num (den * twoTo scale.toNat) else roundDiv (num * twoTo (-scale).toNat) den

/-! ## Bits of quotients -/

/-- In the bits the digit that is too many is one of the exponent already. -/
theorem bits_carried {k : Nat} (negative : Bool) (hk : k ≤ twoTo 53) (hleast : -1074 ≤ e)
    (hfull : twoTo 52 ≤ k ∨ e = -1074) :
    (Parts.finite negative (carried k e).1 (carried k e).2).bits =
      (if negative then twoTo 63 else 0) + ((e + 1074).toNat * twoTo 52 + k) := by
  have hsign : negative.toNat * twoTo 63 = if negative then twoTo 63 else 0 := by
    cases negative <;> rfl
  rcases carried_of_le (e := e) hk with ⟨hlt, hcarried⟩ | ⟨rfl, hcarried⟩
  · simp only [hcarried, Parts.bits, hsign]
    by_cases hsmall : k < twoTo 52
    · obtain rfl : e = -1074 := by omega
      rw [if_pos hsmall]
      norm_num
    · rw [if_neg hsmall, (by omega : (e + 1075).toNat = (e + 1074).toNat + 1), Nat.add_one_mul]
      omega
  · simp only [hcarried, Parts.bits, hsign]
    rw [if_neg (Nat.lt_irrefl _), (by omega : (e + 1 + 1075).toNat = (e + 1074).toNat + 2), Nat.add_mul,
      Nat.sub_self, Nat.add_zero, (by decide : 2 * twoTo 52 = twoTo 53)]

/-- The bits of the exponent and the digits, which carry into the exponent. -/
def ratioBits (num den : Nat) : Nat :=
  (ratioScale num den + 1074).toNat * twoTo 52 + ratioDigits num den (ratioScale num den)

theorem ofRatio_eq (negative : Bool) (num den : Nat) (hnum : num ≠ 0) :
    ofRatio negative num den = .ofBits (.ofNat ((if negative then twoTo 63 else 0) +
      if ratioBits num den ≥ 2047 * twoTo 52 then 2047 * twoTo 52 else ratioBits num den)) := by
  unfold ofRatio
  rw [if_neg hnum]
  rfl

/-- The bits of a finite number make a double that has its digits and its exponent. -/
theorem parts_ofBits {bits : Nat} (hcanonical : IsCanonical m e) (he : e ≤ 971)
    (hbits : (Parts.finite negative m e).bits = (if negative then twoTo 63 else 0) + bits) :
    bits < 2047 * twoTo 52 ∧
      parts (.ofBits (.ofNat ((if negative then twoTo 63 else 0) + bits))) = .finite negative m e := by
  have h11 : twoTo 11 = 2048 := by decide
  have h52 : twoTo 52 = 4503599627370496 := by decide
  have h53 : twoTo 53 = 9007199254740992 := by decide
  have h63 : twoTo 63 = 9223372036854775808 := by decide
  have hdigits := hcanonical.digits
  have hsign : negative.toNat * twoTo 63 = if negative then twoTo 63 else 0 := by
    cases negative <;> rfl
  have hsmall : bits < 2047 * twoTo 52 := by
    simp only [Parts.bits, hsign] at hbits
    by_cases hfew : m < twoTo 52
    · rw [if_pos hfew] at hbits
      omega
    · rw [if_neg hfew, h52] at hbits
      omega
  have hnumber : (UInt64.ofNat ((if negative then twoTo 63 else 0) + bits)).toNat =
      (if negative then twoTo 63 else 0) + bits := by
    refine UInt64.toNat_ofNat_of_lt' ?_
    show _ < 18446744073709551616
    split <;> omega
  refine ⟨hsmall, parts_eq_of_bits hcanonical he ?_⟩
  rw [toBits_ofBits, hnumber, hbits]
  rw [hnumber, h11, h52]
  split <;> omega

theorem ratioDigits_isRounded (num : Nat) {den : Nat} (hden : 0 < den) (j : Int) :
    IsRounded (num / den / 2 ^ j) (ratioDigits num den j : Nat) := by
  obtain ⟨num', den', hden', hvalue, hdigits⟩ := scaled_ite roundDiv num hden j
  rw [ratioDigits, hdigits, ← hvalue]
  exact isRounded_roundDiv num' hden'

/-- The first guess of the exponent is right or one too small. -/
theorem ratio_bounds {num den : Nat} (hnum : num ≠ 0) (hden : 0 < den) :
    (2 : ℚ) ^ 52 * 2 ^ ((num.log2 : Int) - den.log2 - 53) ≤ num / den ∧
      (num : ℚ) / den < 2 ^ 54 * 2 ^ ((num.log2 : Int) - den.log2 - 53) := by
  have hpos : (0 : ℚ) < den := by exact_mod_cast hden
  have hnum_le : (2 : ℚ) ^ num.log2 ≤ num := by exact_mod_cast Nat.log2_self_le hnum
  have hnum_lt : (num : ℚ) < 2 * 2 ^ num.log2 := by
    have := Nat.lt_log2_self (n := num)
    rw [Nat.pow_succ'] at this
    exact_mod_cast this
  have hden_le : (2 : ℚ) ^ den.log2 ≤ den := by exact_mod_cast Nat.log2_self_le hden.ne'
  have hden_lt : (den : ℚ) < 2 * 2 ^ den.log2 := by
    have := Nat.lt_log2_self (n := den)
    rw [Nat.pow_succ'] at this
    exact_mod_cast this
  have hscale : (2 : ℚ) ^ ((num.log2 : Int) - den.log2 - 53) = 2 ^ num.log2 / 2 ^ den.log2 / 2 ^ 53 := by
    rw [zpow_sub₀ (by norm_num), zpow_sub₀ (by norm_num), zpow_natCast, zpow_natCast]
    norm_num
  have hpow : (0 : ℚ) < 2 ^ den.log2 := by positivity
  rw [hscale]
  constructor
  · rw [le_div_iff₀ hpos]
    calc (2 : ℚ) ^ 52 * (2 ^ num.log2 / 2 ^ den.log2 / 2 ^ 53) * den
        = 2 ^ num.log2 * (den / (2 * 2 ^ den.log2)) := by field_simp
      _ ≤ 2 ^ num.log2 * 1 :=
          mul_le_mul_of_nonneg_left ((div_le_one (by positivity)).mpr hden_lt.le) (by positivity)
      _ ≤ num := by rwa [mul_one]
  · rw [div_lt_iff₀ hpos]
    calc (num : ℚ) < 2 * 2 ^ num.log2 * 1 := by rwa [mul_one]
      _ ≤ 2 * 2 ^ num.log2 * (den / 2 ^ den.log2) :=
          mul_le_mul_of_nonneg_left ((one_le_div hpow).mpr hden_le) (by positivity)
      _ = 2 ^ 54 * (2 ^ num.log2 / 2 ^ den.log2 / 2 ^ 53) * den := by field_simp

theorem ratioScale_isExponent {num den : Nat} (hnum : num ≠ 0) (hden : 0 < den) :
    IsExponent (num / den) (ratioScale num den) := by
  obtain ⟨hlow, hhigh⟩ := ratio_bounds hnum hden
  obtain ⟨num', den', hden', hvalue, hwide⟩ :=
    scaled_ite (· / ·) num hden ((num.log2 : Int) - den.log2 - 53)
  simp only [ratioScale, hwide]
  generalize (num.log2 : Int) - den.log2 - 53 = j at hlow hhigh hvalue
  have hpos := two_zpow_pos j
  have hsize : |(num : ℚ) / den| = num / den := abs_of_nonneg (by positivity)
  have hcount : num' / den' ≥ twoTo 53 ↔ 2 ^ 53 * 2 ^ j ≤ (num : ℚ) / den := by
    have hden_pos : (0 : ℚ) < den' := by exact_mod_cast hden'
    have hcast : twoTo 53 * den' ≤ num' ↔ (2 : ℚ) ^ 53 * den' ≤ num' := by
      have : ((twoTo 53 * den' : Nat) : ℚ) = 2 ^ 53 * den' := by push_cast; norm_num
      rw [← this, Nat.cast_le]
    rw [ge_iff_le, Nat.le_div_iff_mul_le hden', hcast, ← le_div_iff₀ hden_pos, hvalue, le_div_iff₀ hpos]
  -- At this exponent the digits fit and are as many as they can be; the least exponent keeps fewer.
  obtain ⟨i, hi, hfull, hfits⟩ : ∃ i, (if num' / den' ≥ twoTo 53 then j + 1 else j) = i ∧
      2 ^ 52 * 2 ^ i ≤ (num : ℚ) / den ∧ (num : ℚ) / den < 2 ^ 53 * 2 ^ i := by
    by_cases hwide : num' / den' ≥ twoTo 53
    · refine ⟨j + 1, if_pos hwide, ?_, ?_⟩
      · rw [two_zpow_add_one]
        linarith [hcount.mp hwide]
      · rw [two_zpow_add_one]
        linarith
    · exact ⟨j, if_neg hwide, hlow, not_le.mp fun hle => hwide (hcount.mpr hle)⟩
  rw [hi]
  by_cases hleast : i < -1074
  · rw [if_pos hleast]
    refine ⟨le_rfl, .inl rfl, ?_⟩
    rw [hsize]
    exact lt_of_lt_of_le hfits (mul_le_mul_of_nonneg_left
      (zpow_le_zpow_right₀ (by norm_num) hleast.le) (by norm_num))
  · rw [if_neg hleast]
    exact ⟨Int.not_lt.mp hleast, .inr (by rwa [hsize]), by rwa [hsize]⟩

/-- The double of a quotient is nearest to it. -/
theorem isDoubleOf_ofRatio (negative : Bool) (num : Nat) {den : Nat} (hden : 0 < den)
    (hrange : InRange (signed negative num / den)) :
    IsDoubleOf (ofRatio negative num den) (signed negative num / den) := by
  by_cases hnum : num = 0
  · subst hnum
    have hzero : ofRatio negative 0 den = .ofBits (.ofNat (if negative then twoTo 63 else 0)) := by
      unfold ofRatio
      rw [if_pos rfl]
    have hparts : parts (ofRatio negative 0 den) = .finite negative 0 (-1074) := by
      rw [hzero]
      cases negative <;> decide +kernel
    refine ⟨hparts ▸ ⟨_, _, _, rfl⟩, ?_⟩
    rw [hparts]
    simpa [Parts.value, signed] using isNearest_zero
  have hexponent := ratioScale_isExponent hnum hden
  have hrounded := ratioDigits_isRounded num hden (ratioScale num den)
  obtain ⟨hdigits, hfull⟩ := hexponent.digits_bounds hrounded (by positivity)
  have hcanonical := carried_isCanonical hdigits hexponent.least hfull
  have hbits : (Parts.finite negative _ _).bits = (if negative then twoTo 63 else 0) + ratioBits num den :=
    bits_carried negative hdigits hexponent.least hfull
  have hnearest : IsNearest (num / den) ((carried _ _).1 * 2 ^ (carried _ _).2) :=
    ⟨_, _, hexponent, hrounded, carried_value hdigits⟩
  generalize (carried _ _).1 = m, (carried _ _).2 = e at hcanonical hbits hnearest
  obtain ⟨s, rfl⟩ : ∃ s, isMinus s = negative := by
    cases negative
    · exact ⟨.positive, rfl⟩
    · exact ⟨.negative, rfl⟩
  rw [signed_isMinus, mul_div_assoc] at hrange ⊢
  obtain ⟨hsmall, hparts⟩ := parts_ofBits hcanonical (hrange.exponent_le hcanonical (hnearest.unit_mul s)) hbits
  rw [ofRatio_eq _ num den hnum, if_neg (Nat.not_le.mpr hsmall)]
  exact isDoubleOf_of_parts hparts (hnearest.unit_mul s)

/-! ## Integers -/

/-- The value of some double. -/
def IsDouble (q : ℚ) : Prop := ∃ x, (parts x).IsFinite ∧ (parts x).value = q

theorem isOnGrid_value (h : (parts x).IsFinite) : IsOnGrid (parts x).value := by
  obtain ⟨negative, m, e, hparts⟩ := h
  rw [hparts]
  refine ⟨signed negative m, e, ?_, (finite_shape hparts).1, rfl⟩
  have hdigits := (finite_bounds hparts).1
  rw [Int.abs_eq_natAbs, signed, natAbs_signed]
  exact_mod_cast hdigits.le

theorem abs_value_lt (h : (parts x).IsFinite) : |(parts x).value| < 2 ^ (1024 : Int) := by
  obtain ⟨negative, m, e, hparts⟩ := h
  obtain ⟨hdigits, hexponent⟩ := finite_bounds hparts
  rw [hparts, abs_value]
  have hdigits : (m : ℚ) < 2 ^ (53 : Int) := by
    have : (m : ℚ) < ((twoTo 53 : Nat) : ℚ) := by exact_mod_cast hdigits
    exact lt_of_lt_of_eq this (by norm_num)
  calc (m : ℚ) * 2 ^ e < 2 ^ (53 : Int) * 2 ^ e := mul_lt_mul_of_pos_right hdigits (two_zpow_pos e)
    _ = 2 ^ (53 + e) := (zpow_add₀ (by norm_num) 53 e).symm
    _ ≤ 2 ^ (1024 : Int) := zpow_le_zpow_right₀ (by norm_num) (by omega)

theorem IsDouble.isOnGrid (h : IsDouble q) : IsOnGrid q := by
  obtain ⟨x, hx, rfl⟩ := h
  exact isOnGrid_value hx

theorem IsDouble.abs_lt (h : IsDouble q) : |q| < 2 ^ (1024 : Int) := by
  obtain ⟨x, hx, rfl⟩ := h
  exact abs_value_lt hx

theorem IsDouble.inRange (h : IsDouble q) : InRange q := by
  intro v hv
  rw [hv.eq_self h.isOnGrid]
  exact h.abs_lt

/-- Rounding stays within the bounds of an integer that is a double. -/
theorem IsNearest.abs_le_int {v : ℚ} {z : ℤ} (h : IsNearest q v) (hz : |z| ≤ 2 ^ 53) (hq : |q| ≤ z) : |v| ≤ z := by
  have hbounds := abs_le.mp hq
  exact abs_le.mpr ⟨h.ge (isOnGrid_int hz).neg hbounds.1, h.le (isOnGrid_int hz) hbounds.2⟩

theorem inRange_of_abs_le (h : |q| ≤ 2 ^ 53) : InRange q := by
  intro v hv
  calc |v| ≤ (2 ^ 53 : ℤ) := hv.abs_le_int (by norm_num) (by exact_mod_cast h)
    _ = 2 ^ (53 : Int) := by norm_num
    _ < 2 ^ (1024 : Int) := zpow_lt_zpow_right₀ (by norm_num) (by norm_num)

theorem IsDoubleOf.value_eq (h : IsDoubleOf x q) (hq : IsOnGrid q) : (parts x).value = q :=
  h.nearest.eq_self hq

/-- The double of an integer. -/
theorem isDoubleOf_ofInt (hrange : InRange n) : IsDoubleOf (ofRatio (n < 0) n.natAbs 1) n := by
  have hsigned : (signed (n < 0) n.natAbs : ℚ) / (1 : Nat) = n := by
    rw [Nat.cast_one, div_one]
    have hinteger : signed (n < 0) n.natAbs = n := by
      rcases Int.lt_or_le n 0 with hneg | hnonneg
      · rw [signed, if_pos (decide_eq_true hneg)]
        omega
      · rw [signed, if_neg (by simpa using hnonneg)]
        omega
    exact_mod_cast hinteger
  have hdouble := isDoubleOf_ofRatio (n < 0) n.natAbs Nat.one_pos
  rw [hsigned] at hdouble
  exact hdouble hrange

theorem isDouble_of_abs_le (h : |n| ≤ 2 ^ 53) : IsDouble n := by
  have hdouble := isDoubleOf_ofInt (inRange_of_abs_le (by exact_mod_cast h))
  exact ⟨_, hdouble.finite, hdouble.value_eq (isOnGrid_int h)⟩

theorem neg_finite (hx : (parts x).IsFinite) :
    (parts (-x)).IsFinite ∧ (parts (-x)).value = -(parts x).value := by
  obtain ⟨s, m, e, hcanonical, hunpack, hvalue⟩ := exists_ofDigits hx
  have hunit : unit (-s) = -unit s := by cases s <;> decide +kernel
  have hdigits : (ofDigits s m e).neg = ofDigits (-s) m e := by
    by_cases hm : m = 0
    · subst hm
      rfl
    · rw [ofDigits_of_ne s hm, ofDigits_of_ne (-s) hm]
      rfl
  have hopposite : -x = .ofModel (.pack (ofDigits (-s) m e)) := by
    rw [← hdigits, ← hunpack]
    rfl
  have hrounds := rounds_self (-s) hcanonical
  rw [hunit, neg_mul, ← hvalue] at hrounds
  have hrange : InRange (-(parts x).value) := fun v hv => by
    rw [hv.eq_self (isOnGrid_value hx).neg, abs_neg]
    exact abs_value_lt hx
  have hdouble := hrounds.isDoubleOf hrange
  rw [← hopposite] at hdouble
  exact ⟨hdouble.finite, hdouble.value_eq (isOnGrid_value hx).neg⟩

/-! ## Integer parts -/

theorem isFinite_iff : isFinite x = true ↔ (parts x).IsFinite := by
  unfold isFinite
  cases hx : parts x with
  | finite negative m e => exact iff_of_true rfl ⟨_, _, _, rfl⟩
  | nan | infinite => exact ⟨nofun, fun h => nomatch h⟩

theorem isDouble_floor (hx : (parts x).IsFinite) : IsDouble (⌊(parts x).value⌋ : ℤ) := by
  have hfinite := hx
  obtain ⟨negative, m, e, hparts⟩ := hx
  rcases Int.lt_or_le e 0 with hneg | hnonneg
  · refine isDouble_of_abs_le ?_
    have hfloor := floorParts_eq negative m e
    rw [hparts, ← hfloor, floorParts, if_neg (by omega), Int.abs_eq_natAbs]
    have hle := Integer.natAbs_fdiv_le (if negative then -(m : Int) else m) (twoTo (-e).toNat)
    rw [natAbs_signed] at hle
    have hdigits : m < 2 ^ 53 := (finite_bounds hparts).1
    exact_mod_cast Nat.le_trans hle hdigits.le
  · have hinteger : ∃ z : ℤ, (parts x).value = z := by
      rw [hparts]
      obtain ⟨z, hz⟩ := exists_digits (signed negative m) hnonneg
      exact ⟨z, by rw [Parts.value, hz, zpow_zero, mul_one]⟩
    obtain ⟨z, hz⟩ := hinteger
    rw [hz, Int.floor_intCast, ← hz]
    exact ⟨x, hfinite, rfl⟩

end Binary64

open Binary64

variable {x : Float} {n : ℤ}

theorem floatOfInt_of_isDouble (h : IsDouble n) :
    ∃ x, floatOfInt n = .ok x ∧ (parts x).IsFinite ∧ (parts x).value = n := by
  have hdouble := isDoubleOf_ofInt h.inRange
  refine ⟨_, ?_, hdouble.finite, hdouble.value_eq h.isOnGrid⟩
  rw [floatOfInt, ofInt?]
  simp only [isFinite_iff.mpr hdouble.finite, if_pos]

theorem floorOf_eq (hx : (parts x).IsFinite) : floorOf x = .ok ⌊(parts x).value⌋ := by
  have hfloor := floor?_eq_some_iff.mpr ⟨hx, rfl⟩
  obtain ⟨negative, m, e, hparts⟩ := hx
  unfold floorOf
  rw [hparts] at hfloor ⊢
  simp only [hfloor, Option.getD_some]

theorem floorOf_ok {x : Float} {k : ℤ} (h : floorOf x = .ok k) :
    (parts x).IsFinite ∧ ⌊(parts x).value⌋ = k := by
  have hfinite : (parts x).IsFinite := by
    unfold floorOf at h
    cases hx : parts x with
    | finite negative m e => exact ⟨negative, m, e, rfl⟩
    | nan | infinite =>
      rw [hx] at h
      cases h
  rw [floorOf_eq hfinite] at h
  exact ⟨hfinite, Except.ok.inj h⟩

/-- A double that is an integer has no other integer part. -/
theorem truncate_of_value (hx : (parts x).IsFinite) (hvalue : (parts x).value = n) :
    truncate x = .ok n := by
  have htruncate : truncate? x = some n := by
    unfold truncate? ceil?
    obtain ⟨hneg, hopposite⟩ := neg_finite hx
    split
    · have hfloor := floor?_eq_some_iff.mpr ⟨hneg, rfl⟩
      rw [hfloor, hopposite, hvalue, ← Int.cast_neg, Int.floor_intCast, Option.map_some, neg_neg]
    · rw [floor?_eq_some_iff.mpr ⟨hx, rfl⟩, hvalue, Int.floor_intCast]
  obtain ⟨negative, m, e, hparts⟩ := hx
  unfold truncate
  simp only [hparts, htruncate, Option.getD_some]

end Scriptlet
