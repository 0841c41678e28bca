import Scriptlet.Proofs.Doubles.Halves
import Scriptlet.Proofs.Doubles.Conversion

/-
  Scales for rounding integers to tens.

  An integer is brought to the size of the places that are kept by a product with a double that stands for
  a power of ten below one, and brought back by a quotient. Where that double differs from the power of ten
  by less than one part in `2 ^ 54`, neither step leaves the multiple that is nearest to the integer.

  What is proved:
    1. `floor_by_scale` — the floor of the scaled integer and a half is that of the exact quotient.
    2. `quotient_scaled` — brought back it is the multiple of the power of ten.
    3. `isScale_tenToNeg_of_lt`, `isScale_tenToNeg_of_ge`, `tenToNeg_value_zero` — which of the doubles
       nearest to powers of ten are scales.
-/

namespace Scriptlet

open Binary64

namespace Reckoning

variable {n M : ℤ} {d : Nat} {F a b : ℚ}

/-! ## Multiples of powers of ten -/

/-- The multiple of `p` nearest to an integer, the greater one of two. -/
def nearestMultiple (n : ℤ) (p : Nat) : ℤ := p * ⌊(n : ℚ) / p + 1 / 2⌋

theorem nearestMultiple_one (n : ℤ) : nearestMultiple n (tenTo 0) = n := by
  have hfloor : ⌊(n : ℚ) / tenTo 0 + 1 / 2⌋ = n := by
    rw [Int.floor_eq_iff]
    norm_num
  rw [nearestMultiple, hfloor]
  exact Int.one_mul n

/-- The multiple is at most a half of `p` away, and it is the greater one where both are. -/
theorem nearestMultiple_bounds {p : Nat} (hp : 0 < p) :
    (nearestMultiple n p : ℚ) ≤ n + p / 2 ∧ (n : ℚ) - p / 2 < nearestMultiple n p := by
  have hp : (0 : ℚ) < p := by exact_mod_cast hp
  have hvalue : (p : ℚ) * ((n : ℚ) / p) = n := mul_div_cancel₀ _ hp.ne'
  have hlow := mul_le_mul_of_nonneg_left (Int.floor_le ((n : ℚ) / p + 1 / 2)) hp.le
  have hhigh := mul_lt_mul_of_pos_left (Int.lt_floor_add_one ((n : ℚ) / p + 1 / 2)) hp
  rw [mul_add, hvalue] at hlow
  rw [mul_add, mul_add, hvalue] at hhigh
  rw [nearestMultiple]
  push_cast
  exact ⟨by linarith, by linarith⟩

theorem tenTo_le {i j : Nat} (h : i ≤ j) : tenTo i ≤ tenTo j := Nat.pow_le_pow_right (by decide) h

theorem tenTo_nat_pos (d : Nat) : 0 < tenTo d := Nat.pow_pos (by decide)

theorem tenTo_pos (d : Nat) : (0 : ℚ) < tenTo d := Nat.cast_pos.mpr (tenTo_nat_pos d)

/-- Powers of ten are compared as rational numbers. -/
theorem pow_le_tenTo {i : Nat} (h : i ≤ d) : (10 : ℚ) ^ i ≤ tenTo d := by
  have hle : tenTo i ≤ tenTo d := tenTo_le h
  exact_mod_cast hle

theorem tenTo_le_pow {i : Nat} (h : d ≤ i) : (tenTo d : ℚ) ≤ 10 ^ i := by
  have hle : tenTo d ≤ tenTo i := tenTo_le h
  exact_mod_cast hle

/-- Below the middle above its nearest multiple an integer is so by a unit at least. -/
theorem le_middle_sub (hd : 0 < d) (hn : (n : ℚ) / tenTo d + 1 / 2 < M + 1) :
    (n : ℚ) / tenTo d ≤ M + 1 / 2 - 1 / tenTo d := by
  obtain ⟨i, rfl⟩ := Nat.exists_eq_add_of_lt hd
  have hhalf : tenTo (0 + i + 1) = 2 * (5 * tenTo i) := by
    show 10 ^ (0 + i + 1) = 2 * (5 * 10 ^ i)
    rw [Nat.zero_add, pow_succ]
    ring
  have hpos : (0 : ℚ) < (5 * tenTo i : Nat) := by
    exact_mod_cast Nat.mul_pos (by decide) (tenTo_nat_pos i)
  rw [hhalf, Nat.cast_mul, Nat.cast_ofNat] at hn ⊢
  generalize 5 * tenTo i = c at hn hpos ⊢
  -- The middle is an integer itself, since the power of ten is even.
  have hinteger : n + 1 ≤ c * (2 * M + 1) := by
    have hlt : (n : ℚ) < c * (2 * M + 1) := by
      have hlt := lt_sub_iff_add_lt.mpr hn
      rw [div_lt_iff₀ (by linarith)] at hlt
      linarith
    exact_mod_cast hlt
  have hinteger : (n : ℚ) + 1 ≤ c * (2 * M + 1) := by exact_mod_cast hinteger
  rw [le_sub_iff_add_le, ← add_div, div_le_iff₀ (by linarith)]
  linarith

/-! ## Scales -/

/-- A double that serves as the power of ten to the exponent `-d` for integers of 53 digits. Of 16 places and
more only zeros are left, whatever the double is exactly. -/
def IsScale (x : Float) (d : Nat) : Prop :=
  isFinite x = true ∧
    if d < 16 then NearlyOne ((parts x).value * tenTo d)
    else 0 < (parts x).value ∧ (parts x).value ≤ 15 / 2 ^ 57

instance (r : ℚ) : Decidable (NearlyOne r) := inferInstanceAs (Decidable (_ ∧ _))

instance (x : Float) (d : Nat) : Decidable (IsScale x d) := inferInstanceAs (Decidable (_ ∧ _))

/-- The value of a scale is that of a fraction. -/
theorem IsScale.bounds {x : Float} (hx : IsScale x d) (hd : 0 < d) :
    0 < (parts x).value ∧ (parts x).value ≤ 1 := by
  obtain ⟨-, hscale⟩ := hx
  split at hscale
  case isTrue =>
    have hten : (10 : ℚ) ≤ tenTo d := by simpa using pow_le_tenTo (i := 1) hd
    have hpos : 0 < (parts x).value * tenTo d := lt_of_lt_of_le (by norm_num) hscale.1
    refine ⟨pos_of_mul_pos_left hpos (tenTo_pos d).le, ?_⟩
    nlinarith [hscale.2]
  case isFalse => exact ⟨hscale.1, le_trans hscale.2 (by norm_num)⟩

/-- With a factor near enough to the power of ten the floor is that of the exact quotient. -/
theorem floor_scaled (hd : 0 < d) (hd' : d < 16) (hn : |n| ≤ 2 ^ 52) (hF : NearlyOne (F * tenTo d))
    (ha : IsNearest (n * F) a) (hb : IsNearest (a + 1 / 2) b) : ⌊b⌋ = ⌊(n : ℚ) / tenTo d + 1 / 2⌋ := by
  have hpos := tenTo_pos d
  have hten : (10 : ℚ) ≤ tenTo d := by simpa using pow_le_tenTo (i := 1) hd
  have hmost : (tenTo d : ℚ) ≤ 10 ^ 15 := tenTo_le_pow (by omega)
  have hn' : |(n : ℚ)| ≤ 2 ^ 52 := by exact_mod_cast hn
  have hproduct : (n : ℚ) * F = F * tenTo d * (n / tenTo d) := by field_simp
  have hlow := Int.floor_le ((n : ℚ) / tenTo d + 1 / 2)
  have hhigh := Int.lt_floor_add_one ((n : ℚ) / tenTo d + 1 / 2)
  generalize ⌊(n : ℚ) / tenTo d + 1 / 2⌋ = M at hlow hhigh
  have hsize : |(n : ℚ) / tenTo d| ≤ 2 ^ 52 * (1 / tenTo d) := by
    rw [abs_div, abs_of_pos hpos, mul_one_div]
    exact div_le_div_of_nonneg_right hn' hpos.le
  have hsmall : |(n : ℚ) / tenTo d| ≤ 2 ^ 50 := by
    have := one_div_le_one_div_of_le (by norm_num) hten
    linarith
  have hbounds := abs_le.mp hsmall
  have hM : -2 ^ 51 ≤ M := by exact_mod_cast (by linarith : (-2 ^ 51 : ℚ) ≤ M)
  have hM' : M ≤ 2 ^ 51 := by exact_mod_cast (by linarith : (M : ℚ) ≤ 2 ^ 51)
  rw [hproduct] at ha
  refine Int.floor_eq_iff.mpr ⟨?_, ?_⟩
  · refine le_of_middle_le ?_ hF ?_ ha hb
    · exact abs_lt.mpr ⟨by omega, by omega⟩
    · push_cast
      linarith
  · refine lt_of_lt_middle ?_ hF ?_ hlow (le_middle_sub hd hhigh) hsize ha hb
    · exact abs_lt.mpr ⟨by omega, by omega⟩
    · exact one_div_le_one_div_of_le hpos hmost

/-- Of so many places that an integer is clearly less than a half of them, nothing is left. -/
theorem floor_tiny (hn : |n| ≤ 2 ^ 52) (hpos : 0 < F) (hF : F ≤ 15 / 2 ^ 57)
    (ha : IsNearest (n * F) a) (hb : IsNearest (a + 1 / 2) b) : ⌊b⌋ = 0 := by
  have hn' : |(n : ℚ)| ≤ 2 ^ 52 := by exact_mod_cast hn
  have hproduct : |(n : ℚ) * F| ≤ 15 / 2 ^ 5 := by
    rw [abs_mul, abs_of_pos hpos]
    calc |(n : ℚ)| * F ≤ 2 ^ 52 * (15 / 2 ^ 57) := mul_le_mul hn' hF hpos.le (by norm_num)
      _ = 15 / 2 ^ 5 := by norm_num
  have hgrid : ∀ k : ℤ, |k| ≤ 2 ^ 53 → IsOnGrid (k / 2 ^ 5) := fun k hk =>
    ⟨k, -5, hk, by norm_num, by norm_num [div_eq_mul_inv]⟩
  have hbounds := abs_le.mp hproduct
  have hlow : ((-15 : ℤ) : ℚ) / 2 ^ 5 ≤ a :=
    ha.ge (hgrid (-15) (by norm_num)) (by push_cast; linarith [hbounds.1])
  have hhigh : a ≤ ((15 : ℤ) : ℚ) / 2 ^ 5 := ha.le (hgrid 15 (by norm_num)) (by push_cast; exact hbounds.2)
  have hlow' : ((1 : ℤ) : ℚ) / 2 ^ 5 ≤ b :=
    hb.ge (hgrid 1 (by norm_num)) (by push_cast at hlow ⊢; linarith)
  have hhigh' : b ≤ ((31 : ℤ) : ℚ) / 2 ^ 5 :=
    hb.le (hgrid 31 (by norm_num)) (by push_cast at hhigh ⊢; linarith)
  push_cast at hlow' hhigh'
  exact Int.floor_eq_iff.mpr ⟨by push_cast; linarith, by push_cast; linarith⟩

/-- The exact quotient leaves nothing of them either. -/
theorem floor_quotient_tiny (hd : 16 ≤ d) (hn : |n| ≤ 2 ^ 52) : ⌊(n : ℚ) / tenTo d + 1 / 2⌋ = 0 := by
  have hn' : |(n : ℚ)| ≤ 2 ^ 52 := by exact_mod_cast hn
  have hquotient : |(n : ℚ) / tenTo d| ≤ 2 ^ 52 / 10 ^ 16 := by
    rw [abs_div, abs_of_pos (tenTo_pos d)]
    exact div_le_div₀ (by norm_num) hn' (by norm_num) (pow_le_tenTo hd)
  have hbounds := abs_le.mp hquotient
  exact Int.floor_eq_iff.mpr ⟨by push_cast; linarith [hbounds.1], by push_cast; linarith [hbounds.2]⟩

/-- Of few places the nearest multiple of an integer of 53 digits has 53 digits. -/
theorem nearestMultiple_lt (hd : d < 16) (hn : |n| ≤ 2 ^ 52) : |nearestMultiple n (tenTo d)| < 2 ^ 53 := by
  have hmost : (tenTo d : ℚ) ≤ 10 ^ 15 := tenTo_le_pow (by omega)
  have hn' : |(n : ℚ)| ≤ 2 ^ 52 := by exact_mod_cast hn
  have hbounds := abs_le.mp hn'
  obtain ⟨hlow, hhigh⟩ := nearestMultiple_bounds (n := n) (tenTo_nat_pos d)
  have hlt : |((nearestMultiple n (tenTo d) : ℤ) : ℚ)| < 2 ^ 53 := abs_lt.mpr ⟨by linarith, by linarith⟩
  exact_mod_cast hlt

/-- Rounding by a scale finds the nearest multiple. -/
theorem floor_by_scale {x : Float} (hx : IsScale x d) (hd : 0 < d) (hn : |n| ≤ 2 ^ 52)
    (ha : IsNearest (n * (parts x).value) a) (hb : IsNearest (a + 1 / 2) b) :
    tenTo d * ⌊b⌋ = nearestMultiple n (tenTo d) ∧ |tenTo d * ⌊b⌋| < 2 ^ 53 ∧
      (⌊b⌋ ≠ 0 → NearlyOne ((parts x).value * tenTo d)) := by
  obtain ⟨-, hscale⟩ := hx
  split at hscale
  case isTrue hd' =>
    rw [floor_scaled hd hd' hn hscale ha hb]
    exact ⟨rfl, nearestMultiple_lt hd' hn, fun _ => hscale⟩
  case isFalse hd' =>
    rw [nearestMultiple, floor_quotient_tiny (Nat.le_of_not_lt hd') hn, floor_tiny hn hscale.1 hscale.2 ha hb]
    exact ⟨rfl, by norm_num, fun h => absurd rfl h⟩

/-- The quotient of a rounded integer by the scale is a multiple of the power of ten. -/
theorem quotient_scaled {v : ℚ} (hM : |tenTo d * M| < 2 ^ 53) (hF : M ≠ 0 → NearlyOne (F * tenTo d))
    (hv : IsNearest (M / F) v) : v = (tenTo d * M : ℤ) := by
  by_cases hzero : M = 0
  · subst hzero
    rw [Int.cast_zero, zero_div] at hv
    rw [hv.eq_self (by simpa using isOnGrid_int (k := 0) (by norm_num)), Int.mul_zero, Int.cast_zero]
  · have hratio : (M : ℚ) / F = (F * tenTo d)⁻¹ * (tenTo d * M : ℤ) := by
      have hne := (tenTo_pos d).ne'
      push_cast
      rw [mul_inv]
      field_simp
    have hne : (tenTo d : ℤ) * M ≠ 0 := mul_ne_zero (by exact_mod_cast (tenTo_nat_pos d).ne') hzero
    have hnormal : IsNormal ((tenTo d * M : ℤ) : ℚ) := by
      have := isNormal_of_digits (j := 0) hne hM (by norm_num)
      rwa [zpow_zero, mul_one] at this
    rw [hratio] at hv
    exact hv.eq_of_nearlyOne (hF hzero).inv hnormal

/-! ## Powers of ten as doubles -/

/-- The double nearest to `10 ^ -d`. -/
def tenToNeg (d : Nat) : Float := ofDecimal false 1 (-d)

/-- Of few places all but four have a power of ten that is near enough to its double. -/
theorem isScale_tenToNeg_of_lt : ∀ d < 16, 0 < d → (IsScale (tenToNeg d) d ↔ d ∉ [5, 9, 11, 15]) := by
  decide +kernel

theorem tenToNeg_eq (hd : 0 < d) :
    tenToNeg d = if 500 < d then ofRatio false 0 1 else ofRatio false 1 (tenTo d) := by
  have hlog : Nat.log2 1 = 0 := by decide
  have hsize : ((Nat.log2 1 : Nat) : Int) * 30103 / 100000 + -(d : Int) = -d := by
    rw [hlog]
    omega
  have hexponent : (- -(d : Int)).toNat = d := by omega
  unfold tenToNeg ofDecimal
  simp only [hsize, hexponent]
  rw [if_neg (by decide), if_neg (by omega)]
  split
  case isTrue hmany => rw [if_pos (by omega)]
  case isFalse hfew => rw [if_neg (by omega), if_neg (by omega)]

/-- The double of a power of ten is the nearest one. -/
theorem tenToNeg_isDoubleOf (hd : 0 < d) (hd' : d ≤ 500) : IsDoubleOf (tenToNeg d) (1 / tenTo d) := by
  have hpos := tenTo_pos d
  have hone : (1 : ℚ) ≤ tenTo d := by simpa using pow_le_tenTo (Nat.zero_le d)
  have hdouble := isDoubleOf_ofRatio false 1 (tenTo_nat_pos d)
  have hsigned : (signed false 1 : ℚ) / tenTo d = 1 / tenTo d := by norm_num [signed]
  have hratio : tenToNeg d = ofRatio false 1 (tenTo d) := (tenToNeg_eq hd).trans (if_neg (by omega))
  rw [hsigned, ← hratio] at hdouble
  refine hdouble (inRange_of_abs_le ?_)
  rw [abs_of_pos (by positivity)]
  exact le_trans ((div_le_one hpos).mpr hone) (by norm_num)

/-- The least step of doubles stands between two powers of ten. -/
theorem exists_least_step : ∃ most : Nat, (2 : ℚ) ^ (-1074 : Int) = 1 / most ∧ 0 < most ∧
    tenTo 323 ≤ most ∧ 2 * most < tenTo 324 := by
  refine ⟨twoTo 1074, ?_, by decide +kernel, by decide +kernel, by decide +kernel⟩
  have hexponent : (-(-1074 : Int)).toNat = 1074 := by decide
  rw [two_zpow_neg_toNat (by norm_num), hexponent, one_div]

/-- Of many places the double of the power of ten has only to be small and not zero. -/
theorem isScale_tenToNeg_of_ge (hd : 16 ≤ d) (hd' : d < 324) : IsScale (tenToNeg d) d := by
  have hdouble := tenToNeg_isDoubleOf (by omega : 0 < d) (by omega)
  refine ⟨isFinite_iff.mpr hdouble.finite, ?_⟩
  rw [if_neg (by omega)]
  constructor
  · have hleast : (2 : ℚ) ^ (-1074 : Int) ≤ 1 / tenTo d := by
      obtain ⟨most, hmost, -, hle, -⟩ := exists_least_step
      rw [hmost]
      exact one_div_le_one_div_of_le (tenTo_pos d) (Nat.cast_le.mpr (Nat.le_trans (tenTo_le (by omega)) hle))
    exact lt_of_lt_of_le (two_zpow_pos (-1074))
      (hdouble.nearest.ge ⟨1, -1074, by norm_num, le_rfl, by norm_num⟩ hleast)
  · refine hdouble.nearest.le ⟨15, -57, by norm_num, by norm_num, by norm_num [div_eq_mul_inv]⟩ ?_
    exact le_trans (one_div_le_one_div_of_le (by norm_num) (pow_le_tenTo hd)) (by norm_num)

/-- Of still more places nothing is left of the power of ten. -/
theorem tenToNeg_value_zero (hd : 324 ≤ d) :
    (parts (tenToNeg d)).IsFinite ∧ (parts (tenToNeg d)).value = 0 := by
  rcases Nat.lt_or_ge 500 d with hmany | hfew
  · have hparts : parts (ofRatio false 0 1) = .finite false 0 (-1074) := by decide +kernel
    rw [(tenToNeg_eq (by omega)).trans (if_pos hmany), hparts]
    exact ⟨⟨_, _, _, rfl⟩, value_eq_zero_iff.mpr rfl⟩
  · have hdouble := tenToNeg_isDoubleOf (by omega : 0 < d) hfew
    refine ⟨hdouble.finite, hdouble.nearest.eq_zero ?_⟩
    obtain ⟨most, hmost, hpos, -, hlt⟩ := exists_least_step
    have hlt : 2 * most < tenTo d := Nat.lt_of_lt_of_le hlt (tenTo_le hd)
    rw [abs_of_pos (one_div_pos.mpr (tenTo_pos d)), hmost, mul_one_div,
      div_lt_div_iff₀ (tenTo_pos d) (by exact_mod_cast hpos), one_mul]
    exact_mod_cast hlt

end Reckoning

end Scriptlet
