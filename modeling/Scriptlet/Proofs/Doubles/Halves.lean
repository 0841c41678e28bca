import Scriptlet.Proofs.Doubles.Nearest

/-
  Adding a half.

  An integer is rounded by adding a half to it and taking the floor. In doubles the half is lost where an
  integer has 53 digits or more, and the product with a scale is rounded before the half is added.

  What is proved:
    1. `floor_half_iff` — an integer comes back from it and a half if it is small or even.
    2. `le_of_middle_le`, `lt_of_lt_middle` — a number times a factor that is nearly one comes to the integer
       that is nearest to the number, if the number keeps off the middle above that integer.
-/

namespace Scriptlet

namespace Binary64

variable {a b q r v y : ℚ} {k : ℤ} {j : Int}

/-! ## An integer and a half -/

/-- From 52 digits on an integer and a half stand between two neighbours, and the even one is taken. -/
theorem IsNearest.half_of_wide {n : ℤ} (h : IsNearest (n + 1 / 2) v) (hfull : 2 ^ 52 ≤ |(n : ℚ) + 1 / 2|)
    (hfits : |(n : ℚ) + 1 / 2| < 2 ^ 53) : v = (n + n % 2 : ℤ) := by
  obtain ⟨e, k, hexponent, hrounded, rfl⟩ := h
  obtain rfl : e = 0 := Int.le_antisymm (hexponent.le_of_fits (by norm_num) (by simpa using hfits))
    (hexponent.ge_of_full (by simpa using hfull))
  rw [zpow_zero, div_one] at hrounded
  rw [zpow_zero, mul_one]
  have hnear := abs_le.mp (by linarith [hrounded.near] : |(n : ℚ) + 1 / 2 - k| ≤ 1 / 2)
  have hlow : n ≤ k := by exact_mod_cast (by linarith [hnear.2] : (n : ℚ) ≤ k)
  have hhigh : k ≤ n + 1 := by exact_mod_cast (by linarith [hnear.1] : (k : ℚ) ≤ n + 1)
  have heven : 2 ∣ k := by
    refine hrounded.even ?_
    rcases (by omega : k = n ∨ k = n + 1) with rfl | rfl
    · norm_num
    · push_cast
      rw [add_sub_add_left_eq_sub, abs_of_neg (by norm_num)]
      norm_num
  exact_mod_cast (by omega : k = n + n % 2)

/-- A digit too many is a zero, which the exponent can take over. -/
theorem IsOnGrid.exists_digits_lt (h : IsOnGrid y) :
    ∃ (k : ℤ) (j : Int), |k| < 2 ^ 53 ∧ -1074 ≤ j ∧ y = k * 2 ^ j := by
  obtain ⟨k, j, hk, hj, rfl⟩ := h
  by_cases hlt : |k| < 2 ^ 53
  · exact ⟨k, j, hlt, hj, rfl⟩
  · obtain ⟨c, rfl⟩ : ∃ c, k = 2 * c := by
      rcases abs_cases k with ⟨habs, -⟩ | ⟨habs, -⟩
      · exact ⟨2 ^ 52, by omega⟩
      · exact ⟨-2 ^ 52, by omega⟩
    rw [abs_mul, abs_two] at hk hlt
    refine ⟨c, j + 1, by omega, by omega, ?_⟩
    rw [two_zpow_add_one]
    push_cast
    ring

/-- Integers of more than 53 digits that are doubles are even, and a half is too little to matter. -/
theorem IsNearest.half_of_large {n : ℤ} (hn : IsOnGrid n) (hlarge : 2 ^ 53 ≤ |n|)
    (h : IsNearest (n + 1 / 2) v) : v = n ∧ 2 ∣ n := by
  obtain ⟨k, j, hk, -, hvalue⟩ := hn.exists_digits_lt
  have hlarge' : (2 : ℚ) ^ 53 ≤ |(n : ℚ)| := by exact_mod_cast hlarge
  have hk' : |(k : ℚ)| + 1 ≤ 2 ^ 53 := by exact_mod_cast hk
  have hsize : |(n : ℚ)| = |(k : ℚ)| * 2 ^ j := by rw [hvalue, abs_mul, abs_of_pos (two_zpow_pos j)]
  have hne : (n : ℚ) ≠ 0 := abs_pos.mp (lt_of_lt_of_le (by norm_num) hlarge')
  have hj : 0 < j := by
    by_contra hle
    have hone : (2 : ℚ) ^ j ≤ 1 := zpow_le_one_of_nonpos₀ (by norm_num) (by omega)
    have := mul_le_mul_of_nonneg_left hone (abs_nonneg (k : ℚ))
    linarith
  constructor
  · have hnormal : IsNormal n := by
      rw [hvalue]
      refine isNormal_of_digits ?_ hk (by omega)
      rintro rfl
      rw [Int.cast_zero, zero_mul] at hvalue
      exact hne hvalue
    have hfactor : (n : ℚ) + 1 / 2 = (1 + 1 / (2 * n)) * n := by field_simp
    have hsmall : |1 / (2 * (n : ℚ))| ≤ 1 / 2 ^ 54 := by
      rw [abs_div, abs_one, abs_mul, abs_two]
      exact one_div_le_one_div_of_le (by norm_num) (by linarith)
    have hbounds := abs_le.mp hsmall
    rw [hfactor] at h
    exact h.eq_of_nearlyOne ⟨by linarith [hbounds.1], by linarith [hbounds.2]⟩ hnormal
  · obtain ⟨z, hz⟩ := exists_digits k (by omega : 1 ≤ j)
    refine ⟨z, ?_⟩
    rw [hz, zpow_one, mul_comm] at hvalue
    exact_mod_cast hvalue

/-- An integer that is a double is what is left of it and a half after rounding, if the half counts or the
integer is even. -/
theorem floor_half_iff {n : ℤ} (hn : IsOnGrid n) (h : IsNearest (n + 1 / 2) v) :
    ⌊v⌋ = n ↔ |n| ≤ 2 ^ 52 ∨ 2 ∣ n := by
  by_cases hlarge : 2 ^ 53 ≤ |n|
  · obtain ⟨rfl, heven⟩ := IsNearest.half_of_large hn hlarge h
    exact iff_of_true (Int.floor_intCast n) (.inr heven)
  by_cases hwide : |2 * n + 1| ≤ 2 ^ 53
  · have hge : (n : ℚ) ≤ v := h.ge hn (by linarith)
    have hle : v ≤ n + 1 / 2 := h.le (isOnGrid_half hwide) le_rfl
    refine iff_of_true (Int.floor_eq_iff.mpr ⟨hge, by linarith⟩) (.inl ?_)
    have := abs_le.mp hwide
    exact abs_le.mpr ⟨by omega, by omega⟩
  · have hsize : |(n : ℚ) + 1 / 2| = (|2 * n + 1| : ℤ) / 2 := by
      rw [Int.cast_abs, ← abs_two (α := ℚ), ← abs_div]
      congr 1
      push_cast
      ring
    have hfull : 2 ^ 52 ≤ |(n : ℚ) + 1 / 2| := by
      have : (2 : ℚ) ^ 53 ≤ (|2 * n + 1| : ℤ) := by exact_mod_cast (not_le.mp hwide).le
      rw [hsize]
      linarith
    have hfits : |(n : ℚ) + 1 / 2| < 2 ^ 53 := by
      have : |2 * n + 1| < 2 ^ 54 := by
        have := abs_lt.mp (not_le.mp hlarge)
        exact abs_lt.mpr ⟨by omega, by omega⟩
      have : ((|2 * n + 1| : ℤ) : ℚ) < 2 ^ 54 := by exact_mod_cast this
      rw [hsize]
      linarith
    rw [h.half_of_wide hfull hfits, Int.floor_intCast]
    have hpower : |n| ≤ 2 ^ 52 → 2 ∣ n := by
      intro hle
      have := abs_le.mp hle
      have := lt_abs.mp (not_le.mp hwide)
      omega
    omega

/-! ## A step below the middle of two integers -/

/-- A number that is more than half a step below a double goes to what is a step below it, or beyond. -/
theorem IsNearest.le_sub_step (h : IsNearest q v) (hk : 2 ^ 52 ≤ |k|) (hlt : |k| < 2 ^ 53) (hj : -1074 ≤ j)
    (hpower : k ≠ 2 ^ 52) (hq : q < k * 2 ^ j - 2 ^ j / 2) : v ≤ k * 2 ^ j - 2 ^ j := by
  have hpos := two_zpow_pos j
  have hbelow : ((k - 1 : ℤ) : ℚ) * 2 ^ j = k * 2 ^ j - 2 ^ j := by
    push_cast
    ring
  have hbounds := abs_lt.mp hlt
  rcases le_or_gt q (k * 2 ^ j - 2 ^ j) with hle | hgt
  · refine h.le ⟨k - 1, j, ?_, hj, hbelow.symm⟩ hle
    exact abs_le.mpr ⟨by omega, by omega⟩
  · rw [← hbelow]
    have hlow : (-2 ^ 53 + 1 : ℚ) ≤ k := by exact_mod_cast hbounds.1
    have hhigh : (k : ℚ) + 1 ≤ 2 ^ 53 := by exact_mod_cast hbounds.2
    refine (h.eq_of_digits hj ?_ (abs_lt.mpr ⟨by nlinarith, by nlinarith⟩) ?_).le
    · rcases le_total 0 k with hnonneg | hneg
      · rw [abs_of_nonneg hnonneg] at hk
        have hk : (2 : ℚ) ^ 52 + 1 ≤ k := by exact_mod_cast (by omega : (2 : ℤ) ^ 52 + 1 ≤ k)
        exact le_trans (by nlinarith) (le_abs_self q)
      · rw [abs_of_nonpos hneg] at hk
        have hk : (2 : ℚ) ^ 52 ≤ -k := by exact_mod_cast hk
        exact le_trans (by nlinarith) (neg_le_abs q)
    · rw [hbelow, abs_of_pos (by linarith)]
      linarith

/-- The middle of two integers is no power of two, unless it is the middle of zero and one. -/
theorem middle_ne_power {M : ℤ} (hM : M ≠ 0) (hw : (M : ℚ) + 1 / 2 = k * 2 ^ j) : k ≠ 2 ^ 52 := by
  rintro rfl
  have hodd : ((2 * M + 1 : ℤ) : ℚ) = 2 ^ (53 + j) := by
    rw [zpow_add₀ (by norm_num)]
    push_cast at hw ⊢
    linarith
  rcases Int.lt_or_le 0 (53 + j) with hpos | hnonpos
  · obtain ⟨i, hi⟩ : ∃ i : Nat, 53 + j = i + 1 := ⟨(52 + j).toNat, by omega⟩
    rw [hi, two_zpow_add_one, zpow_natCast] at hodd
    have : 2 * M + 1 = 2 * 2 ^ i := by exact_mod_cast hodd
    omega
  · have hone : (2 : ℚ) ^ (53 + j) ≤ 1 := zpow_le_one_of_nonpos₀ (by norm_num) hnonpos
    have hpos := two_zpow_pos (53 + j)
    rw [← hodd] at hone hpos
    have : 2 * M + 1 ≤ 1 := by exact_mod_cast hone
    have : 0 < 2 * M + 1 := by exact_mod_cast hpos
    omega

/-- Of odd digits that fit the next even ones fit. -/
theorem digits_next {M : ℤ} {i : Nat} (h : |(2 * M + 1) * 2 ^ i| < 2 ^ 53) :
    |(2 * M + 2) * 2 ^ i - 1| ≤ 2 ^ 53 := by
  have hone : (1 : ℤ) ≤ 2 ^ i := one_le_pow₀ (by norm_num)
  have hbounds := abs_lt.mp h
  rcases Int.lt_or_le M 0 with hneg | hnonneg
  · exact abs_le.mpr ⟨by nlinarith, by nlinarith⟩
  · have hi : i < 53 := by
      have hlt : (2 : ℤ) ^ i < 2 ^ 53 := by nlinarith
      exact (pow_lt_pow_iff_right₀ (by norm_num)).mp hlt
    have hsplit : (2 : ℤ) ^ 53 = 2 ^ (53 - i) * 2 ^ i := by rw [← pow_add, Nat.sub_add_cancel hi.le]
    have hlt : 2 * M + 1 < 2 ^ (53 - i) := by
      rw [hsplit] at hbounds
      exact lt_of_mul_lt_mul_right hbounds.2 (by positivity)
    have hle := mul_le_mul_of_nonneg_right (Int.add_one_le_of_lt hlt) (by positivity : (0 : ℤ) ≤ 2 ^ i)
    rw [← hsplit] at hle
    exact abs_le.mpr ⟨by nlinarith, by linarith⟩

/-- A half more than a step below the middle of two integers does not reach the greater one. -/
theorem IsNearest.lt_of_le_sub_step {M : ℤ} (h : IsNearest (a + 1 / 2) b) (hw : (M : ℚ) + 1 / 2 = k * 2 ^ j)
    (hlt : |k| < 2 ^ 53) (hj : -1074 ≤ j) (hj' : j < 0) (ha : a ≤ M + 1 / 2 - 2 ^ j) : b < M + 1 := by
  have hpos := two_zpow_pos j
  obtain ⟨i, rfl⟩ : ∃ i : Nat, j = -1 - i := ⟨(-1 - j).toNat, by omega⟩
  have hscale : (2 : ℚ) ^ (-1 - (i : Int)) * (2 * 2 ^ i) = 1 := by
    rw [zpow_sub₀ (by norm_num), zpow_natCast, zpow_neg_one]
    field_simp
  have hk : k = (2 * M + 1) * 2 ^ i := by
    have hk : (k : ℚ) = (2 * M + 1) * 2 ^ i :=
      calc (k : ℚ) = k * (2 ^ (-1 - (i : Int)) * (2 * 2 ^ i)) := by rw [hscale, mul_one]
        _ = (M + 1 / 2) * (2 * 2 ^ i) := by rw [hw]; ring
        _ = (2 * M + 1) * 2 ^ i := by ring
    exact_mod_cast hk
  have hgrid : IsOnGrid (M + 1 - 2 ^ (-1 - (i : Int))) := by
    refine ⟨(2 * M + 2) * 2 ^ i - 1, -1 - i, ?_, hj, ?_⟩
    · exact digits_next (hk ▸ hlt)
    · calc (M : ℚ) + 1 - 2 ^ (-1 - (i : Int))
          = (M + 1) * (2 ^ (-1 - (i : Int)) * (2 * 2 ^ i)) - 2 ^ (-1 - (i : Int)) := by rw [hscale, mul_one]
        _ = _ := by push_cast; ring
  have hle := h.le hgrid (by linarith)
  linarith

/-! ## A multiple of a scale and a half -/

theorem isNormal_half {M : ℤ} (hM : |2 * M + 1| < 2 ^ 53) : IsNormal (M + 1 / 2) := by
  have hvalue : (M : ℚ) + 1 / 2 = ((2 * M + 1 : ℤ) : ℚ) * 2 ^ (-1 : Int) := by
    push_cast
    rw [zpow_neg_one]
    ring
  rw [hvalue]
  exact isNormal_of_digits (by omega) hM (by norm_num)

/-- What is at least the middle below an integer comes to that integer. -/
theorem le_of_middle_le {x : ℚ} {M : ℤ} (hM : |2 * (M - 1) + 1| < 2 ^ 53) (hr : NearlyOne r)
    (hx : ((M - 1 : ℤ) : ℚ) + 1 / 2 ≤ x) (ha : IsNearest (r * x) a) (hb : IsNearest (a + 1 / 2) b) : M ≤ b := by
  have hnormal := isNormal_half hM
  generalize hy : ((M - 1 : ℤ) : ℚ) + 1 / 2 = y at hx hnormal
  have hne : y ≠ 0 := by
    rintro rfl
    have : ((2 * (M - 1) + 1 : ℤ) : ℚ) = 0 := by
      push_cast at hy ⊢
      linarith
    have : 2 * (M - 1) + 1 = 0 := by exact_mod_cast this
    omega
  have hya : y ≤ a := by
    rcases le_or_gt y (r * x) with hle | hgt
    · exact ha.ge hnormal.isOnGrid hle
    · -- The factor brings the number below the middle, but not further than to where it is the nearest one.
      have hratio : r * x = r * x / y * y := by rw [div_mul_cancel₀ _ hne]
      have hpos : 0 < r := lt_of_lt_of_le (by norm_num) hr.1
      rw [hratio] at ha
      refine (ha.eq_of_nearlyOne ?_ hnormal).ge
      rcases lt_or_gt_of_ne hne with hneg | hposy
      · refine ⟨?_, ?_⟩
        · rw [le_div_iff_of_neg hneg]
          nlinarith
        · rw [← mul_div_assoc, div_le_one_of_neg hneg]
          nlinarith [hr.2]
      · refine ⟨?_, ?_⟩
        · rw [le_div_iff₀ hposy]
          nlinarith [hr.1]
        · rw [← mul_div_assoc, div_le_one hposy]
          nlinarith
  have hM : |M| ≤ 2 ^ 53 := by
    have := abs_lt.mp hM
    exact abs_le.mpr ⟨by omega, by omega⟩
  refine hb.ge (isOnGrid_int hM) ?_
  push_cast at hy
  linarith

/-- A factor that is nearly one adds little. -/
theorem NearlyOne.mul_le {x : ℚ} (hr : NearlyOne r) : r * x ≤ x + |x| / (2 ^ 54 - 1) := by
  rcases le_total 0 x with hnonneg | hneg
  · rw [abs_of_nonneg hnonneg]
    nlinarith [mul_le_mul_of_nonneg_right hr.2 hnonneg]
  · rw [abs_of_nonpos hneg]
    nlinarith [mul_le_mul_of_nonpos_right hr.1 hneg]

/-- What is clearly less than the middle above an integer does not come to the next one. -/
theorem lt_of_lt_middle {x u : ℚ} {M : ℤ} (hM : |2 * M + 1| < 2 ^ 53) (hr : NearlyOne r)
    (hu : 1 / 10 ^ 15 ≤ u) (hlow : (M : ℚ) ≤ x + 1 / 2) (hx : x ≤ M + 1 / 2 - u) (hsize : |x| ≤ 2 ^ 52 * u)
    (ha : IsNearest (r * x) a) (hb : IsNearest (a + 1 / 2) b) : b < M + 1 := by
  have hfactor := hr.mul_le (x := x)
  by_cases hzero : M = 0
  · subst hzero
    rw [Int.cast_zero] at hlow hx
    have habs : |x| ≤ 1 := abs_le.mpr ⟨by linarith, by linarith⟩
    have hstep : a ≤ ((2 ^ 52 - 1 : ℤ) : ℚ) * 2 ^ (-53 : Int) := by
      refine ha.le ⟨_, _, by norm_num, by norm_num, rfl⟩ ?_
      norm_num at hfactor hx hu ⊢
      linarith
    have hle : b ≤ ((2 ^ 53 - 1 : ℤ) : ℚ) * 2 ^ (-53 : Int) := by
      refine hb.le ⟨_, _, by norm_num, by norm_num, rfl⟩ ?_
      norm_num at hstep ⊢
      linarith
    norm_num at hle ⊢
    linarith
  · obtain ⟨k, j, hk, hlt, hj, hw⟩ := isNormal_half hM
    have hstep : (2 : ℚ) ^ 52 * 2 ^ j ≤ |(M : ℚ) + 1 / 2| := by
      rw [hw, abs_mul, abs_of_pos (two_zpow_pos j)]
      exact mul_le_mul_of_nonneg_right (by exact_mod_cast hk) (two_zpow_pos j).le
    have hwide : |(M : ℚ) + 1 / 2| ≤ |x| + 1 := by
      have := abs_le.mp (le_refl |x|)
      exact abs_le.mpr ⟨by linarith, by linarith⟩
    have hj' : j < 0 := by
      have hM : |((2 * M + 1 : ℤ) : ℚ)| < 2 ^ 53 := by exact_mod_cast hM
      have htwice : ((2 * M + 1 : ℤ) : ℚ) = 2 * ((M : ℚ) + 1 / 2) := by
        push_cast
        ring
      rw [htwice, abs_mul, abs_two] at hM
      exact (zpow_lt_one_iff_right₀ (by norm_num : (1 : ℚ) < 2)).mp (by linarith)
    refine hb.lt_of_le_sub_step hw hlt hj.le hj' ?_
    rw [hw]
    refine ha.le_sub_step hk hlt hj.le (middle_ne_power hzero hw) ?_
    rw [← hw]
    linarith

end Binary64

end Scriptlet
