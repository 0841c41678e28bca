import Mathlib.Algebra.Order.Field.Power
import Mathlib.Algebra.Order.Round
import Mathlib.Data.Rat.Floor
import Mathlib.Tactic.Linarith
import Scriptlet.Proofs.Doubles.Values

/-
  The nearest double.

  A rational number is rounded on the grid that its size has: 53 binary digits are kept before the point,
  fewer where the exponent would be below the least one, and a number in the middle of two goes to the
  even one. How large the exponent may be is left open here.

  What is proved:
    1. `IsNearest.le`, `IsNearest.ge` — what is on the grid of doubles is not passed by rounding.
    2. `IsNearest.eq_of_digits` — a number less than half a step away from its neighbour goes there.
    3. `IsNearest.eq_of_nearlyOne` — a number that differs from a double by a factor of less than
       `1 + 2 ^ -54` goes to it.
-/

namespace Scriptlet

namespace Binary64

variable {a q v y r : ℚ} {k : ℤ} {e j : Int}

/-! ## Rounding on a grid -/

/-- The integer nearest to a number, the even one of two. -/
structure IsRounded (a : ℚ) (k : ℤ) : Prop where
  near : 2 * |a - k| ≤ 1
  even : 2 * |a - k| = 1 → 2 ∣ k

/-- The exponent that leaves 53 binary digits of a number before the point, or the least one. -/
structure IsExponent (q : ℚ) (e : Int) : Prop where
  least : -1074 ≤ e
  full : e = -1074 ∨ 2 ^ 52 * 2 ^ e ≤ |q|
  fits : |q| < 2 ^ 53 * 2 ^ e

/-- The double nearest to a number, if there were doubles of all sizes. -/
def IsNearest (q v : ℚ) : Prop := ∃ e k, IsExponent q e ∧ IsRounded (q / 2 ^ e) k ∧ v = k * 2 ^ e

theorem IsRounded.neg (h : IsRounded a k) : IsRounded (-a) (-k) := by
  have habs : |-a - ((-k : ℤ) : ℚ)| = |a - k| := by
    rw [← abs_neg]
    push_cast
    ring_nf
  constructor
  · rw [habs]
    exact h.near
  · rw [habs]
    exact fun hhalf => (Int.dvd_neg).mpr (h.even hhalf)

theorem IsRounded.le {z : ℤ} (h : IsRounded a k) (hz : a ≤ z) : k ≤ z := by
  have hnear := abs_le.mp (by linarith [h.near] : |a - k| ≤ 1 / 2)
  have hlt : (k : ℚ) < z + 1 := by linarith [hnear.1]
  have : k < z + 1 := by exact_mod_cast hlt
  omega

theorem IsRounded.ge {z : ℤ} (h : IsRounded a k) (hz : z ≤ a) : z ≤ k := by
  have := h.neg.le (z := -z) (by push_cast; exact neg_le_neg hz)
  omega

/-- What is less than half a step away is the nearest one. -/
theorem IsRounded.eq {z : ℤ} (h : IsRounded a k) (hz : 2 * |a - z| < 1) : k = z := by
  have hlt : |((k - z : ℤ) : ℚ)| < 1 := by
    push_cast
    calc |(k : ℚ) - z| = |(a - z) - (a - k)| := by ring_nf
      _ ≤ |a - z| + |a - k| := abs_sub _ _
      _ < 1 := by linarith [h.near]
  have hzero : |k - z| < 1 := by exact_mod_cast hlt
  exact sub_eq_zero.mp (Int.abs_lt_one_iff.mp hzero)

/-- From the middle of a step on, an even number above it is not missed. -/
theorem IsRounded.ge_of_half {z : ℤ} (h : IsRounded a k) (hz : z - 1 / 2 ≤ a) (heven : 2 ∣ z) : z ≤ k := by
  have hnear := abs_le.mp (by linarith [h.near] : |a - k| ≤ 1 / 2)
  by_contra hlt
  have hbelow : k ≤ z - 1 := by omega
  have hbelow' : (k : ℚ) ≤ z - 1 := by exact_mod_cast hbelow
  have hhalf : a - k = 1 / 2 := by linarith [hnear.2]
  have hk : (k : ℚ) = (z - 1 : ℤ) := by
    push_cast
    linarith
  have hk : k = z - 1 := by exact_mod_cast hk
  have := h.even (by rw [hhalf]; norm_num)
  omega

theorem IsNearest.neg (h : IsNearest q v) : IsNearest (-q) (-v) := by
  obtain ⟨e, k, hexponent, hrounded, rfl⟩ := h
  refine ⟨e, -k, ⟨hexponent.least, ?_, ?_⟩, ?_, by push_cast; ring⟩
  · rw [abs_neg]
    exact hexponent.full
  · rw [abs_neg]
    exact hexponent.fits
  · rw [neg_div]
    exact hrounded.neg

/-! ## Exponents by size -/

theorem two_zpow_add_one (e : Int) : (2 : ℚ) ^ (e + 1) = 2 * 2 ^ e := by
  rw [zpow_add_one₀ (by norm_num), mul_comm]

theorem lt_of_two_zpow_lt (h : (2 : ℚ) ^ e < 2 * 2 ^ j) : e ≤ j := by
  rw [← two_zpow_add_one, zpow_lt_zpow_iff_right₀ (by norm_num)] at h
  omega

theorem IsExponent.le_of_fits (h : IsExponent q e) (hj : -1074 ≤ j) (hq : |q| < 2 ^ 53 * 2 ^ j) :
    e ≤ j := by
  rcases h.full with rfl | hfull
  · exact hj
  · exact lt_of_two_zpow_lt (by linarith)

theorem IsExponent.ge_of_full (h : IsExponent q e) (hq : 2 ^ 52 * 2 ^ j ≤ |q|) : j ≤ e :=
  lt_of_two_zpow_lt (by linarith [h.fits])

/-! ## Numbers on the grid of doubles -/

/-- A double, if there were doubles of all sizes. -/
def IsOnGrid (y : ℚ) : Prop := ∃ (k : ℤ) (j : Int), |k| ≤ 2 ^ 53 ∧ -1074 ≤ j ∧ y = k * 2 ^ j

theorem IsOnGrid.neg (h : IsOnGrid y) : IsOnGrid (-y) := by
  obtain ⟨k, j, hk, hj, rfl⟩ := h
  exact ⟨-k, j, by rwa [abs_neg], hj, by push_cast; ring⟩

theorem isOnGrid_int (hk : |k| ≤ 2 ^ 53) : IsOnGrid k := ⟨k, 0, hk, by norm_num, by simp⟩

theorem isOnGrid_half (hk : |2 * k + 1| ≤ 2 ^ 53) : IsOnGrid (k + 1 / 2) :=
  ⟨2 * k + 1, -1, hk, by norm_num, by push_cast; ring⟩

/-- A larger exponent is one of more digits. -/
theorem exists_digits (k : ℤ) (he : e ≤ j) : ∃ z : ℤ, (k : ℚ) * 2 ^ j = z * 2 ^ e := by
  obtain ⟨i, rfl⟩ := Int.le.dest he
  refine ⟨k * 2 ^ i, ?_⟩
  rw [zpow_add₀ (by norm_num), zpow_natCast]
  push_cast
  ring

/-- Rounding goes past no double. -/
theorem IsNearest.le (h : IsNearest q v) (hy : IsOnGrid y) (hq : q ≤ y) : v ≤ y := by
  obtain ⟨e, k, hexponent, hrounded, rfl⟩ := h
  obtain ⟨m, j, hm, hj, rfl⟩ := hy
  have hpos := two_zpow_pos e
  -- It is enough to have a multiple of the step between the two numbers.
  have hgrid : ∀ z : ℤ, q ≤ z * 2 ^ e → (z : ℚ) * 2 ^ e ≤ m * 2 ^ j → (k : ℚ) * 2 ^ e ≤ m * 2 ^ j := by
    intro z hqz hzy
    have hkz : k ≤ z := hrounded.le ((div_le_iff₀ hpos).mpr hqz)
    exact le_trans (mul_le_mul_of_nonneg_right (by exact_mod_cast hkz) hpos.le) hzy
  by_cases hle : e ≤ j
  · obtain ⟨z, hz⟩ := exists_digits m hle
    exact hgrid z (hz ▸ hq) hz.ge
  · have hfull : 2 ^ 52 * 2 ^ e ≤ |q| := hexponent.full.resolve_left (by omega)
    have hstep : 2 * (2 : ℚ) ^ j ≤ 2 ^ e := by
      rw [← two_zpow_add_one]
      exact zpow_le_zpow_right₀ (by norm_num) (by omega)
    have hm : |(m : ℚ)| ≤ 2 ^ 53 := by exact_mod_cast hm
    have hsize : |(m : ℚ) * 2 ^ j| ≤ 2 ^ 52 * 2 ^ e := by
      rw [abs_mul, abs_of_pos (two_zpow_pos j)]
      calc |(m : ℚ)| * 2 ^ j ≤ 2 ^ 53 * 2 ^ j := mul_le_mul_of_nonneg_right hm (two_zpow_pos j).le
        _ ≤ 2 ^ 52 * 2 ^ e := by linarith
    rcases le_total q 0 with hneg | hnonneg
    · rw [abs_of_nonpos hneg] at hfull
      exact hgrid (-2 ^ 52) (by push_cast; linarith) (by push_cast; linarith [(abs_le.mp hsize).1])
    · rw [abs_of_nonneg hnonneg] at hfull
      exact hgrid (2 ^ 52) (by push_cast; linarith [(abs_le.mp hsize).2]) (by push_cast; linarith)

theorem IsNearest.ge (h : IsNearest q v) (hy : IsOnGrid y) (hq : y ≤ q) : y ≤ v :=
  neg_le_neg_iff.mp (h.neg.le hy.neg (neg_le_neg hq))

/-- A double is rounded to itself. -/
theorem IsNearest.eq_self (h : IsNearest y v) (hy : IsOnGrid y) : v = y :=
  le_antisymm (h.le hy le_rfl) (h.ge hy le_rfl)

/-- What is less than half of the least step goes to zero. -/
theorem IsNearest.eq_zero (h : IsNearest q v) (hq : 2 * |q| < 2 ^ (-1074 : Int)) : v = 0 := by
  obtain ⟨e, k, hexponent, hrounded, rfl⟩ := h
  have hpos := two_zpow_pos (-1074)
  obtain rfl : e = -1074 := Int.le_antisymm
    (hexponent.le_of_fits le_rfl (by linarith [abs_nonneg q])) hexponent.least
  have hk : k = 0 := hrounded.eq (by
    rw [Int.cast_zero, sub_zero, abs_div, abs_of_pos hpos, ← mul_div_assoc]
    exact (div_lt_one hpos).mpr hq)
  rw [hk, Int.cast_zero, zero_mul]

/-! ## Numbers close to a double -/

/-- A number that has 53 digits at some exponent goes to what is less than half a step away. -/
theorem IsNearest.eq_of_digits (h : IsNearest q v) (hj : -1074 ≤ j) (hfull : 2 ^ 52 * 2 ^ j ≤ |q|)
    (hfits : |q| < 2 ^ 53 * 2 ^ j) (hclose : 2 * |q - k * 2 ^ j| < 2 ^ j) : v = k * 2 ^ j := by
  obtain ⟨e, z, hexponent, hrounded, rfl⟩ := h
  obtain rfl : e = j := Int.le_antisymm (hexponent.le_of_fits hj hfits) (hexponent.ge_of_full hfull)
  have hpos := two_zpow_pos e
  have hscaled : q / 2 ^ e - k = (q - k * 2 ^ e) / 2 ^ e := by
    rw [sub_div, mul_div_assoc, div_self hpos.ne', mul_one]
  have hz : z = k := hrounded.eq (by
    rw [hscaled, abs_div, abs_of_pos hpos, ← mul_div_assoc]
    exact (div_lt_one hpos).mpr hclose)
  rw [hz]

/-- A double of 53 digits whose neighbours have digits above the least exponent. -/
def IsNormal (y : ℚ) : Prop :=
  ∃ (k : ℤ) (j : Int), 2 ^ 52 ≤ |k| ∧ |k| < 2 ^ 53 ∧ -1074 < j ∧ y = k * 2 ^ j

theorem IsNormal.isOnGrid (h : IsNormal y) : IsOnGrid y := by
  obtain ⟨k, j, -, hk, hj, rfl⟩ := h
  exact ⟨k, j, hk.le, hj.le, rfl⟩

/-- Less than 53 digits are filled up with zeros. -/
theorem isNormal_of_digits (hk : k ≠ 0) (hlt : |k| < 2 ^ 53) (hj : -1022 < j) : IsNormal (k * 2 ^ j) := by
  have hne : k.natAbs ≠ 0 := Int.natAbs_ne_zero.mpr hk
  have habs : |k| = k.natAbs := Int.abs_eq_natAbs k
  have hlog : k.natAbs.log2 < 53 := (Nat.log2_lt hne).mpr (by rw [habs] at hlt; exact_mod_cast hlt)
  obtain ⟨i, hi⟩ : ∃ i, k.natAbs.log2 + i = 52 := ⟨52 - k.natAbs.log2, by omega⟩
  have hshift : ((|k * 2 ^ i| : ℤ)) = (k.natAbs * 2 ^ i : Nat) := by
    rw [abs_mul, habs]
    push_cast
    rw [abs_of_pos (by positivity : (0 : ℤ) < 2 ^ i)]
  refine ⟨k * 2 ^ i, j - i, ?_, ?_, by omega, ?_⟩
  · rw [hshift]
    have := Nat.mul_le_mul_right (2 ^ i) (Nat.log2_self_le hne)
    rw [← Nat.pow_add, hi] at this
    exact_mod_cast this
  · rw [hshift]
    have := Nat.mul_lt_mul_of_pos_right (Nat.lt_log2_self (n := k.natAbs)) (Nat.two_pow_pos i)
    rw [← Nat.pow_add, Nat.add_right_comm, hi] at this
    exact_mod_cast this
  · rw [zpow_sub₀ (by norm_num), zpow_natCast]
    push_cast
    field_simp

/-- A factor so close to one that a double that is multiplied or divided by it is still the nearest one. -/
def NearlyOne (r : ℚ) : Prop := 1 - 1 / 2 ^ 54 ≤ r ∧ (1 - 1 / 2 ^ 54) * r ≤ 1

theorem NearlyOne.inv (h : NearlyOne r) : NearlyOne r⁻¹ := by
  have hpos : 0 < r := lt_of_lt_of_le (by norm_num) h.1
  refine ⟨?_, ?_⟩
  · rw [← one_div, le_div_iff₀ hpos]
    exact h.2
  · rw [← div_eq_mul_inv, div_le_one hpos]
    exact h.1

/-- Below a power of two the steps are half as wide as above it. A number in the middle of the last one of
them is at the border, and there the even digits decide. -/
theorem IsNearest.ge_power (h : IsNearest q v) (hj : -1074 ≤ j)
    (hclose : (1 - 1 / 2 ^ 54) * (2 ^ 53 * 2 ^ j) ≤ q) (hless : q < 2 ^ 53 * 2 ^ j) : 2 ^ 53 * 2 ^ j ≤ v := by
  have hpos := two_zpow_pos j
  have hsize : |q| = q := abs_of_nonneg (le_trans (by positivity) hclose)
  obtain ⟨e, z, hexponent, hrounded, rfl⟩ := h
  obtain rfl : e = j := Int.le_antisymm (hexponent.le_of_fits hj (by rw [hsize]; exact hless))
    (hexponent.ge_of_full (by rw [hsize]; linarith))
  have hz : 2 ^ 53 ≤ z := hrounded.ge_of_half (by
    rw [le_div_iff₀ hpos]
    push_cast
    linarith) (by norm_num)
  exact mul_le_mul_of_nonneg_right (by exact_mod_cast hz) hpos.le

theorem IsNearest.ge_of_nearlyOne (h : IsNearest (r * (k * 2 ^ j)) v) (hr : 1 - 1 / 2 ^ 54 ≤ r)
    (hk : 2 ^ 52 ≤ k) (hlt : k < 2 ^ 53) (hj : -1074 < j) : (k : ℚ) * 2 ^ j ≤ v := by
  have hlow : (2 : ℚ) ^ 52 ≤ k := by exact_mod_cast hk
  have hhigh : (k : ℚ) + 1 ≤ 2 ^ 53 := by exact_mod_cast hlt
  have hgrid : IsOnGrid (k * 2 ^ j) := ⟨k, j, by rw [abs_of_nonneg (by omega)]; omega, hj.le, rfl⟩
  have hpos := two_zpow_pos j
  generalize hq : r * (k * 2 ^ j) = q at h
  have hclose : (1 - 1 / 2 ^ 54) * (k * 2 ^ j) ≤ q := by
    rw [← hq]
    exact mul_le_mul_of_nonneg_right hr (by positivity)
  have hsize : |q| = q := abs_of_nonneg (le_trans (by positivity) hclose)
  rcases le_or_gt ((k : ℚ) * 2 ^ j) q with hge | hbelow
  · exact h.ge hgrid hge
  rcases le_or_gt (2 ^ 52 * 2 ^ j) q with hfull | hless
  · refine (h.eq_of_digits hj.le (by rwa [hsize]) ?_ ?_).ge
    · rw [hsize]
      nlinarith
    · rw [abs_sub_comm, abs_of_pos (by linarith)]
      nlinarith
  · have hpower : (k : ℚ) = 2 ^ 52 := by
      have hscaled : (1 - 1 / 2 ^ 54) * (k : ℚ) < 2 ^ 52 := by
        refine lt_of_mul_lt_mul_right ?_ hpos.le
        linarith
      have hnext : (k : ℚ) < 2 ^ 52 + 1 := by linarith
      have hnext : k < 2 ^ 52 + 1 := by exact_mod_cast hnext
      exact_mod_cast (by omega : k = 2 ^ 52)
    obtain ⟨i, rfl⟩ : ∃ i, j = i + 1 := ⟨j - 1, by omega⟩
    have hdouble : (2 : ℚ) ^ 52 * 2 ^ (i + 1) = 2 ^ 53 * 2 ^ i := by
      rw [two_zpow_add_one]
      ring
    rw [hpower, hdouble] at hclose ⊢
    exact h.ge_power (by omega) hclose (hdouble ▸ hless)

/-- A double times a factor that is nearly one goes to that double. -/
theorem IsNearest.eq_of_nearlyOne (h : IsNearest (r * y) v) (hr : NearlyOne r) (hy : IsNormal y) :
    v = y := by
  obtain ⟨k, j, hk, hlt, hj, rfl⟩ := hy
  wlog hpos : 0 < k generalizing k v
  · have hopposite : -v = ((-k : ℤ) : ℚ) * 2 ^ j := by
      refine this (-k) (by rwa [abs_neg]) (by rwa [abs_neg]) ?_ ?_
      · have hsign : r * (((-k : ℤ) : ℚ) * 2 ^ j) = -(r * (k * 2 ^ j)) := by
          push_cast
          ring
        rw [hsign]
        exact h.neg
      · have : |k| ≠ 0 := by omega
        have := abs_ne_zero.mp this
        omega
    push_cast at hopposite
    linarith
  rw [abs_of_pos hpos] at hk hlt
  refine le_antisymm ?_ (h.ge_of_nearlyOne hr.1 hk hlt hj)
  have hhigh : (k : ℚ) + 1 ≤ 2 ^ 53 := by exact_mod_cast hlt
  have hlow : (2 : ℚ) ^ 52 ≤ k := by exact_mod_cast hk
  have hunit := two_zpow_pos j
  rcases le_or_gt r 1 with hle | hgt
  · refine h.le ⟨k, j, by rw [abs_of_pos hpos]; omega, hj.le, rfl⟩ ?_
    exact mul_le_of_le_one_left (by positivity) hle
  · have hover : 2 * ((r - 1) * k) < 1 := by
      have := hr.2
      nlinarith
    have hsize : |r * (k * 2 ^ j)| = r * (k * 2 ^ j) := abs_of_pos (by positivity)
    have hdiff : r * (k * 2 ^ j) - k * 2 ^ j = (r - 1) * k * 2 ^ j := by ring
    refine (h.eq_of_digits hj.le ?_ ?_ ?_).le
    · rw [hsize]
      nlinarith [mul_pos (sub_pos.mpr hgt) hunit]
    · rw [hsize]
      nlinarith
    · rw [hdiff, abs_of_pos (by have := sub_pos.mpr hgt; positivity)]
      nlinarith

end Binary64

end Scriptlet
