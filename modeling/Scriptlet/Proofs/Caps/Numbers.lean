import Mathlib.Algebra.Ring.Int.Parity
import Scriptlet.Call.Reckoning
import Scriptlet.Value.Sequence

/-
  How large numbers become.

  What is proved:
    1. `bitLength_mul_le`, `bitLength_pow_le` — the estimates of the bits of a product and of a power are
       bounds on them.
    2. `natAbs_fdiv_le`, `natAbs_fmod_le`, `natAbs_powMod_le` — quotients and remainders are no larger than
       what they are made of.
    3. `natAbs_progression_le`, `count_of_le` — the terms of a progression stay between its bounds, and a
       slice takes no more places than there are.
-/

namespace Scriptlet

namespace Integer

/-! ## Bits -/

theorem bitLength_le_iff {n : Int} {bits : Nat} : bitLength n ≤ bits ↔ n.natAbs < 2 ^ bits := by
  unfold bitLength
  split
  · rename_i hzero
    subst hzero
    exact ⟨fun _ => Nat.two_pow_pos bits, fun _ => Nat.zero_le _⟩
  · rename_i hne
    rw [Nat.add_one_le_iff, Nat.log2_lt (Int.natAbs_ne_zero.mpr hne)]

theorem natAbs_lt (n : Int) : n.natAbs < 2 ^ bitLength n := bitLength_le_iff.mp (Nat.le_refl _)

theorem bitLength_mul_le (m n : Int) : bitLength (m * n) ≤ productBits m n := by
  rw [bitLength_le_iff]
  calc (m * n).natAbs = m.natAbs * n.natAbs := Int.natAbs_mul m n
    _ < 2 ^ bitLength m * 2 ^ bitLength n := Nat.mul_lt_mul'' (natAbs_lt m) (natAbs_lt n)
    _ = 2 ^ productBits m n := (Nat.pow_add 2 _ _).symm

/-- An integer to an even power is its absolute value to it. -/
theorem pow_of_even (base : Int) {exponent : Nat} (h : Even exponent) :
    base ^ exponent = (base.natAbs : Int) ^ exponent := by
  rcases Int.natAbs_eq base with hbase | hbase
  · rw [← hbase]
  · rw [hbase, h.neg_pow, Int.natAbs_neg, Int.natAbs_natCast]

/-- A negative integer to an odd power is negative. -/
theorem pow_of_odd {base : Int} {exponent : Nat} (hbase : base < 0) (h : Odd exponent) :
    base ^ exponent = -(base.natAbs : Int) ^ exponent := by
  have hneg : base = -(base.natAbs : Int) := by omega
  rw [hneg, h.neg_pow, Int.natAbs_neg, Int.natAbs_natCast]

theorem power_eq (base : Int) (exponent : Nat) : power base exponent = base ^ exponent := by
  unfold power
  split
  · rename_i hzero
    rw [hzero, Int.pow_zero]
  · rename_i hpos
    split
    · -- The powers of zero and of the units only go by whether the exponent is even.
      rename_i hsmall
      have hunits : base = 0 ∨ base = 1 ∨ base = -1 := by omega
      split
      · rename_i heven
        rw [pow_of_even base (Nat.even_iff.mpr heven)]
        rcases hunits with rfl | rfl | rfl <;> simp [hpos]
      · rename_i hodd
        have hodd : Odd exponent := Nat.odd_iff.mpr (by omega)
        rcases hunits with rfl | rfl | rfl
        · simp [hpos]
        · simp
        · rw [hodd.neg_one_pow]
    · have hsize : ((Nat.pow base.natAbs exponent : Nat) : Int) = (base.natAbs : Int) ^ exponent :=
        Int.natCast_pow _ _
      simp only [hsize]
      split
      · rename_i hnegative
        simp only [Bool.and_eq_true, decide_eq_true_eq] at hnegative
        exact (pow_of_odd hnegative.1 (Nat.odd_iff.mpr hnegative.2)).symm
      · rename_i hnot
        simp only [Bool.and_eq_true, decide_eq_true_eq, not_and] at hnot
        by_cases hbase : base < 0
        · exact (pow_of_even base (Nat.even_iff.mpr (by have := hnot hbase; omega))).symm
        · rw [Int.natAbs_of_nonneg (by omega)]

theorem bitLength_pow_le {base exponent : Int} (hexponent : 0 < exponent) (hbase : 1 < base.natAbs) :
    bitLength (base ^ exponent.toNat) ≤ powerBits base exponent := by
  have hbits : powerBits base exponent = bitLength base * exponent.toNat := by
    unfold powerBits
    rw [if_neg]
    simp only [Bool.or_eq_true, decide_eq_true_eq]
    omega
  rw [hbits, bitLength_le_iff, Int.natAbs_pow, Nat.pow_mul]
  exact Nat.pow_lt_pow_left (natAbs_lt base) (by omega)

theorem natAbs_pow_le_one {base : Int} (exponent : Nat) (hbase : base.natAbs ≤ 1) :
    (base ^ exponent).natAbs ≤ 1 := by
  rw [Int.natAbs_pow]
  calc base.natAbs ^ exponent ≤ 1 ^ exponent := Nat.pow_le_pow_left hbase exponent
    _ = 1 := Nat.one_pow exponent

/-! ## Quotients and remainders -/

theorem natAbs_fdiv_le (m n : Int) : (Int.fdiv m n).natAbs ≤ m.natAbs := by
  rcases m with (_ | m) | m <;> rcases n with (_ | n) | n <;>
    simp only [Int.fdiv, Int.ofNat_eq_natCast, Int.natAbs_natCast, Int.natAbs_negSucc, Int.natAbs_zero,
      Nat.zero_le, Nat.succ_eq_add_one]
  -- A quotient of different signs is one further from zero than that of the integers before it.
  all_goals first
    | exact Nat.div_le_self _ _
    | exact Nat.succ_le_succ (Nat.div_le_self _ _)

theorem natAbs_fmod_le (m : Int) {n : Int} (hn : n ≠ 0) : (Int.fmod m n).natAbs ≤ n.natAbs := by
  rw [Int.fmod_eq_emod]
  have hlow := Int.emod_nonneg m hn
  have hhigh := Int.emod_lt m hn
  split <;> omega

theorem natAbs_powMod_le (base : Int) (exponent : Nat) {modulus : Int} (hmodulus : modulus ≠ 0) :
    (powMod base exponent modulus).natAbs ≤ modulus.natAbs := by
  unfold powMod
  split
  · exact natAbs_fmod_le 1 hmodulus
  · simp only
    split <;> exact natAbs_fmod_le _ hmodulus

end Integer

/-! ## Progressions and slices -/

/-- Of a number of steps that fits between two bounds each one does. -/
theorem mul_le_of_le_ediv {i : Nat} {width step : Int} (hstep : 0 < step)
    (hi : i < (width / step + 1).toNat) : i * step ≤ width := by
  have hquotient : (i : Int) ≤ width / step := by omega
  calc (i : Int) * step ≤ width / step * step := Int.mul_le_mul_of_nonneg_right hquotient (Int.le_of_lt hstep)
    _ ≤ width := Int.ediv_mul_le width (by omega)

namespace Reckoning

theorem natAbs_progression_le {start stop step : Int} {i : Nat} (hstep : step ≠ 0)
    (hi : i < rangeCount start stop step) :
    (start + i * step).natAbs ≤ max start.natAbs stop.natAbs := by
  unfold rangeCount at hi
  split at hi
  · split at hi
    · rename_i hpos hlt
      have hterm := mul_le_of_le_ediv hpos hi
      have hnonneg : 0 ≤ (i : Int) * step := Int.mul_nonneg (Int.natCast_nonneg i) (by omega)
      omega
    · omega
  · split at hi
    · rename_i hneg hlt
      have hterm := mul_le_of_le_ediv (by omega) hi
      have hnonneg : 0 ≤ (i : Int) * -step := Int.mul_nonneg (Int.natCast_nonneg i) (by omega)
      have hsign : (i : Int) * -step = -(i * step) := Int.mul_neg _ _
      omega
    · omega

end Reckoning

namespace Places

theorem clamp_mem (length bound : Int) {low high : Int} (h : low ≤ high) :
    low ≤ clamp length low high bound ∧ clamp length low high bound ≤ high := by
  unfold clamp
  simp only
  omega

theorem count_of_le (length : Nat) (lower upper : Option Int) {step : Int} (hstep : step ≠ 0) :
    (Places.of length lower upper step).count ≤ length := by
  have hcount : ∀ {width stride : Int}, 0 < stride → 0 ≤ width → width + 1 ≤ length →
      (width / stride + 1).toNat ≤ length := by
    intro width stride hstride hwidth hlength
    have hself := Int.ediv_le_self stride hwidth
    omega
  unfold Places.of
  simp only
  have hbound : ∀ bound : Option Int, 0 ≤ (bound.map (clamp length 0 length)).getD 0 ∧
      (bound.map (clamp length 0 length)).getD length ≤ length ∧
      (bound.map (clamp length (-1) (length - 1))).getD (length - 1) ≤ length - 1 ∧
      -1 ≤ (bound.map (clamp length (-1) (length - 1))).getD (-1) := by
    intro bound
    cases bound with
    | none => simp
    | some n =>
      have hfront := clamp_mem length n (Int.natCast_nonneg length)
      have hback := clamp_mem length n (show (-1 : Int) ≤ length - 1 by omega)
      exact ⟨hfront.1, hfront.2, hback.2, hback.1⟩
  obtain ⟨hlow, -, hlast, -⟩ := hbound lower
  obtain ⟨-, hhigh, -, hfirst⟩ := hbound upper
  split
  · simp only
    split
    · exact hcount ‹_› (by omega) (by omega)
    · exact Nat.zero_le _
  · simp only
    split
    · exact hcount (by omega) (by omega) (by omega)
    · exact Nat.zero_le _

theorem length_pick_le {α : Type} (places : Places) (items : Array α) :
    (places.pick items).length ≤ places.count := by
  unfold pick
  calc _ ≤ (List.range places.count).length := List.length_filterMap_le _ _
    _ = places.count := List.length_range

end Places

end Scriptlet
