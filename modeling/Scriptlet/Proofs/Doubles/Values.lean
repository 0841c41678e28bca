import Mathlib.Algebra.Order.Field.Power
import Mathlib.Data.Rat.Floor
import Mathlib.Tactic.Linarith
import Scriptlet.Proofs.Doubles
import Scriptlet.Value.Equality

/-
  The values of doubles.

  A finite double is a rational number. Its digits are as many as fit, unless its exponent is the least
  one, so a value has one double only, zero apart. Digits and an exponent that a double has come back from
  the bits of the double as they were, whether core's model packs them or they are put together as a number.

  What is proved:
    1. `floorParts_eq`, `isIntegral_iff` — integer parts, and numbers that have no other part, by values.
    2. `beq_of_value_eq` — finite doubles of one value are equal.
    3. `parts_eq_of_bits`, `parts_pack` — digits and an exponent are read off the bits that they make.
    4. `pack_unpack`, `toBits_ofBits` — a finite double and the bits of one are kept.
-/

namespace Scriptlet

namespace Binary64

variable {x y : Float} {negative : Bool} {m : Nat} {e n : Int}

/-- The integer of digits with a sign. -/
def signed (negative : Bool) (m : Nat) : Int := if negative then -m else m

/-- The value of a finite double. -/
def Parts.value : Parts → ℚ
  | .finite negative m e => signed negative m * 2 ^ e
  | .nan | .infinite _ => 0

/-- Neither an infinity nor NaN. -/
def Parts.IsFinite (p : Parts) : Prop := ∃ negative m e, p = .finite negative m e

theorem two_zpow_pos (e : Int) : (0 : ℚ) < 2 ^ e := zpow_pos (by norm_num) e

theorem two_zpow_toNat (he : 0 ≤ e) : (2 : ℚ) ^ e = (twoTo e.toNat : Nat) := by
  obtain ⟨k, rfl⟩ := Int.eq_ofNat_of_zero_le he
  rw [zpow_natCast, Int.toNat_natCast]
  exact (Nat.cast_pow 2 k).symm

theorem two_zpow_neg_toNat (he : e ≤ 0) : (2 : ℚ) ^ e = ((twoTo (-e).toNat : Nat) : ℚ)⁻¹ := by
  rw [← two_zpow_toNat (by omega : 0 ≤ -e), ← zpow_neg, neg_neg]

/-! ## Integers -/

theorem floorParts_eq (negative : Bool) (m : Nat) (e : Int) :
    floorParts negative m e = ⌊(Parts.finite negative m e).value⌋ := by
  show (if e ≥ 0 then signed negative m * (twoTo e.toNat : Nat)
    else Int.fdiv (signed negative m) (twoTo (-e).toNat : Nat)) = ⌊(signed negative m : ℚ) * 2 ^ e⌋
  by_cases he : e ≥ 0
  · rw [if_pos he, two_zpow_toNat he]
    exact_mod_cast (Int.floor_intCast (R := ℚ) _).symm
  · rw [if_neg he, two_zpow_neg_toNat (by omega), ← div_eq_mul_inv, Rat.floor_intCast_div_natCast,
      Int.fdiv_eq_ediv_of_nonneg _ (Int.natCast_nonneg _)]

theorem floor?_eq_some_iff : floor? x = some n ↔ (parts x).IsFinite ∧ ⌊(parts x).value⌋ = n := by
  unfold floor?
  cases hx : parts x with
  | finite negative m e =>
    rw [← floorParts_eq]
    exact ⟨fun h => ⟨⟨negative, m, e, rfl⟩, Option.some.inj h⟩, fun h => congrArg some h.2⟩
  | nan | infinite => exact ⟨nofun, fun h => (nomatch h.1)⟩

/-- A double has no fraction just when its value is an integer. -/
theorem isIntegral_iff : isIntegral x = true ↔ (parts x).IsFinite ∧ ∃ n : Int, (parts x).value = n := by
  unfold isIntegral
  cases hx : parts x with
  | nan | infinite => exact ⟨nofun, fun h => (nomatch h.1)⟩
  | finite negative m e =>
    have hfinite : (Parts.finite negative m e).IsFinite := ⟨negative, m, e, rfl⟩
    show (decide (e ≥ 0) || m % twoTo (-e).toNat == 0) = true ↔ _ ∧ ∃ n : Int, (signed negative m : ℚ) * 2 ^ e = n
    rw [Bool.or_eq_true, decide_eq_true_eq, beq_iff_eq, and_iff_right hfinite]
    by_cases he : e ≥ 0
    · refine ⟨fun _ => ⟨signed negative m * (twoTo e.toNat : Nat), ?_⟩, fun _ => .inl he⟩
      rw [two_zpow_toNat he]
      push_cast
      rfl
    · have hne : ((twoTo (-e).toNat : Nat) : ℚ) ≠ 0 := by exact_mod_cast (Nat.pow_pos (by decide)).ne'
      have hdigits : (signed negative m).natAbs = m := natAbs_signed negative m
      rw [or_iff_right he, two_zpow_neg_toNat (by omega), ← Nat.dvd_iff_mod_eq_zero]
      simp only [mul_inv_eq_iff_eq_mul₀ hne]
      constructor
      · intro hdvd
        obtain ⟨n, hn⟩ := Int.natCast_dvd.mpr (hdigits.symm ▸ hdvd)
        exact ⟨n, by rw [hn]; push_cast; ring⟩
      · rintro ⟨n, hn⟩
        have hn : signed negative m = n * (twoTo (-e).toNat : Nat) := by exact_mod_cast hn
        rw [← hdigits, hn, Int.natAbs_mul, Int.natAbs_natCast]
        exact Nat.dvd_mul_left _ _

/-- What an integer is as a double, by values. -/
theorem compareInt_eq_iff : compareInt n negative m e = .eq ↔ (Parts.finite negative m e).value = n := by
  show (if e ≥ 0 then compare n (signed negative m * (twoTo e.toNat : Nat))
    else compare (n * (twoTo (-e).toNat : Nat)) (signed negative m)) = .eq ↔
      (signed negative m : ℚ) * 2 ^ e = n
  by_cases he : e ≥ 0
  · rw [if_pos he, Std.LawfulEqCmp.compare_eq_iff_eq, two_zpow_toNat he]
    constructor
    · rintro rfl
      push_cast
      rfl
    · intro h
      exact_mod_cast h.symm
  · have hne : ((twoTo (-e).toNat : Nat) : ℚ) ≠ 0 := by exact_mod_cast (Nat.pow_pos (by decide)).ne'
    rw [if_neg he, Std.LawfulEqCmp.compare_eq_iff_eq, two_zpow_neg_toNat (by omega),
      mul_inv_eq_iff_eq_mul₀ hne, eq_comm]
    exact_mod_cast Iff.rfl

/-! ## Doubles of one value -/

/-- The digits of a double begin with a one, unless its exponent is the least one. -/
theorem finite_shape (h : parts x = .finite negative m e) :
    -1074 ≤ e ∧ (twoTo 52 ≤ m ∨ e = -1074) := by
  simp only [parts] at h
  split at h
  · split at h <;> cases h
  · split at h
    · cases h
      exact ⟨Int.le_refl _, .inr rfl⟩
    · cases h
      refine ⟨by omega, .inl (Nat.le_add_right _ _)⟩

theorem value_eq_zero_iff : (Parts.finite negative m e).value = 0 ↔ m = 0 := by
  show (signed negative m : ℚ) * 2 ^ e = 0 ↔ m = 0
  rw [mul_eq_zero, or_iff_left (two_zpow_pos e).ne', Int.cast_eq_zero, ← Int.natAbs_eq_zero, signed,
    natAbs_signed]

theorem value_neg_iff : (Parts.finite negative m e).value < 0 ↔ negative = true ∧ m ≠ 0 := by
  show (signed negative m : ℚ) * 2 ^ e < 0 ↔ _
  rw [mul_neg_iff, or_iff_right fun h => absurd h.2 (two_zpow_pos e).not_gt,
    and_iff_left (two_zpow_pos e), Int.cast_lt_zero]
  cases negative with
  | false => simp [signed]
  | true => simp [signed, Nat.pos_iff_ne_zero]

theorem abs_value (negative : Bool) (m : Nat) (e : Int) :
    |(Parts.finite negative m e).value| = m * 2 ^ e := by
  show |(signed negative m : ℚ) * 2 ^ e| = _
  rw [abs_mul, abs_of_pos (two_zpow_pos e), ← Int.cast_abs, Int.abs_eq_natAbs, signed, natAbs_signed]
  rfl

/-- Digits that begin with a one have a lower exponent in no other number of the same size. -/
theorem exponent_le_of_abs {m m' : Nat} {e e' : Int} (hm' : twoTo 52 ≤ m' ∨ e' = -1074)
    (hm : m < twoTo 53) (he : -1074 ≤ e) (h : (m : ℚ) * 2 ^ e = m' * 2 ^ e') : e' ≤ e := by
  by_contra hlt
  obtain ⟨k, rfl⟩ : ∃ k : Nat, e' = e + (k + 1 : Nat) := ⟨(e' - e - 1).toNat, by omega⟩
  have hdigits : m = m' * twoTo (k + 1) := by
    rw [zpow_add₀ (by norm_num), zpow_natCast, mul_comm ((2 : ℚ) ^ e), ← mul_assoc] at h
    have hcast := mul_right_cancel₀ (two_zpow_pos e).ne' h
    exact_mod_cast hcast
  have hwide : twoTo 52 ≤ m' := hm'.resolve_right (by omega)
  have htwo : 2 ≤ twoTo (k + 1) := Nat.le_self_pow (Nat.succ_ne_zero k) 2
  have := Nat.mul_le_mul hwide htwo
  rw [hdigits] at hm
  exact absurd hm (Nat.not_lt.mpr this)

/-- Finite doubles of one value are the same, or two zeros. -/
theorem eq_or_isZero_of_value_eq (hx : (parts x).IsFinite) (hy : (parts y).IsFinite)
    (h : (parts x).value = (parts y).value) : x = y ∨ (parts x).IsZero ∧ (parts y).IsZero := by
  obtain ⟨negative, m, e, hx⟩ := hx
  obtain ⟨negative', m', e', hy⟩ := hy
  rw [hx, hy] at h ⊢
  by_cases hm : m = 0
  · have hm' : m' = 0 := value_eq_zero_iff.mp (h ▸ value_eq_zero_iff.mpr hm)
    subst hm hm'
    exact .inr ⟨⟨_, _, rfl⟩, ⟨_, _, rfl⟩⟩
  · have hm' : m' ≠ 0 := fun hzero => hm (value_eq_zero_iff.mp (h ▸ value_eq_zero_iff.mpr hzero))
    have hsign : negative = negative' := by
      have hneg := h ▸ @value_neg_iff negative m e
      rw [value_neg_iff, and_iff_left hm, and_iff_left hm'] at hneg
      exact Bool.eq_iff_iff.mpr hneg.symm
    have hsize : (m : ℚ) * 2 ^ e = m' * 2 ^ e' := by rw [← abs_value negative, h, abs_value]
    obtain ⟨he, hwide⟩ := finite_shape hx
    obtain ⟨he', hwide'⟩ := finite_shape hy
    obtain rfl : e = e' := Int.le_antisymm (exponent_le_of_abs hwide (finite_bounds hy).1 he' hsize.symm)
      (exponent_le_of_abs hwide' (finite_bounds hx).1 he hsize)
    obtain rfl : m = m' := by exact_mod_cast mul_right_cancel₀ (two_zpow_pos e).ne' hsize
    subst hsign
    exact .inl (eq_of_parts_eq (hx.trans hy.symm) (hx ▸ nofun))

/-! ## Comparisons -/

open Float.Model Float.Model.UnpackedFloat

theorem compare_self {u : UnpackedFloat} (hu : u ≠ .notANumber) : u.compare u = some .eq := by
  cases u with
  | notANumber => exact absurd rfl hu
  | infinity s | zero s => cases s <;> rfl
  | finite s m e hm =>
    have hsame : (compare e e).then (compare m m) = .eq := by
      rw [compare_eq_iff_eq.mpr rfl, compare_eq_iff_eq.mpr rfl]
      rfl
    cases s with
    | positive => exact congrArg some hsame
    | negative => exact congrArg (fun o : Ordering => some o.swap) hsame

/-- A double equals itself unless it is NaN. -/
theorem beq_self (hx : parts x ≠ .nan) : (x == x) = true := by
  have hcompare : x.toModel.unpack.compare x.toModel.unpack = some .eq := by
    refine compare_self fun hnan => hx ?_
    rw [parts_eq, hnan]
    rfl
  show (x.toModel.unpack.compare x.toModel.unpack == some .eq) = true
  rw [hcompare]
  rfl

/-- Finite doubles of one value are equal. -/
theorem beq_of_value_eq (hx : (parts x).IsFinite) (hy : (parts y).IsFinite)
    (h : (parts x).value = (parts y).value) : (x == y) = true := by
  rcases eq_or_isZero_of_value_eq hx hy h with rfl | ⟨hzero, hzero'⟩
  · obtain ⟨_, _, _, hx⟩ := hx
    exact beq_self (hx ▸ nofun)
  · exact beq_of_isZero hzero hzero'

theorem beq_comm (h : (x == y) = true) : (y == x) = true := by
  rcases eq_or_isZero_of_beq h with rfl | ⟨hx, hy⟩
  · exact h
  · exact beq_of_isZero hy hx

theorem not_lt_of_beq (h : (x == y) = true) : ¬ x < y := by
  have hcompare : x.toModel.unpack.compare y.toModel.unpack = some .eq := beq_iff_eq.mp h
  intro hlt
  have hless : (x.toModel.unpack.compare y.toModel.unpack == some .lt) = true := of_decide_eq_true hlt
  rw [hcompare] at hless
  cases hless

/-! ## Bits -/

section Packing

open Float.Model Float.Model.UnpackedFloat

variable {x : Float} {negative : Bool} {m : Nat} {e : Int} {s : Sign}

/-- Digits and an exponent that a double has, if there is no greatest exponent. -/
structure IsCanonical (m : Nat) (e : Int) : Prop where
  digits : m < twoTo 53
  least : -1074 ≤ e
  full : twoTo 52 ≤ m ∨ e = -1074

/-- The bits of digits and an exponent are those of a double that has them. -/
theorem parts_eq_of_bits (hcanonical : IsCanonical m e) (he : e ≤ 971)
    (h : x.toBits.toNat = (Parts.finite negative m e).bits) : parts x = .finite negative m e := by
  obtain ⟨hdigits, hleast, hfull⟩ := hcanonical
  have h11 : twoTo 11 = 2048 := by decide
  have h52 : twoTo 52 = 4503599627370496 := by decide
  have h53 : twoTo 53 = 9007199254740992 := by decide
  have h63 : twoTo 63 = 9223372036854775808 := by decide
  have hsign : negative.toNat < 2 := negative.toNat_lt
  simp only [Parts.bits, h52, h63] at h
  simp only [h52, h53] at hdigits hfull
  have hnegative : (x.toBits.toNat / 9223372036854775808 == 1) = negative := by
    have hdiv : x.toBits.toNat / 9223372036854775808 = negative.toNat := by
      split at h <;> omega
    rw [hdiv]
    cases negative <;> rfl
  simp only [parts, h11, h52, h63, hnegative]
  split at h
  · obtain rfl : e = -1074 := by omega
    rw [if_neg (by omega), if_pos (by omega)]
    congr 1
    omega
  · rw [if_neg (by omega), if_neg (by omega)]
    congr 1 <;> omega

theorem toNat_packComponents (s : Sign) (b : BitVec 11) (c : BitVec 52) :
    (packComponents Format.binary64 s b c).toNat =
      (isMinus s).toNat * twoTo 63 + b.toNat * twoTo 52 + c.toNat := by
  have hsign : s.toBitVec.toNat = (isMinus s).toNat := by cases s <;> rfl
  unfold packComponents
  rw [BitVec.toNat_append, ← Nat.shiftLeft_add_eq_or_of_lt c.isLt, BitVec.toNat_append,
    ← Nat.shiftLeft_add_eq_or_of_lt b.isLt, hsign, Nat.shiftLeft_eq, Nat.shiftLeft_eq, Nat.add_mul,
    Nat.mul_assoc]

/-- A finite number is packed by its exponent: too large for a double, as one of 53 digits, or of fewer. -/
theorem pack_finite (hm : 0 < m) : UnpackedFloat.pack Format.binary64 (.finite s m e hm) =
    if 2 ^ 11 ≤ (e + 1023 + 52).toNat + 1 then packedInfinity Format.binary64 s
    else if m.log2 + 1 = 53 then
      packComponents Format.binary64 s (.ofNat 11 (e + 1023 + 52).toNat) (.ofNat 52 m)
    else packComponents Format.binary64 s (0#11) (.ofNat 52 m) := rfl

/-- Packing loses nothing of what is rounded and not too large. -/
theorem toNat_pack (hm : 0 < m) (hcanonical : IsCanonical m e) (he : e ≤ 971) :
    (UnpackedFloat.pack Format.binary64 (.finite s m e hm)).toNat = (Parts.finite (isMinus s) m e).bits := by
  obtain ⟨hdigits, hleast, hfull⟩ := hcanonical
  have h52 : twoTo 52 = 4503599627370496 := by decide
  have h53 : twoTo 53 = 9007199254740992 := by decide
  have hlog : m.log2 + 1 = 53 ↔ twoTo 52 ≤ m := by
    have hle : m.log2 < 53 := (Nat.log2_lt hm.ne').mpr hdigits
    have hge : 52 ≤ m.log2 ↔ twoTo 52 ≤ m := Nat.le_log2 hm.ne'
    omega
  have hexponent : (e + 1023 + 52).toNat % 2048 = (e + 1075).toNat := by omega
  rw [pack_finite, if_neg (by omega)]
  simp only [hlog, Parts.bits]
  split
  · rw [toNat_packComponents, if_neg (by omega), BitVec.toNat_ofNat, BitVec.toNat_ofNat, hexponent]
    omega
  · rw [toNat_packComponents, if_pos (by omega), BitVec.toNat_zero, BitVec.toNat_ofNat]
    omega

theorem parts_pack (hm : 0 < m) (hcanonical : IsCanonical m e) (he : e ≤ 971) :
    parts (.ofModel (.pack (.finite s m e hm))) = .finite (isMinus s) m e :=
  parts_eq_of_bits hcanonical he (toNat_pack hm hcanonical he)

theorem parts_pack_zero (s : Sign) : parts (.ofModel (.pack (.zero s))) = .finite (isMinus s) 0 (-1074) := by
  cases s <;> decide +kernel

/-- A finite double is packed again as it was unpacked. -/
theorem pack_unpack (h : (parts x).IsFinite) : Float.ofModel (.pack x.toModel.unpack) = x := by
  obtain ⟨negative, m, e, hparts⟩ := h
  have hbounds := finite_bounds hparts
  have hshape := finite_shape hparts
  have hsame : parts (.ofModel (.pack x.toModel.unpack)) = parts x := by
    rw [parts_eq] at hparts
    rw [parts_eq x]
    cases hx : x.toModel.unpack with
    | notANumber | infinity s =>
      rw [hx] at hparts
      cases hparts
    | zero s => exact parts_pack_zero s
    | finite s m' e' hm =>
      rw [hx] at hparts
      cases hparts
      exact parts_pack hm ⟨hbounds.1, hshape.1, hshape.2⟩ hbounds.2
  exact eq_of_parts_eq hsame (hsame ▸ hparts ▸ nofun)

theorem finite_of_exponent (h : x.toBits.toNat / twoTo 52 % twoTo 11 ≠ 2047) : (parts x).IsFinite := by
  simp only [parts, if_neg h]
  split <;> exact ⟨_, _, _, rfl⟩

/-- The bits of a finite number are those of the double that is made of them. -/
theorem toBits_ofBits {b : UInt64} (h : b.toNat / twoTo 52 % twoTo 11 ≠ 2047) : (Float.ofBits b).toBits = b := by
  have hexponent : @unpackExponent Format.binary64 b.toBitVec ≠ -1#_ := by
    intro hfull
    have hread := toNat_unpackExponent b.toBitVec
    have hmost : (-(1#_ : BitVec Format.binary64.exponentBits)).toNat = 2047 := by decide
    rw [hfull, hmost] at hread
    exact h hread.symm
  have hvalid : Format.binary64.Valid b.toBitVec := ⟨fun hfull => absurd hfull hexponent⟩
  have hfinite : (parts (.ofModel ⟨b, hvalid⟩)).IsFinite := finite_of_exponent h
  have hsame := pack_unpack hfinite
  exact congrArg Float.toBits hsame

end Packing

end Binary64

theorem Number.compareFloats_of_beq {x y : Float} (h : (x == y) = true) :
    compareFloats x y = some .eq := by
  rw [compareFloats, if_neg (Binary64.not_lt_of_beq h),
    if_neg (Binary64.not_lt_of_beq (Binary64.beq_comm h)), if_pos h]

end Scriptlet
