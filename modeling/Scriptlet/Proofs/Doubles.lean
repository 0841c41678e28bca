import Scriptlet.Numeric.Binary64
import Scriptlet.Proofs.Caps.Numbers

/-
  Doubles.

  Core describes a double by the bits that it has, and compares two of them by what these unpack to.
  The parts of a double are read off its bits too, so the two descriptions are brought together here.

  What is proved:
    1. `natAbs_floor?_lt` — the integer part of a double is less than a fixed power of two.
    2. `parts_eq` — the parts are what core's model unpacks.
    3. `eq_or_isZero_of_beq` — doubles that are equal are the same, or two zeros.
-/

namespace Scriptlet

namespace Binary64

variable {x y : Float} {negative : Bool} {m : Nat} {e n : Int}

theorem finite_bounds (h : parts x = .finite negative m e) : m < twoTo 53 ∧ e ≤ 971 := by
  simp only [parts] at h
  have hfraction : x.toBits.toNat % twoTo 52 < twoTo 52 := Nat.mod_lt _ (by decide)
  have hexponent : x.toBits.toNat / twoTo 52 % twoTo 11 < twoTo 11 := Nat.mod_lt _ (by decide)
  have hwide : twoTo 53 = twoTo 52 + twoTo 52 := by decide
  have heleven : twoTo 11 = 2048 := by decide
  split at h
  · split at h <;> cases h
  · split at h
    · cases h
      omega
    · cases h
      omega

theorem twoTo_le {j k : Nat} (h : j ≤ k) : twoTo j ≤ twoTo k := Nat.pow_le_pow_right (Nat.succ_pos 1) h

theorem natAbs_signed (negative : Bool) (m : Nat) :
    (if negative then -(m : Int) else (m : Int)).natAbs = m := by
  cases negative <;> simp

theorem natAbs_floor?_lt (h : floor? x = some n) : n.natAbs < twoTo 1024 := by
  unfold floor? at h
  split at h
  case h_1 negative m e hparts =>
    cases h
    obtain ⟨hm, he⟩ := finite_bounds hparts
    simp only [floorParts]
    by_cases hexponent : e ≥ 0
    · rw [if_pos hexponent]
      rw [Int.natAbs_mul, natAbs_signed, Int.natAbs_natCast]
      calc m * twoTo e.toNat < twoTo 53 * twoTo e.toNat :=
            Nat.mul_lt_mul_of_pos_right hm (Nat.pow_pos (by decide))
        _ = twoTo (53 + e.toNat) := (Nat.pow_add 2 53 e.toNat).symm
        _ ≤ twoTo 1024 := twoTo_le (by omega)
    · rw [if_neg hexponent]
      calc (Int.fdiv (if negative then -(m : Int) else m) (twoTo (-e).toNat)).natAbs
          ≤ (if negative then -(m : Int) else (m : Int)).natAbs := Integer.natAbs_fdiv_le _ _
        _ = m := natAbs_signed negative m
        _ < twoTo 53 := hm
        _ ≤ twoTo 1024 := twoTo_le (by omega)
  case h_2 => cases h

/-! ## Core's model -/

open Float.Model Float.Model.UnpackedFloat

theorem toNat_unpackMantissa (b : BitVec Format.binary64.numBits) :
    (unpackMantissa b).toNat = b.toNat % twoTo 52 := by
  rw [unpackMantissa, BitVec.toNat_cast, BitVec.extractLsb_toNat, Nat.shiftRight_zero]
  rfl

theorem toNat_unpackExponent (b : BitVec Format.binary64.numBits) :
    (unpackExponent b).toNat = b.toNat / twoTo 52 % twoTo 11 := by
  rw [unpackExponent, BitVec.toNat_cast, BitVec.extractLsb_toNat, Nat.shiftRight_eq_div_pow]
  rfl

theorem toNat_unpackSign (b : BitVec Format.binary64.numBits) :
    (unpackSign b).toNat = b.toNat / twoTo 63 := by
  have hlt : b.toNat < twoTo 63 * 2 := b.isLt
  show (BitVec.cast _ (b.extractLsb _ _)).toNat = _
  rw [BitVec.toNat_cast, BitVec.extractLsb_toNat, Nat.shiftRight_eq_div_pow]
  exact Nat.mod_eq_of_lt (Nat.div_lt_of_lt_mul hlt)

/-- Whether the sign is that of a negative number. -/
def isMinus : Sign → Bool
  | .negative => true
  | .positive => false

theorem isMinus_ofBitVec (b : BitVec Format.binary64.numBits) :
    isMinus (Sign.ofBitVec (unpackSign b)) = (b.toNat / twoTo 63 == 1) := by
  have hlt : (unpackSign b).toNat < 2 := (unpackSign b).isLt
  have hzero : unpackSign b = 0#1 ↔ (unpackSign b).toNat = 0 := (BitVec.toNat_inj (y := 0#1)).symm
  rw [Sign.ofBitVec, ← toNat_unpackSign]
  by_cases h : (unpackSign b).toNat = 0
  · rw [if_pos (hzero.mpr h), h]
    rfl
  · have hone : (unpackSign b).toNat = 1 := by omega
    rw [if_neg fun hb => h (hzero.mp hb), hone]
    rfl

theorem toNat_one_append (m : BitVec 52) : (1#1 ++ m).toNat = twoTo 52 + m.toNat := by
  rw [BitVec.toNat_append, ← Nat.shiftLeft_add_eq_or_of_lt m.isLt]
  rfl

/-- The parts that a double of core's model has. -/
def Parts.ofUnpacked : UnpackedFloat → Parts
  | .notANumber => .nan
  | .infinity s => .infinite (isMinus s)
  | .zero s => .finite (isMinus s) 0 (-1074)
  | .finite s m e _ => .finite (isMinus s) m e

theorem Parts.ofUnpacked_finite (s : Sign) (m : Nat) (e : Int) (hm : 0 < m) :
    ofUnpacked (.finite s m e hm) = .finite (isMinus s) m e := rfl

/-- The parts of a double are those that core's model unpacks. -/
theorem parts_eq (x : Float) : parts x = .ofUnpacked x.toModel.unpack := by
  let b : BitVec Format.binary64.numBits := x.toModel.toBits.toBitVec
  have hbits : x.toBits.toNat = b.toNat := rfl
  have hfull : unpackExponent b = -1#_ ↔ b.toNat / twoTo 52 % twoTo 11 = 2047 := by
    rw [← toNat_unpackExponent]
    exact (BitVec.toNat_inj (y := -1#_)).symm
  have hnone : unpackExponent b = 0#_ ↔ b.toNat / twoTo 52 % twoTo 11 = 0 := by
    rw [← toNat_unpackExponent]
    exact (BitVec.toNat_inj (y := 0#_)).symm
  have hempty : unpackMantissa b = 0#_ ↔ b.toNat % twoTo 52 = 0 := by
    rw [← toNat_unpackMantissa]
    exact (BitVec.toNat_inj (y := 0#_)).symm
  have hbias : (Format.binary64.exponentBias : Int) = 1023 := rfl
  show parts x = .ofUnpacked (UnpackedFloat.unpack Format.binary64 b)
  unfold parts
  simp only [hbits]
  rw [← isMinus_ofBitVec]
  unfold UnpackedFloat.unpack
  by_cases hexponent : b.toNat / twoTo 52 % twoTo 11 = 2047
  · rw [if_pos (hfull.mpr hexponent), if_pos hexponent]
    by_cases hfraction : b.toNat % twoTo 52 = 0
    · rw [if_pos (hempty.mpr hfraction), if_pos hfraction]
      rfl
    · rw [if_neg fun h => hfraction (hempty.mp h), if_neg hfraction]
      rfl
  · rw [if_neg fun h => hexponent (hfull.mp h), if_neg hexponent]
    -- The exponent zero is that of zeros, which core's model keeps apart, and of subnormal numbers.
    by_cases hsmall : b.toNat / twoTo 52 % twoTo 11 = 0
    · rw [if_pos (hnone.mpr hsmall), if_pos hsmall]
      by_cases hfraction : b.toNat % twoTo 52 = 0
      · rw [dif_pos (hempty.mpr hfraction), hfraction]
        rfl
      · rw [dif_neg fun h => hfraction (hempty.mp h), Parts.ofUnpacked_finite, toNat_unpackMantissa,
          toNat_unpackExponent, hsmall, hbias]
        rfl
    · rw [if_neg fun h => hsmall (hnone.mp h), if_neg hsmall, Parts.ofUnpacked_finite, toNat_one_append,
        toNat_unpackMantissa, toNat_unpackExponent, hbias]
      rfl

/-- What compares as equal is the same, or two zeros. -/
theorem eq_of_compare {u v : UnpackedFloat} (h : u.compare v = some .eq) :
    u ≠ .notANumber ∧ u = v ∨ ∃ s t, u = .zero s ∧ v = .zero t := by
  cases u with
  | notANumber => cases h
  | infinity s =>
    cases v with
    | notANumber => cases s <;> cases h
    | infinity t => cases s <;> cases t <;> first | exact .inl ⟨nofun, rfl⟩ | cases h
    | zero t | finite t m e hm => cases s <;> cases h
  | zero s =>
    cases v with
    | notANumber => cases h
    | zero t => exact .inr ⟨s, t, rfl, rfl⟩
    | infinity t | finite t m e hm => cases t <;> cases h
  | finite s m e hm =>
    cases v with
    | notANumber | zero t => cases s <;> cases h
    | infinity t => cases s <;> cases t <;> cases h
    | finite t m' e' hm' =>
      have hsame : s = t ∧ (compare e e').then (compare m m') = .eq := by
        cases s <;> cases t <;>
          first
          | cases h
          | exact ⟨rfl, Ordering.swap_eq_eq.mp (Option.some.inj h)⟩
          | exact ⟨rfl, Option.some.inj h⟩
      obtain ⟨rfl, horder⟩ := hsame
      obtain ⟨he, hm⟩ := Ordering.then_eq_eq.mp horder
      obtain rfl := Std.LawfulEqCmp.eq_of_compare he
      obtain rfl := Std.LawfulEqCmp.eq_of_compare hm
      exact .inl ⟨nofun, rfl⟩

/-- A zero of either sign. -/
def Parts.IsZero (p : Parts) : Prop := ∃ negative e, p = .finite negative 0 e

/-- Zeros are equal. -/
theorem beq_of_isZero (hx : (parts x).IsZero) (hy : (parts y).IsZero) : (x == y) = true := by
  have hzero : ∀ {x : Float}, (parts x).IsZero → ∃ s, x.toModel.unpack = .zero s := by
    rintro x ⟨negative, e, hparts⟩
    rw [parts_eq] at hparts
    cases hx : x.toModel.unpack with
    | zero s => exact ⟨s, rfl⟩
    | notANumber | infinity s =>
      rw [hx] at hparts
      cases hparts
    | finite s m e hm =>
      rw [hx] at hparts
      cases hparts
      exact absurd hm (Nat.lt_irrefl 0)
  obtain ⟨s, hs⟩ := hzero hx
  obtain ⟨t, ht⟩ := hzero hy
  show (x.toModel.unpack.compare y.toModel.unpack == some .eq) = true
  rw [hs, ht]
  rfl

/-- The bits of a number that has these parts. -/
def Parts.bits : Parts → Nat
  | .nan => 0
  | .infinite negative => negative.toNat * twoTo 63 + 2047 * twoTo 52
  | .finite negative m e =>
    negative.toNat * twoTo 63 + if m < twoTo 52 then m else (e + 1075).toNat * twoTo 52 + (m - twoTo 52)

theorem toNat_toBits (h : parts x ≠ .nan) : x.toBits.toNat = (parts x).bits := by
  have h11 : twoTo 11 = 2048 := by decide
  have h52 : twoTo 52 = 4503599627370496 := by decide
  have h63 : twoTo 63 = 9223372036854775808 := by decide
  have hlt : x.toBits.toNat < 18446744073709551616 := x.toBits.toNat_lt
  have hsign : (x.toBits.toNat / 9223372036854775808 == 1).toNat =
      x.toBits.toNat / 9223372036854775808 := by
    rcases (by omega : x.toBits.toNat / 9223372036854775808 = 0 ∨
      x.toBits.toNat / 9223372036854775808 = 1) with hs | hs <;> rw [hs] <;> rfl
  simp only [parts, h11, h52, h63] at h ⊢
  by_cases hexponent : x.toBits.toNat / 4503599627370496 % 2048 = 2047
  · rw [if_pos hexponent] at h ⊢
    by_cases hfraction : x.toBits.toNat % 4503599627370496 = 0
    · simp only [if_pos hfraction, Parts.bits, h52, h63, hsign]
      omega
    · rw [if_neg hfraction] at h
      exact absurd rfl h
  · rw [if_neg hexponent]
    by_cases hsmall : x.toBits.toNat / 4503599627370496 % 2048 = 0
    · simp only [if_pos hsmall, Parts.bits, h52, h63, hsign]
      split <;> omega
    · simp only [if_neg hsmall, Parts.bits, h52, h63, hsign]
      split <;> omega

/-- The parts of a number say which double it is. -/
theorem eq_of_parts_eq (h : parts x = parts y) (hx : parts x ≠ .nan) : x = y := by
  have hbits : x.toBits.toNat = y.toBits.toNat := by
    rw [toNat_toBits hx, h, ← toNat_toBits (h ▸ hx)]
  have hmodel : x.toModel.toBits = y.toModel.toBits := UInt64.toNat_inj.mp hbits
  cases x with
  | ofModel m =>
    cases y with
    | ofModel m' =>
      cases m
      cases m'
      cases hmodel
      rfl

/-- Doubles that are equal are the same, or zeros of whatever signs. -/
theorem eq_or_isZero_of_beq (h : (x == y) = true) : x = y ∨ (parts x).IsZero ∧ (parts y).IsZero := by
  have hcompare : x.toModel.unpack.compare y.toModel.unpack = some .eq := beq_iff_eq.mp h
  rcases eq_of_compare hcompare with ⟨hnumber, hsame⟩ | ⟨s, t, hx, hy⟩
  · refine .inl (eq_of_parts_eq ?_ fun hnan => hnumber ?_)
    · rw [parts_eq, parts_eq, hsame]
    · rw [parts_eq] at hnan
      cases hx : x.toModel.unpack with
      | notANumber => rfl
      | infinity | zero | finite =>
        rw [hx] at hnan
        cases hnan
  · rw [parts_eq, parts_eq, hx, hy]
    exact .inr ⟨⟨_, _, rfl⟩, ⟨_, _, rfl⟩⟩

theorem beq_zero_iff : (x == 0) = true ↔ (parts x).IsZero := by
  have hzero : (parts 0).IsZero := ⟨false, -1074, by decide +kernel⟩
  refine ⟨fun h => ?_, fun h => beq_of_isZero h hzero⟩
  rcases eq_or_isZero_of_beq h with rfl | ⟨hx, -⟩
  · exact hzero
  · exact hx

end Binary64

end Scriptlet
