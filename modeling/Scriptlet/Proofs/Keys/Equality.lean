import Scriptlet.Proofs.Doubles
import Scriptlet.Proofs.Keys
import Scriptlet.Value.Equality

/-
  Equal values are the same key.

  Values are compared by what they are, numbers by their exact values whatever their types; keys are
  compared by their parts. So the key of a value has to be the same for all that is equal to it: the
  integer of a double, the double of a complex number, one zero for both signs.

  What is proved:
    1. `KeyPart.ofFloat_congr`, `KeyPart.ofFloat_of_compareIntFloat` and `KeyPart.ofComplex_congr` — equal
       numbers have the same key part.
    2. `Heap.key_of_equal` — equal values that have keys have the same key.
-/

namespace Scriptlet

open Binary64

/-! ## Numbers -/

namespace KeyPart

variable {x y : Float} {n : Int}

/-- A double with the value of an integer is that integer as a key. -/
theorem ofFloat_of_compareInt {negative : Bool} {m : Nat} {e : Int}
    (hparts : parts x = .finite negative m e) (hn : compareInt n negative m e = .eq) :
    ofFloat x = .int n := by
  have hvalue : isIntegral x = true ∧ floor? x = some n := by
    unfold isIntegral floor?
    simp only [hparts]
    unfold compareInt at hn
    unfold floorParts
    by_cases he : e ≥ 0
    · rw [if_pos he] at hn ⊢
      rw [Std.LawfulEqCmp.eq_of_compare hn]
      exact ⟨by rw [decide_eq_true he, Bool.true_or], rfl⟩
    · rw [if_neg he] at hn ⊢
      have hsigned := Std.LawfulEqCmp.eq_of_compare hn
      have hpos : 0 < twoTo (-e).toNat := Nat.pow_pos (by decide)
      refine ⟨?_, ?_⟩
      · have hm : n.natAbs * twoTo (-e).toNat = m := by
          rw [← natAbs_signed negative m, ← hsigned, Int.natAbs_mul, Int.natAbs_natCast]
        rw [← hm, Nat.mul_mod_left, Bool.or_eq_true]
        exact .inr rfl
      · rw [← hsigned, Int.mul_fdiv_cancel _ (by omega)]
  unfold ofFloat
  rw [if_pos hvalue.1, hvalue.2]

theorem ofFloat_of_isZero (hx : (parts x).IsZero) : ofFloat x = .int 0 := by
  obtain ⟨negative, e, hparts⟩ := hx
  refine ofFloat_of_compareInt hparts ?_
  unfold compareInt
  cases negative <;> simp

theorem ofFloat_congr (h : (x == y) = true) : ofFloat x = ofFloat y := by
  rcases eq_or_isZero_of_beq h with rfl | ⟨hx, hy⟩
  · rfl
  · rw [ofFloat_of_isZero hx, ofFloat_of_isZero hy]

theorem ofFloat_of_compareIntFloat (h : Number.compareIntFloat n x = some .eq) : ofFloat x = .int n := by
  unfold Number.compareIntFloat at h
  split at h
  · cases h
  · rename_i negative _
    cases negative <;> cases h
  · rename_i hparts
    exact ofFloat_of_compareInt hparts (Option.some.inj h)

theorem ofComplex_congr {re im re' im' : Float} (hre : (re == re') = true) (him : (im == im') = true) :
    ofComplex re im = ofComplex re' im' := by
  unfold ofComplex
  by_cases hreal : (im == 0) = true
  · have hreal' : (im' == 0) = true := by
      rcases eq_or_isZero_of_beq him with rfl | ⟨-, hzero⟩
      · exact hreal
      · exact beq_zero_iff.mpr hzero
    rw [if_pos hreal, if_pos hreal', ofFloat_congr hre]
  · have hsame : im = im' :=
      (eq_or_isZero_of_beq him).resolve_right fun hzero => hreal (beq_zero_iff.mpr hzero.1)
    subst hsame
    rw [if_neg hreal, if_neg hreal]
    rcases eq_or_isZero_of_beq hre with rfl | ⟨hzero, hzero'⟩
    · rfl
    · rw [if_pos (beq_zero_iff.mpr hzero), if_pos (beq_zero_iff.mpr hzero')]

end KeyPart

theorem Number.beq_of_compareFloats {x y : Float} (h : compareFloats x y = some .eq) :
    (x == y) = true := by
  unfold compareFloats at h
  split at h
  · cases h
  · split at h
    · cases h
    · split at h
      · assumption
      · cases h

/-! ## Values -/

namespace Heap

variable {h : Heap} {a b : Value}

theorem keyWithin_of_integer? {n : Int} (ha : a.integer? = some n) (k : Nat) :
    h.keyWithin (k + 1) a = .ok [.int n] := by
  cases a with
  | int m | bool m =>
    cases ha
    rfl
  | _ => cases ha

/-- Real numbers of the same value have the same key. -/
theorem exists_part_of_compareNumbers (hsame : a.compareNumbers? b = some (some .eq)) :
    ∃ part, ∀ k, h.keyWithin (k + 1) a = .ok [part] ∧ h.keyWithin (k + 1) b = .ok [part] := by
  unfold Value.compareNumbers? at hsame
  split at hsame
  case h_8 x y =>
    have hxy := KeyPart.ofFloat_congr (Number.beq_of_compareFloats (Option.some.inj hsame))
    refine ⟨KeyPart.ofFloat x, fun k => ⟨rfl, ?_⟩⟩
    rw [hxy]
    rfl
  case h_9 x b _ _ =>
    obtain ⟨n, hb, horder⟩ := Option.map_eq_some_iff.mp hsame
    obtain ⟨o, ho, hswap⟩ := Option.map_eq_some_iff.mp horder
    rw [Ordering.swap_eq_eq.mp hswap] at ho
    refine ⟨.int n, fun k => ⟨?_, keyWithin_of_integer? hb k⟩⟩
    rw [← KeyPart.ofFloat_of_compareIntFloat ho]
    rfl
  case h_10 a y _ _ =>
    obtain ⟨n, ha, horder⟩ := Option.map_eq_some_iff.mp hsame
    refine ⟨.int n, fun k => ⟨keyWithin_of_integer? ha k, ?_⟩⟩
    rw [← KeyPart.ofFloat_of_compareIntFloat horder]
    rfl
  case h_11 =>
    split at hsame
    · rename_i m n ha hb
      obtain rfl := Std.LawfulEqCmp.eq_of_compare (Option.some.inj (Option.some.inj hsame))
      exact ⟨.int m, fun k => ⟨keyWithin_of_integer? ha k, keyWithin_of_integer? hb k⟩⟩
    · cases hsame
  -- The other arms are those of NaN, which is equal to nothing.
  all_goals cases hsame

/-- A complex number that equals a value has its key. -/
theorem exists_part_of_complexEquals {re im : Float} (hsame : b.complexEquals re im = true) :
    ∃ part, ∀ k, h.keyWithin (k + 1) (.complex re im) = .ok [part] ∧
      h.keyWithin (k + 1) b = .ok [part] := by
  unfold Value.complexEquals at hsame
  split at hsame
  · obtain ⟨hre, him⟩ := Bool.and_eq_true_iff.mp hsame
    refine ⟨_, fun k => ⟨rfl, ?_⟩⟩
    rw [KeyPart.ofComplex_congr hre him]
    rfl
  · obtain ⟨him, hreal⟩ := Bool.and_eq_true_iff.mp hsame
    obtain ⟨part, hpart⟩ := exists_part_of_compareNumbers (h := h) (beq_iff_eq.mp hreal)
    refine ⟨part, fun k => ⟨?_, (hpart k).2⟩⟩
    rw [← (hpart k).1]
    show Except.ok [KeyPart.ofComplex re im] = .ok [KeyPart.ofFloat re]
    rw [KeyPart.ofComplex, if_pos him]

/-! ## Tuples -/

theorem forall_of_allHold {α : Type} {test : α → Except Fault Bool} {as : List α}
    (hall : allHold test as = .ok true) : ∀ a ∈ as, test a = .ok true := by
  induction as with
  | nil => exact List.forall_mem_nil _
  | cons a as ih =>
    unfold allHold at hall
    cases ha : test a with
    | error fault =>
      rw [ha] at hall
      cases hall
    | ok holds =>
      rw [ha] at hall
      cases holds with
      | false => cases hall
      | true => exact List.forall_mem_cons.mpr ⟨ha, ih hall⟩

/-- Lists of values are the same keys if each value is the same key as the other at its place. -/
theorem mapM_eq_of_zip {α β ε : Type} {f g : α → Except ε β} {xs ys : List α} {as bs : List β}
    (hlength : xs.length = ys.length) (hxs : xs.mapM f = .ok as) (hys : ys.mapM g = .ok bs)
    (hsame : ∀ p ∈ xs.zip ys, ∀ a b, f p.1 = .ok a → g p.2 = .ok b → a = b) : as = bs := by
  induction xs generalizing ys as bs with
  | nil =>
    cases List.length_eq_zero_iff.mp hlength.symm
    cases hxs
    cases hys
    rfl
  | cons x xs ih =>
    cases ys with
    | nil => cases hlength
    | cons y ys =>
      obtain ⟨hfirst, hrest⟩ := List.forall_mem_cons.mp hsame
      obtain ⟨a, as, ha, has, rfl⟩ := exists_of_mapM_cons hxs
      obtain ⟨b, bs, hb, hbs, rfl⟩ := exists_of_mapM_cons hys
      rw [hfirst a b ha hb, ih (Nat.succ.inj hlength) has hbs hrest]

/-- What a tuple with a key holds are keys. -/
theorem exists_parts_of_key_tuple {r : Ref} {k : Nat} {key : Key}
    (hkey : h.keyWithin (k + 1) (.tuple r) = .ok key) :
    ∃ parts, (h.tuple r).toList.mapM (h.keyWithin k) = .ok parts ∧
      key = .tuple (h.tuple r).size :: parts.flatten := by
  obtain ⟨items, parts, hitems, hparts, rfl⟩ := keyWithin_tuple_iff.mp hkey
  have htuple : h.tuple r = items := by
    rw [tuple, Array.getD_eq_getD_getElem?, hitems]
    rfl
  rw [htuple]
  exact ⟨parts, hparts, rfl⟩

/-- Equal values are the same key. -/
theorem key_of_equal {n k l : Nat} {key key' : Key} (hequal : h.equal n a b = .ok true)
    (ha : h.keyWithin k a = .ok key) (hb : h.keyWithin l b = .ok key') : key = key' := by
  -- On the levels of the comparison; the keys may have been made with other levels, each with its own.
  induction n generalizing a b k l key key' with
  | zero => cases hequal
  | succ n ih =>
    obtain ⟨k, rfl⟩ : ∃ m, k = m + 1 := by
      cases k with
      | zero => cases ha
      | succ k => exact ⟨k, rfl⟩
    obtain ⟨l, rfl⟩ : ∃ m, l = m + 1 := by
      cases l with
      | zero => cases hb
      | succ l => exact ⟨l, rfl⟩
    have hpart : (∃ part, ∀ m, h.keyWithin (m + 1) a = .ok [part] ∧ h.keyWithin (m + 1) b = .ok [part]) →
        key = key' := by
      rintro ⟨part, hpart⟩
      rw [(hpart k).1] at ha
      rw [(hpart l).2] at hb
      exact Except.ok.inj (ha.symm.trans hb)
    unfold equal at hequal
    dsimp only at hequal
    split at hequal
    case h_1 re im b => exact hpart (exists_part_of_complexEquals (Except.ok.inj hequal))
    case h_2 a re im _ =>
      obtain ⟨part, hparts⟩ := exists_part_of_complexEquals (h := h) (Except.ok.inj hequal)
      exact hpart ⟨part, fun m => (hparts m).symm⟩
    case h_4 r s =>
      -- Tuples are equal if they are as long and their elements are the same or equal.
      obtain ⟨parts, hparts, rfl⟩ := exists_parts_of_key_tuple ha
      obtain ⟨parts', hparts', rfl⟩ := exists_parts_of_key_tuple hb
      split at hequal
      · rename_i hsize
        have hitems := forall_of_allHold hequal
        rw [mapM_eq_of_zip hsize hparts hparts' fun p hp x y hx hy => ?_, hsize]
        have hsame := hitems p hp
        split at hsame
        · rename_i heq
          rw [← heq] at hy
          exact keyWithin_unique hx hy
        · exact ih hsame hx hy
      · cases hequal
    case h_7 =>
      split at hequal
      · rename_i order horder
        have hsame : order = some .eq := beq_iff_eq.mp (Except.ok.inj hequal)
        rw [hsame] at horder
        exact hpart (exists_part_of_compareNumbers horder)
      · obtain rfl := beq_iff_eq.mp (Except.ok.inj hequal)
        exact keyWithin_unique ha hb
    -- Lists, mappings and sets have no key.
    all_goals cases ha

end Heap

end Scriptlet
