import Mathlib.Algebra.BigOperators.Fin
import Mathlib.Data.Nat.ModEq
import Mathlib.Tactic.Ring
import Scriptlet.Text.Hash

/-
  The number for a text.

  A step of the hash shifts, subtracts and masks. This is Horner's rule at 31 on 32 bits: from the state 0 a
  text leads to its polynomial in 31 modulo 2 ^ 32, and from any state to that state shifted in base 31 plus
  the polynomial, so that texts may be taken in one after the other. The hash is the state as a signed word
  without its sign. Of the signed words only the least one, -2 ^ 31, has a size that is no signed word.

  What is proved:
    1. `hashStep_eq` — what a step does.
    2. `foldl_hashStep` — what a text does to a state.
    3. `signedWord_eq_toInt`, `natAbs_signedWord_le` — the sign of a state, and its size.
    4. `hash_polynomial` — the hash of every text, its bounds, and the state of texts in a row.
-/

namespace Scriptlet.Text

variable {state : Nat}

/-- The polynomial of a text in 31, the first code point being the leading coefficient. -/
def polynomial (t : Text) : Nat := ∑ i : Fin t.length, t[i].val * 31 ^ (t.length - (i + 1))

theorem polynomial_cons (c : CodePoint) (t : Text) :
    polynomial (c :: t) = c.val * 31 ^ t.length + polynomial t := by
  have hsplit := Fin.sum_univ_succ fun i : Fin (t.length + 1) =>
    (c :: t)[i].val * 31 ^ (t.length + 1 - (i + 1))
  refine hsplit.trans (congrArg _ (Finset.sum_congr rfl fun i _ => ?_))
  rw [Fin.val_succ, Nat.add_sub_add_right]
  rfl

/-! ## States -/

/-- A step multiplies the state by 31 and adds the code point, on 32 bits. -/
theorem hashStep_eq (state : Nat) (c : CodePoint) : hashStep state c = (state * 31 + c.val) % 2 ^ 32 := by
  have hmask : 0xFFFFFFFF = 2 ^ 32 - 1 := rfl
  have hshift : (state <<< 5) - state = state * 31 := by
    rw [Nat.shiftLeft_eq]
    omega
  rw [hashStep, hmask, Nat.and_two_pow_sub_one_eq_mod, hshift]

theorem hashStep_lt (state : Nat) (c : CodePoint) : hashStep state c < 2 ^ 32 := by
  rw [hashStep_eq]
  exact Nat.mod_lt _ (Nat.two_pow_pos 32)

/-- A text shifts the state in base 31 by its length and adds its polynomial, on 32 bits. -/
theorem foldl_hashStep (h : state < 2 ^ 32) (t : Text) :
    t.foldl hashStep state = (state * 31 ^ t.length + polynomial t) % 2 ^ 32 := by
  induction t generalizing state with
  | nil =>
    rw [List.length_nil, Nat.pow_zero, Nat.mul_one]
    exact (Nat.mod_eq_of_lt h).symm
  | cons c rest ih =>
    -- The rest is taken in from the state behind the first code point, which is on 32 bits again.
    calc rest.foldl hashStep (hashStep state c)
        = ((state * 31 + c.val) % 2 ^ 32 * 31 ^ rest.length + polynomial rest) % 2 ^ 32 := by
          rw [ih (hashStep_lt state c), hashStep_eq]
      _ = ((state * 31 + c.val) * 31 ^ rest.length + polynomial rest) % 2 ^ 32 :=
          ((Nat.mod_modEq _ _).mul_right _).add_right _
      _ = (state * 31 ^ (rest.length + 1) + polynomial (c :: rest)) % 2 ^ 32 := by
          rw [polynomial_cons]
          exact congrArg (· % 2 ^ 32) (by ring)

theorem hashState_eq (t : Text) : hashState t = polynomial t % 2 ^ 32 := by
  rw [hashState, foldl_hashStep (Nat.two_pow_pos 32), Nat.zero_mul, Nat.zero_add]

theorem hashState_lt (t : Text) : hashState t < 2 ^ 32 := by
  rw [hashState_eq]
  exact Nat.mod_lt _ (Nat.two_pow_pos 32)

/-- The state behind two texts comes from the states behind each of them. -/
theorem hashState_append (s t : Text) :
    hashState (s ++ t) = (hashState s * 31 ^ t.length + hashState t) % 2 ^ 32 := by
  have hrest : t.foldl hashStep (hashState s) = _ := foldl_hashStep (hashState_lt s) t
  rw [hashState, List.foldl_append, ← hashState, hrest, hashState_eq t, Nat.add_mod_mod]

/-! ## Signed words -/

theorem signedWord_of_lt (h : state < 2 ^ 31) : signedWord state = state := if_neg (Nat.not_le.mpr h)

theorem signedWord_of_le (h : 2 ^ 31 ≤ state) : signedWord state = state - 2 ^ 32 := if_pos h

/-- A state is read in two's complement. -/
theorem signedWord_eq_toInt (h : state < 2 ^ 32) : signedWord state = (BitVec.ofNat 32 state).toInt := by
  rw [BitVec.toInt_eq_toNat_cond, BitVec.toNat_ofNat, Nat.mod_eq_of_lt h]
  rcases Nat.lt_or_ge state (2 ^ 31) with hlow | hhigh
  · rw [signedWord_of_lt hlow, if_pos (by omega)]
  · rw [signedWord_of_le hhigh, if_neg (by omega)]
    rfl

/-- The least signed word has the greatest size, one more than the greatest signed word. -/
theorem natAbs_signedWord_le (h : state < 2 ^ 32) : (signedWord state).natAbs ≤ 2 ^ 31 := by
  rcases Nat.lt_or_ge state (2 ^ 31) with hlow | hhigh
  · rw [signedWord_of_lt hlow]
    exact Nat.le_of_lt hlow
  · rw [signedWord_of_le hhigh]
    omega

/-! ## Every text -/

/-- The hash of a text is the size of its polynomial in 31 as a signed word of 32 bits, and so at most
2 ^ 31. The state behind two texts is that behind the first, shifted in base 31 by the length of the second,
plus that behind the second, on 32 bits. -/
theorem hash_polynomial :
    (∀ t : Text, hashState t = polynomial t % 2 ^ 32 ∧
      hash t = (BitVec.ofNat 32 (polynomial t % 2 ^ 32)).toInt.natAbs ∧ hash t ∈ Set.Icc 0 (2 ^ 31)) ∧
    ∀ s t : Text, hashState (s ++ t) = (hashState s * 31 ^ t.length + hashState t) % 2 ^ 32 := by
  refine ⟨fun t => ⟨hashState_eq t, ?_, Nat.zero_le _, natAbs_signedWord_le (hashState_lt t)⟩, hashState_append⟩
  rw [hash, signedWord_eq_toInt (hashState_lt t), hashState_eq]

/-- The greatest hash is that of the least signed word. -/
example : hash "polygenelubricants" = 2 ^ 31 := by decide +kernel

end Scriptlet.Text
