import Scriptlet.Proofs.Caps.Running

/-
  The limit on the bits of integers.

  Bits are estimated where integers are multiplied or raised to a power; sums, conversions and
  functions that make integers are left open.

  What is proved:
    1. `Guard.passes_bits_iff` — all integers of a run are within the limit, at every point of it, just
       when those are that come of what is left open; products and powers beyond the limit are refused.
    2. `Guard.not_passes_bindings_sum` — a sum of two integers within the limit may be beyond it.
-/

namespace Scriptlet

variable {limits : Limits} {v w : Value} {m n : Int}

/-- The fault of an integer that would have too many bits. -/
def Limits.bitsFault (limits : Limits) : Fault :=
  .limit ("integer result would exceed " ++ Text.ofInt limits.maxIntBits ++ " bits")

/-! ## What is refused -/

namespace Operation

open Run

theorem requireOperands_integers (op : BinaryOp) (hm : v.integer? = some m) (hn : w.integer? = some n) :
    requireOperands op v w = .ok () := by
  cases v <;> cases hm <;> cases w <;> cases hn <;> rfl

theorem requireBits_error {bits : Nat} (h : limits.maxIntBits < bits) :
    requireBits limits bits = .error limits.bitsFault := by
  unfold requireBits
  rw [if_pos h]
  rfl

theorem bitEstimate_integers (op : BinaryOp) (hm : v.integer? = some m) (hn : w.integer? = some n) :
    bitEstimate op v w = bitEstimate op (.int m) (.int n) := by
  unfold bitEstimate
  rw [hm, hn]
  rfl

/-- An operator on integers whose estimate is beyond the limit is refused. -/
theorem binary_refused (room : Nat) {op : BinaryOp} (s : State) (hm : v.integer? = some m)
    (hn : w.integer? = some n) (h : limits.maxIntBits < bitEstimate op (.int m) (.int n)) :
    binary limits room op v w s = .error limits.bitsFault s := by
  unfold binary
  rw [bind_apply, liftM_apply, requireOperands_integers op hm hn]
  simp only
  rw [bind_apply, liftM_apply, bitEstimate_integers op hm hn, requireBits_error h]

/-- A product beyond the limit is estimated to be beyond it. -/
theorem lt_mul_estimate (h : limits.maxIntBits < Integer.bitLength (m * n)) :
    limits.maxIntBits < bitEstimate .mul (.int m) (.int n) :=
  Int.lt_of_lt_of_le h (Int.ofNat_le.mpr (Integer.bitLength_mul_le m n))

/-- A power beyond the limit is estimated to be beyond it, as long as one bit is within the limit. -/
theorem lt_pow_estimate (hone : 1 ≤ limits.maxIntBits) (hn : 0 ≤ n)
    (h : limits.maxIntBits < Integer.bitLength (m ^ n.toNat)) :
    limits.maxIntBits < bitEstimate .pow (.int m) (.int n) := by
  have hlarge : 1 < (m ^ n.toNat).natAbs := by
    refine Nat.lt_of_not_le fun hsmall => ?_
    have hbits : Integer.bitLength (m ^ n.toNat) ≤ 1 :=
      Integer.bitLength_le_iff.mpr (Nat.lt_succ_of_le hsmall)
    omega
  have hbase : 1 < m.natAbs :=
    Nat.lt_of_not_le fun hsmall => Nat.not_lt.mpr (Integer.natAbs_pow_le_one n.toNat hsmall) hlarge
  have hexponent : 0 < n := by
    rcases Int.lt_or_eq_of_le hn with hpos | rfl
    · exact hpos
    · exact absurd hlarge (by simp)
  exact Int.lt_of_lt_of_le h (Int.ofNat_le.mpr (Integer.bitLength_pow_le hexponent hbase))

end Operation

theorem Value.requireNumber_integer {context : Text} (hm : v.integer? = some m) :
    v.requireNumber context = .ok () := by
  cases v <;> cases hm <;> rfl

theorem Reckoning.power_refused (s : State) (hm : v.integer? = some m) (hn : w.integer? = some n)
    (h : limits.maxIntBits < Operation.bitEstimate .pow (.int m) (.int n)) :
    power limits v w .none s = .error limits.bitsFault s := by
  unfold power
  rw [Run.bind_apply, Run.liftM_apply, Value.requireNumber_integer hm]
  simp only
  rw [Run.bind_apply, Run.liftM_apply, Value.requireNumber_integer hn]
  simp only
  unfold plainPower
  rw [Run.bind_apply, Run.liftM_apply, Operation.bitEstimate_integers .pow hm hn,
    Operation.requireBits_error h]

/-! ## Runs -/

/-- Limits on sources of 66 code points and on integers of 264 bits. -/
def Limits.narrowBits : Limits := ⟨66, 50, 1000000, 256, 1000000, 264⟩

namespace Guard

/-- Both summands have 264 bits, and their sum has one more. -/
theorem not_passesSource_sum :
    ¬ (bindings (.bits 264)).PassesSource .narrowBits "x = 63 ** 44 + 63 ** 44" (.initial ⟨0⟩ 0) := by
  have hleaves : Execution.leaves? .narrowBits "x = 63 ** 44 + 63 ** 44" (.initial ⟨0⟩ 0) "x" =
      some (.int (63 ^ 44 + 63 ^ 44)) := by
    decide +kernel
  refine not_passesSource (by decide) (by decide) hleaves fun h hadmits => ?_
  have hbits : Integer.bitLength (63 ^ 44 + 63 ^ 44) ≤ (264 : Int) := hadmits.1 _ rfl
  exact absurd hbits (by decide +kernel)

/-- At every point of a run all integers are within the limit, just when all of them are behind what is
left open: sums and differences, attributes, literals longer than a source, and the functions that make
integers. Then in particular all integers are that are bound at any depth. Products and powers beyond
the limit are refused. -/
theorem passes_bits_iff (limits : Limits) (h : 4 * limits.maxSourceLength ≤ limits.maxIntBits)
    (clock : Moment) (seed : Nat) (source : Text) :
    ((fits (.bits limits.maxIntBits)).PassesSource limits source (.initial clock seed) ↔
        (growth limits (.bits limits.maxIntBits)).PassesSource limits source
          (.initial clock seed)) ∧
      ((growth limits (.bits limits.maxIntBits)).PassesSource limits source (.initial clock seed) →
        (bindings (.bits limits.maxIntBits)).PassesSource limits source (.initial clock seed)) ∧
      ∀ (room : Nat) (v w : Value) (m n : Int) (s : State), 0 < limits.maxSourceLength →
        v.integer? = some m → w.integer? = some n →
        (limits.maxIntBits < Integer.bitLength (m * n) →
          Operation.binary limits room .mul v w s = .error limits.bitsFault s) ∧
        (0 ≤ n → limits.maxIntBits < Integer.bitLength (m ^ n.toNat) →
          Operation.binary limits room .pow v w s = .error limits.bitsFault s ∧
            Reckoning.power limits v w .none s = .error limits.bitsFault s) := by
  have hcap : 0 < limits.maxSourceLength → Cap.IsOf limits (.bits limits.maxIntBits) :=
    fun hsource => .bits hsource h
  refine ⟨⟨?_, ?_⟩, ?_, fun room v w m n s hsource hm hn => ⟨fun hmul => ?_, fun hpos hpow => ?_⟩⟩
  · exact PassesSource.of hcap fits_catches fun _ => growth_accepts
  · exact PassesSource.of hcap growth_catches fun _ => fits_accepts
  · exact PassesSource.of hcap growth_catches bindings_accepts
  · exact Operation.binary_refused room s hm hn (Operation.lt_mul_estimate hmul)
  · have hestimate := Operation.lt_pow_estimate (by omega) hpos hpow
    exact ⟨Operation.binary_refused room s hm hn hestimate, Reckoning.power_refused s hm hn hestimate⟩

/-- Not all that comes of the sum is within the limit; a power with one bit more is refused. -/
theorem passes_bits_iff_sum :
    4 * Limits.narrowBits.maxSourceLength ≤ Limits.narrowBits.maxIntBits ∧
      ¬ (growth .narrowBits (.bits 264)).PassesSource .narrowBits "x = 63 ** 44 + 63 ** 44"
        (.initial ⟨0⟩ 0) ∧
      Operation.binary .narrowBits 0 .pow (.int 2) (.int 264) (.initial ⟨0⟩ 0) =
        .error (.limit "integer result would exceed 264 bits") (.initial ⟨0⟩ 0) := by
  have h : 4 * Limits.narrowBits.maxSourceLength ≤ Limits.narrowBits.maxIntBits := by decide
  obtain ⟨-, hbindings, hrefused⟩ := passes_bits_iff .narrowBits h ⟨0⟩ 0 "x = 63 ** 44 + 63 ** 44"
  refine ⟨h, fun hgrowth => not_passesSource_sum (hbindings hgrowth), ?_⟩
  have hpower := hrefused 0 (.int 2) (.int 264) 2 264 (.initial ⟨0⟩ 0) (by decide) rfl rfl
  exact (hpower.2 (by decide) (by decide +kernel)).1

/-- The limits let no literal of a source exceed 264 bits, and yet an integer is bound that does. -/
theorem not_passes_bindings_sum :
    4 * Limits.narrowBits.maxSourceLength ≤ Limits.narrowBits.maxIntBits ∧
      ¬ (bindings (.bits Limits.narrowBits.maxIntBits)).PassesSource .narrowBits
        "x = 63 ** 44 + 63 ** 44" (.initial ⟨0⟩ 0) :=
  ⟨by decide, not_passesSource_sum⟩

end Guard

end Scriptlet
