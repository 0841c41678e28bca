import Scriptlet.Proofs.Caps.Sizes

/-
  Ranges.

  A range is the arithmetic progression from a start in steps, as far as its terms stand before a stop.
  Its number of terms is counted before any of them is made, and a count that is no index any more stops
  the call before the limit on collections is tested.

  What is proved:
    1. `lt_rangeCount_iff` — the count is that of the terms before the stop, whatever the directions.
    2. `IsProgression.unique`, `isProgression_progression` — there is one such progression, and the terms
       that a range makes are its terms.
    3. `call_range_isCapped_iff` — a range is exact or refused at the limit just when its progression has
       fewer terms than there are indices.
    4. `not_isCapped_wide` — a range that is far beyond the limit and is not refused at it.
-/

namespace Scriptlet

namespace Reckoning

variable {start stop step : Int}

/-! ## Progressions -/

/-- A term stands before the stop, in the direction of the steps. -/
def IsBefore (step stop term : Int) : Prop := if 0 < step then term < stop else stop < term

/-- The terms are those of the progression from `start` by `step` that stand strictly before `stop`: each
of them does, and the one that would come next does not. -/
structure IsProgression (start stop step : Int) (terms : List Int) : Prop where
  term : ∀ (i : Nat) (hi : i < terms.length), terms[i] = start + i * step
  before : ∀ (i : Nat), i < terms.length → IsBefore step stop (start + i * step)
  ended : ¬ IsBefore step stop (start + terms.length * step)

/-- Two progressions between the same bounds are the same, since the shorter one ends where the longer one
goes on. -/
theorem IsProgression.unique {terms others : List Int} (h : IsProgression start stop step terms)
    (h' : IsProgression start stop step others) : terms = others := by
  have hlength : terms.length = others.length := by
    rcases Nat.lt_trichotomy terms.length others.length with hlt | heq | hgt
    · exact absurd (h'.before _ hlt) h.ended
    · exact heq
    · exact absurd (h.before _ hgt) h'.ended
  refine List.ext_getElem hlength fun i hi hi' => ?_
  rw [h.term i hi, h'.term i hi']

/-- Of steps upwards, as many stay below the stop as the width holds. -/
theorem lt_count_iff (width : Int) (hstep : 0 < step) (i : Nat) :
    i < ((width - 1) / step + 1).toNat ↔ (i : Int) * step < width := by
  have hquotient : (i : Int) ≤ (width - 1) / step ↔ (i : Int) * step ≤ width - 1 :=
    Int.le_ediv_iff_mul_le hstep
  omega

theorem lt_rangeCount_iff (hstep : step ≠ 0) (i : Nat) :
    i < rangeCount start stop step ↔ IsBefore step stop (start + i * step) := by
  unfold rangeCount IsBefore
  by_cases hpos : 0 < step
  · rw [if_pos hpos, if_pos hpos]
    have hcount := lt_count_iff (stop - start) hpos i
    have hterm : 0 ≤ (i : Int) * step := Int.mul_nonneg (Int.natCast_nonneg i) (Int.le_of_lt hpos)
    split <;> omega
  · rw [if_neg hpos, if_neg hpos]
    have hneg : 0 < -step := by omega
    have hcount := lt_count_iff (start - stop) hneg i
    have hterm : 0 ≤ (i : Int) * -step := Int.mul_nonneg (Int.natCast_nonneg i) (Int.le_of_lt hneg)
    have hsign : (i : Int) * -step = -(i * step) := Int.mul_neg _ _
    split <;> omega

theorem length_progression (start step : Int) (count : Nat) :
    (progression start step count).length = count := by
  rw [progression, List.length_map, List.length_range]

theorem isProgression_progression (hstep : step ≠ 0) :
    IsProgression start stop step (progression start step (rangeCount start stop step)) where
  term i hi := by simp only [progression, List.getElem_map, List.getElem_range]
  before i hi := by
    rw [length_progression] at hi
    exact (lt_rangeCount_iff hstep i).mp hi
  ended := by
    rw [length_progression, ← lt_rangeCount_iff hstep]
    exact Nat.lt_irrefl _

/-! ## Calls -/

/-- The bounds and the step that arguments give to a range: a stop, a start and a stop, or all three,
each of them an integer or a truth value. -/
inductive GivesBounds : List Value → Int → Int → Int → Prop
  | stop {v : Value} {n : Int} : v.integer? = some n → GivesBounds [v] 0 n 1
  | startStop {v w : Value} {m n : Int} : v.integer? = some m → w.integer? = some n →
    GivesBounds [v, w] m n 1
  | startStopStep {v w x : Value} {m n k : Int} : v.integer? = some m → w.integer? = some n →
    x.integer? = some k → GivesBounds [v, w, x] m n k

/-- The failure of a count that is no index. -/
def countOverflow : Fault := .of .overflow "Python int too large to convert to C ssize_t"

theorem requireInteger_of_integer? {v : Value} {n : Int} (hv : v.integer? = some n) (context : Text) :
    v.requireInteger context = .ok n := by
  cases v <;> cases hv <;> rfl

/-- What a range does with its bounds. -/
theorem range_of_bounds (limits : Limits) {args : List Value} (hargs : GivesBounds args start stop step)
    (hstep : step ≠ 0) (s : State) :
    range limits args s =
      if twoTo 63 ≤ rangeCount start stop step then .error countOverflow s
      else (do
        Run.requireSize limits (rangeCount start stop step)
        Run.newList ((progression start step (rangeCount start stop step)).map .int) : Run Value) s := by
  have hrest : (do
      if step = 0 then throw (.badValue "range() arg 3 must not be zero")
      let count := rangeCount start stop step
      if count ≥ twoTo 63 then throw (.of .overflow "Python int too large to convert to C ssize_t")
      Run.requireSize limits count
      Run.newList ((progression start step count).map .int) : Run Value) s =
      if twoTo 63 ≤ rangeCount start stop step then .error countOverflow s
      else (do
        Run.requireSize limits (rangeCount start stop step)
        Run.newList ((progression start step (rangeCount start stop step)).map .int) : Run Value) s := by
    rw [if_neg hstep]
    by_cases hcount : twoTo 63 ≤ rangeCount start stop step
    · rw [if_pos hcount, if_pos hcount]
      rfl
    · rw [if_neg hcount, if_neg hcount]
  cases hargs with
  | stop hv =>
    rw [← hrest]
    simp only [range, List.mapM_cons, List.mapM_nil, requireInteger_of_integer? hv]
    rfl
  | startStop hv hw =>
    rw [← hrest]
    simp only [range, List.mapM_cons, List.mapM_nil, requireInteger_of_integer? hv,
      requireInteger_of_integer? hw]
    rfl
  | startStopStep hv hw hx =>
    rw [← hrest]
    simp only [range, List.mapM_cons, List.mapM_nil, requireInteger_of_integer? hv,
      requireInteger_of_integer? hw, requireInteger_of_integer? hx]
    rfl

end Reckoning

/-- A call of the range function with positional arguments puts all of them to the rest of its
parameters. -/
theorem Call.function_range (limits : Limits) (room : Room) (args : List Value) :
    function limits room (.builtin .range) ⟨args, []⟩ = Reckoning.range limits args := by
  have hbind : Builtin.range.signature.bind ⟨args, []⟩ = .ok ⟨[], args, []⟩ := by
    cases args with
    | nil => rfl
    | cons v rest => rfl
  unfold function
  simp only
  rw [hbind]
  rfl

namespace Reckoning

/-- The result is that of a range as it ought to be: a new list of the terms if the limit allows for so
many, and otherwise refused at the limit. -/
structure IsCapped (limits : Limits) (terms : List Int) (x : Run Value) (s : State) : Prop where
  exact : (terms.length : Int) ≤ limits.maxCollectionSize → x s = Run.newList (terms.map .int) s
  refused : limits.maxCollectionSize < terms.length → x.IsRefused s

variable {limits : Limits} {s : State}

theorem IsCapped.of_requireSize {terms : List Int} {x : Run Value}
    (hx : x s = (do
      Run.requireSize limits terms.length
      Run.newList (terms.map .int) : Run Value) s) : IsCapped limits terms x s where
  exact hle := by
    rw [hx, Run.requireSize, if_neg (Int.not_lt.mpr hle)]
    rfl
  refused hlt := by
    unfold Run.IsRefused
    rw [hx]
    exact (Run.requireSize_refused hlt).bind

/-- What stops with an overflow is no range as it ought to be, whatever the limit is. -/
theorem not_isCapped_of_overflow {terms : List Int} {x : Run Value} (hx : x s = .error countOverflow s) :
    ¬ IsCapped limits terms x s := by
  intro hcapped
  rcases Int.lt_or_le limits.maxCollectionSize terms.length with hlt | hle
  · obtain ⟨text, hrefused⟩ := hcapped.refused hlt
    rw [hx] at hrefused
    cases hrefused
  · have hmade := hcapped.exact hle
    rw [hx] at hmade
    cases hmade

/-- A call of the range function lists the terms of the arithmetic progression between its bounds, if there
are at most as many as the limit on collections allows, and is refused at that limit if there are more,
just when the terms are fewer than there are indices. Of more terms the count overflows before it is put to
the limit. -/
theorem call_range_isCapped_iff (limits : Limits) (room : Room) (s : State) {args : List Value}
    (hargs : GivesBounds args start stop step) (hstep : step ≠ 0) :
    ∃ terms, IsProgression start stop step terms ∧
      (IsCapped limits terms (Call.function limits room (.builtin .range) ⟨args, []⟩) s ↔
        terms.length < twoTo 63) ∧
      (twoTo 63 ≤ terms.length →
        Call.function limits room (.builtin .range) ⟨args, []⟩ s = .error countOverflow s) := by
  have hcall := range_of_bounds limits hargs hstep s
  have hlength := length_progression start step (rangeCount start stop step)
  refine ⟨_, isProgression_progression hstep, ?_⟩
  rw [Call.function_range, hlength]
  by_cases hcount : twoTo 63 ≤ rangeCount start stop step
  · rw [if_pos hcount] at hcall
    refine ⟨⟨fun hcapped => absurd hcapped (not_isCapped_of_overflow hcall), fun hlt => ?_⟩, fun _ => hcall⟩
    exact absurd hlt (Nat.not_lt.mpr hcount)
  · rw [if_neg hcount] at hcall
    refine ⟨⟨fun _ => Nat.not_le.mp hcount, fun _ => .of_requireSize ?_⟩, fun hle => absurd hle hcount⟩
    rw [hcall, hlength]

/-- Down from five in steps of two, with a truth value among the bounds. -/
theorem call_range_isCapped_down :
    GivesBounds [.int 5, .bool false, .int (-2)] 5 0 (-2) ∧ (-2 : Int) ≠ 0 ∧
      Call.function .standard (Engine.room .standard 0) (.builtin .range)
          ⟨[.int 5, .bool false, .int (-2)], []⟩ (.initial ⟨0⟩ 0) =
        Run.newList [.int 5, .int 3, .int 1] (.initial ⟨0⟩ 0) := by
  have hargs : GivesBounds [.int 5, .bool false, .int (-2)] 5 0 (-2) := .startStopStep rfl rfl rfl
  have hstep : (-2 : Int) ≠ 0 := by decide
  obtain ⟨terms, hterms, hcapped, -⟩ :=
    call_range_isCapped_iff .standard (Engine.room .standard 0) (.initial ⟨0⟩ 0) hargs hstep
  obtain rfl : terms = [5, 3, 1] := hterms.unique (isProgression_progression hstep)
  exact ⟨hargs, hstep, (hcapped.mpr (by decide)).exact (by decide)⟩

/-- A range of far more terms than the limit allows is not refused at the limit. -/
theorem not_isCapped_wide :
    ∃ terms, IsProgression 0 (tenTo 20 : Nat) 1 terms ∧
      Limits.standard.maxCollectionSize < terms.length ∧
      ∀ text t, Call.function .standard (Engine.room .standard 0) (.builtin .range)
        ⟨[.int (tenTo 20 : Nat)], []⟩ (.initial ⟨0⟩ 0) ≠ .error (.limit text) t := by
  have hstep : (1 : Int) ≠ 0 := by decide
  have hlength : (progression 0 1 (rangeCount 0 (tenTo 20 : Nat) 1)).length = tenTo 20 := by
    rw [length_progression]
    decide +kernel
  refine ⟨_, isProgression_progression hstep, ?_, ?_⟩
  · rw [hlength]
    decide +kernel
  · intro text t hrefused
    rw [Call.function_range, range_of_bounds .standard (.stop rfl) hstep] at hrefused
    rw [if_pos (by decide +kernel)] at hrefused
    cases hrefused

end Reckoning

end Scriptlet
