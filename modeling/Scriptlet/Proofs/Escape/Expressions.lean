import Scriptlet.Proofs.Escape.Values

/-
  When expressions fail.

  For every part of a run it is said when it fails: a part that is made of others fails where one of
  them does, behind others that do not. Inside of an expression no failure gets any further, so only
  two things are left that an expression can fail with.

  What is proved:
    1. `evaluateNode_fails_iff` — an expression that has been read fails where the report of a missing
       key does.
    2. `evaluate_fails_iff` — a text fails where it is read, or where its expression does.
-/

namespace Scriptlet

open Engine (room)

namespace Run

variable {α β : Type} {s : State} {f : Failure}

/-! ## Combinators -/

theorem not_fails_pure (a : α) : ¬ (pure a : Run α).Fails s f := by
  rintro ⟨fault, t, h, -⟩
  cases h

theorem not_fails_modify (g : State → State) : ¬ (modify g : Run Unit).Fails s f := by
  rintro ⟨fault, t, h, -⟩
  cases h

theorem fails_throw_iff (fault : Fault) :
    (throw fault : Run α).Fails s f ↔ fault.failure? = some f := by
  constructor
  · rintro ⟨fault', t, h, hf⟩
    cases h
    exact hf
  · intro hf
    exact ⟨fault, s, rfl, hf⟩

theorem fails_bind_iff {x : Run α} {g : α → Run β} :
    (x >>= g).Fails s f ↔ x.Fails s f ∨ ∃ a t, x s = .ok a t ∧ (g a).Fails t f := by
  unfold Fails
  rw [bind_apply]
  cases x s with
  | ok a t =>
    constructor
    · intro h
      exact .inr ⟨a, t, rfl, h⟩
    · rintro (⟨fault, u, h, -⟩ | ⟨a', t', h, hg⟩)
      · cases h
      · cases h
        exact hg
  | error fault t =>
    constructor
    · rintro ⟨fault', u, h, hf⟩
      cases h
      exact .inl ⟨fault, t, rfl, hf⟩
    · rintro (⟨fault', u, h, hf⟩ | ⟨a', t', h, -⟩)
      · cases h
        exact ⟨fault, t, rfl, hf⟩
      · cases h

theorem fails_throw_bind_iff (fault : Fault) (g : α → Run β) :
    (throw fault >>= g).Fails s f ↔ fault.failure? = some f := by
  rw [fails_bind_iff, fails_throw_iff]
  constructor
  · rintro (h | ⟨a, t, h, -⟩)
    · exact h
    · cases h
  · exact .inl

theorem fails_liftM_iff {x : Except Fault α} :
    (liftM x : Run α).Fails s f ↔ ∃ fault, x = .error fault ∧ fault.failure? = some f := by
  unfold Fails
  rw [liftM_apply]
  cases x with
  | ok a =>
    constructor
    · rintro ⟨fault, t, h, -⟩
      cases h
    · rintro ⟨fault, h, -⟩
      cases h
  | error fault =>
    constructor
    · rintro ⟨fault', t, h, hf⟩
      cases h
      exact ⟨fault, rfl, hf⟩
    · rintro ⟨fault', h, hf⟩
      cases h
      exact ⟨fault, s, rfl, hf⟩

theorem fails_look_iff {read : Heap → Except Fault α} :
    (look read).Fails s f ↔ ∃ fault, read s.heap = .error fault ∧ fault.failure? = some f := by
  have hlook : look read s = (liftM (read s.heap) : Run α) s := by rw [look_apply, liftM_apply]
  unfold Fails
  rw [hlook]
  exact fails_liftM_iff

theorem fails_ite_iff {c : Prop} [Decidable c] {x y : Run α} :
    (if c then x else y).Fails s f ↔ (c ∧ x.Fails s f) ∨ (¬ c ∧ y.Fails s f) := by
  by_cases hc : c <;> simp [hc]

/-- A loop of steps that do not fail does not fail. -/
theorem not_fails_forIn {g : α → PUnit → Run (ForInStep PUnit)} {as : List α}
    (hg : ∀ a u s, ¬ (g a u).Fails s f) : ¬ (forIn as PUnit.unit g : Run PUnit).Fails s f := by
  induction as generalizing s with
  | nil => exact not_fails_pure PUnit.unit
  | cons a as ih =>
    rw [List.forIn_cons]
    intro h
    rcases fails_bind_iff.mp h with h | ⟨step, t, -, h⟩
    · exact hg a PUnit.unit s h
    · cases step with
      | done u => exact not_fails_pure u h
      | yield u => exact ih h

/-- No failure leaves an expression. -/
theorem not_fails_mapFault_within (source : Text) (x : Run α) :
    ¬ (mapFault (Fault.within source) x).Fails s f := by
  rintro ⟨fault, t, h, hf⟩
  rw [mapFault_apply] at h
  cases hx : x s with
  | ok a u =>
    rw [hx] at h
    cases h
  | error fault' u =>
    rw [hx] at h
    cases fault' <;> cases h <;> cases hf

theorem fails_mapFault_iff {g : Fault → Fault} {x : Run α}
    (hg : ∀ fault, (g fault).failure? = fault.failure?) : (mapFault g x).Fails s f ↔ x.Fails s f := by
  unfold Fails
  rw [mapFault_apply]
  cases x s with
  | ok a t => simp
  | error fault t =>
    constructor
    · rintro ⟨fault', u, h, hf⟩
      cases h
      exact ⟨fault, t, rfl, (hg fault).symm.trans hf⟩
    · rintro ⟨fault', u, h, hf⟩
      cases h
      exact ⟨_, t, rfl, (hg fault).trans hf⟩

theorem fails_thenAlways_iff {x : Run α} {cleanUp : State → State} :
    (thenAlways x cleanUp).Fails s f ↔ x.Fails s f := by
  unfold Fails
  rw [thenAlways_apply]
  cases x s with
  | ok a t => simp
  | error fault t =>
    constructor
    · rintro ⟨fault', u, h, hf⟩
      cases h
      exact ⟨fault, t, rfl, hf⟩
    · rintro ⟨fault', u, h, hf⟩
      cases h
      exact ⟨fault, _, rfl, hf⟩

/-- A loop fails where one of its steps does. -/
theorem fails_forIn_iff {step : α → Run Unit} {fails : α → State → Failure → Prop} {as : List α}
    (hstep : ∀ a ∈ as, ∀ s, (step a).Fails s f ↔ fails a s f) :
    (forIn as PUnit.unit fun a _ => do
      step a
      pure (ForInStep.yield PUnit.unit) : Run PUnit).Fails s f ↔ FailsAt step fails as s f := by
  induction as generalizing s with
  | nil =>
    constructor
    · intro h
      exact absurd h (not_fails_pure PUnit.unit)
    · intro h
      cases h
  | cons a as ih =>
    have hrest : ∀ s, (forIn as PUnit.unit fun a _ => do
        step a
        pure (ForInStep.yield PUnit.unit) : Run PUnit).Fails s f ↔ FailsAt step fails as s f :=
      fun s => ih fun b hb => hstep b (List.mem_cons_of_mem _ hb)
    rw [List.forIn_cons, bind_assoc, fails_bind_iff, hstep a List.mem_cons_self]
    constructor
    · rintro (h | ⟨u, t, h, hmore⟩)
      · exact .here h
      · exact .later h ((hrest t).mp hmore)
    · intro h
      cases h with
      | here h => exact .inl h
      | later h hmore => exact .inr ⟨_, _, h, (hrest _).mpr hmore⟩

end Run

/-! ## Expressions -/

namespace Evaluation

variable {limits : Limits} {n : Nat} {s t : State} {f : Failure} {text : Text}

/-- The step finds no failure to report another one. -/
def Reports (x : Run Found) : Prop := ∀ s f t, x s ≠ .ok (.error f) t

theorem Reports.pure (v : Value) : Reports (Pure.pure (.ok v)) := by
  intro s f t h
  cases h

theorem Reports.bind {α : Type} {x : Run α} {g : α → Run Found} (hg : ∀ a, Reports (g a)) :
    Reports (x >>= g) := by
  intro s f t h
  rw [Run.bind_apply] at h
  cases hx : x s with
  | ok a u =>
    rw [hx] at h
    exact hg a u f t h
  | error fault u =>
    rw [hx] at h
    cases h

/-- Only looking up something fails to report that there is nothing. -/
theorem nodeValue_error_iff {r : Room} {e : Expr} :
    nodeValue limits r text e s = .ok (.error f) t ↔
      ∃ span target index v w u, e = .subscript span target index ∧
        (r.below 1).evaluateNode text target s = .ok v u ∧
        (r.below 1).evaluateNode text index u = .ok w t ∧
        t.heap.lookUp r.levels v w = .ok (.error f) := by
  constructor
  · intro h
    cases e with
    | subscript span target index =>
      unfold nodeValue at h
      simp only [Run.bind_ok_iff, Run.look_ok_iff] at h
      obtain ⟨v, u, hv, w, t', hw, hfound, rfl⟩ := h
      exact ⟨span, target, index, v, w, u, rfl, hv, hw, hfound⟩
    | literal span c => exact absurd h (Reports.pure _ _ _ _)
    | name span id => exact absurd h (Reports.bind (fun _ => .pure _) _ _ _)
    | list span items => exact absurd h (Reports.bind (fun _ => .bind fun _ => .pure _) _ _ _)
    | tuple span items => exact absurd h (Reports.bind (fun _ => .bind fun _ => .pure _) _ _ _)
    | set span items =>
      exact absurd h (Reports.bind (fun _ => .bind fun _ => .bind fun _ => .pure _) _ _ _)
    | dict span entries =>
      exact absurd h
        (Reports.bind (fun _ => .bind fun _ => .bind fun _ => .bind fun _ => .pure _) _ _ _)
    | sliced span target bounds lower upper step =>
      exact absurd h (Reports.bind (fun _ => .bind fun _ => .bind fun _ => .bind fun _ =>
        .bind fun _ => .bind fun _ => .pure _) _ _ _)
    | call span callee args keywords => exact absurd h (Reports.bind (fun _ => .pure _) _ _ _)
    | unary span op operand =>
      exact absurd h (Reports.bind (fun _ => .bind fun _ => .pure _) _ _ _)
    | binary span op left right =>
      exact absurd h (Reports.bind (fun _ => .bind fun _ => .bind fun _ => .pure _) _ _ _)
    | boolean span op left right => exact absurd h (Reports.bind (fun _ => .pure _) _ _ _)
    | compare span left rest =>
      exact absurd h (Reports.bind (fun _ => .bind fun _ => .pure _) _ _ _)
    | _ =>
      -- An attribute of something.
      exact absurd h (Reports.bind (fun _ => .bind fun _ => .pure _) _ _ _)
  · rintro ⟨span, target, index, v, w, u, rfl, hv, hw, hfound⟩
    unfold nodeValue
    simp only [Run.bind_ok_iff, Run.look_ok_iff]
    exact ⟨v, u, hv, w, t, hw, hfound, rfl⟩

theorem missingKey_error_iff {h : Heap} {levels : Nat} {v : Value} :
    h.missingKey levels v = .ok (.error f) ↔ h.plainRepr levels v = .error (.failure f) := by
  unfold Heap.missingKey
  cases h.plainRepr levels v with
  | ok text => simp
  | error fault => cases fault <;> simp

section Dict

variable {h : Heap} {levels r : Nat} {w : Value} {key : Key}

theorem lookUp_dict_error {fault : Fault} (hkey : h.keyIn w "subscript" = .error fault) :
    h.lookUp levels (.dict r) w = .error fault := by
  change (h.keyIn w "subscript" >>= fun _ => _) = _
  rw [hkey]
  rfl

theorem lookUp_dict_some {v : Value} (hkey : h.keyIn w "subscript" = .ok key)
    (hfind : Entry.find? (h.dict r) key = some v) : h.lookUp levels (.dict r) w = .ok (.ok v) := by
  change (h.keyIn w "subscript" >>= fun _ => _) = _
  rw [hkey]
  simp only [bind, Except.bind, hfind]
  rfl

theorem lookUp_dict_none (hkey : h.keyIn w "subscript" = .ok key)
    (hfind : Entry.find? (h.dict r) key = none) :
    h.lookUp levels (.dict r) w = h.missingKey levels w := by
  change (h.keyIn w "subscript" >>= fun _ => _) = _
  rw [hkey]
  simp only [bind, Except.bind, hfind]

end Dict

theorem lookUp_error_iff {h : Heap} {levels : Nat} {v w : Value} :
    h.lookUp levels v w = .ok (.error f) ↔
      ∃ r key, v = .dict r ∧ h.keyIn w "subscript" = .ok key ∧
        Entry.find? (h.dict r) key = none ∧ h.plainRepr levels w = .error (.failure f) := by
  -- What is found in a sequence is a value.
  have hsequence : ∀ refusal : Text, (do
      return .ok (← h.itemAt v (← w.sequenceIndex refusal)) : Except Fault Found) ≠
        .ok (.error f) := by
    intro refusal hfound
    cases hindex : w.sequenceIndex refusal with
    | error fault =>
      rw [hindex] at hfound
      cases hfound
    | ok index =>
      rw [hindex] at hfound
      cases hitem : h.itemAt v index with
      | error fault =>
        change (do return .ok (← h.itemAt v index) : Except Fault Found) = _ at hfound
        rw [hitem] at hfound
        cases hfound
      | ok item =>
        change (do return .ok (← h.itemAt v index) : Except Fault Found) = _ at hfound
        rw [hitem] at hfound
        cases hfound
  constructor
  · intro hfound
    cases v with
    | dict r =>
      cases hkey : h.keyIn w "subscript" with
      | error fault =>
        rw [lookUp_dict_error hkey] at hfound
        cases hfound
      | ok key =>
        cases hfind : Entry.find? (h.dict r) key with
        | some v =>
          rw [lookUp_dict_some hkey hfind] at hfound
          cases hfound
        | none =>
          rw [lookUp_dict_none hkey hfind] at hfound
          exact ⟨r, key, rfl, rfl, hfind, missingKey_error_iff.mp hfound⟩
    | text _ | list _ | tuple _ => exact absurd hfound (hsequence _)
    | _ => cases hfound
  · rintro ⟨r, key, rfl, hkey, hfind, htext⟩
    rw [lookUp_dict_none hkey hfind]
    exact missingKey_error_iff.mpr htext

theorem node_fails_iff {r : Room} {e : Expr} :
    (node limits r text e).Fails s f ↔ ∃ t, nodeValue limits r text e s = .ok (.error f) t := by
  unfold node
  rw [Run.fails_bind_iff]
  constructor
  · rintro (h | ⟨found, t, hfound, h⟩)
    · exact absurd h (Run.not_fails_mapFault_within _ _)
    · rw [Run.mapFault_apply] at hfound
      cases hvalue : nodeValue limits r text e s with
      | error fault u =>
        rw [hvalue] at hfound
        cases hfound
      | ok found' u =>
        rw [hvalue] at hfound
        cases hfound
        cases found with
        | ok v => exact absurd h (Run.not_fails_pure v)
        | error f' =>
          cases (Run.fails_throw_iff _).mp h
          exact ⟨t, rfl⟩
  · rintro ⟨t, h⟩
    exact .inr ⟨.error f, t, by rw [Run.mapFault_apply, h], (Run.fails_throw_iff _).mpr rfl⟩

theorem evaluateNode_fails_iff {e : Expr} :
    ((Engine.tower limits n 0).evaluateNode text e).Fails s f ↔ NodeEscapes limits n text e s f := by
  cases n with
  | zero =>
    constructor
    · rintro ⟨fault, t, h, hf⟩
      cases h
      cases hf
    · intro h
      cases h
  | succ n =>
    show (node limits (room limits n) text e).Fails s f ↔ _
    rw [node_fails_iff]
    constructor
    · rintro ⟨t, h⟩
      obtain ⟨span, target, index, v, w, u, rfl, hv, hw, hfound⟩ := nodeValue_error_iff.mp h
      obtain ⟨r, key, rfl, hkey, hfind, htext⟩ := lookUp_error_iff.mp hfound
      exact .missingKey hv hw hkey hfind htext
    · intro h
      cases h with
      | missingKey hv hw hkey hfind htext =>
        exact ⟨_, nodeValue_error_iff.mpr ⟨_, _, _, _, _, _, rfl, hv, hw,
          lookUp_error_iff.mpr ⟨_, _, rfl, hkey, hfind, htext⟩⟩⟩

theorem read_ok_iff {levels : Nat} {e : Expr} :
    read levels text = .ok e ↔ Expr.parse (levels - readingLevels) text = .ok e := by
  unfold read
  cases Expr.parse (levels - readingLevels) text with
  | ok e' => simp
  | error refusal => cases refusal <;> simp [ParseFault.message?]

/-- An expression with a property that is tested is read from the text, if the test says so. -/
theorem exists_read {levels : Nat} {test : Expr → Bool} (h : (read levels text).toOption.any test = true) :
    ∃ e, read levels text = .ok e ∧ test e = true := by
  cases hread : read levels text with
  | error fault =>
    rw [hread] at h
    cases h
  | ok e =>
    rw [hread] at h
    exact ⟨e, rfl, h⟩

/-- A text that is reported to be no expression is reported as a syntax error, attached to itself. -/
theorem read_error {levels : Nat} {e : ScriptError} (hread : read levels text = .error (.error e)) :
    ∃ message, e = ⟨.badSyntax, message, some text.trim⟩ := by
  unfold read at hread
  split at hread
  · cases hread
  · cases hread
  · split at hread
    · cases hread
      exact ⟨_, rfl⟩
    · cases hread

theorem read_failure_iff {levels : Nat} {fault : Fault} :
    (read levels text = .error fault ∧ fault.failure? = some f) ↔
      ∃ digits, Expr.parse (levels - readingLevels) text = .error (.longInteger digits) ∧
        fault = .failure f ∧ f = ⟨.badValue, longDigitsText digits⟩ := by
  unfold read
  cases hparse : Expr.parse (levels - readingLevels) text with
  | ok e => simp
  | error refusal =>
    cases refusal with
    | longInteger digits =>
      simp only [Except.error.injEq, ParseFault.longInteger.injEq]
      constructor
      · rintro ⟨rfl, hf⟩
        cases hf
        exact ⟨digits, rfl, rfl, rfl⟩
      · rintro ⟨digits', rfl, rfl, rfl⟩
        exact ⟨rfl, rfl⟩
    | _ =>
      constructor
      · rintro ⟨h, hf⟩
        cases h
        cases hf
      · rintro ⟨digits, h, -⟩
        cases h

theorem leaving_failure? (source : Text) (fault : Fault) :
    (fault.leaving source).failure? = fault.failure? := by
  cases fault <;> rfl

theorem evaluate_fails_iff :
    ((Engine.tower limits n 0).evaluate text).Fails s f ↔ TextEscapes limits n text s f := by
  cases n with
  | zero =>
    constructor
    · rintro ⟨fault, t, h, hf⟩
      cases h
      cases hf
    · intro h
      cases h
  | succ n =>
    show (evaluate (room limits n) text).Fails s f ↔ _
    unfold evaluate
    rw [Run.fails_mapFault_iff (leaving_failure? _), Run.fails_bind_iff, Run.fails_liftM_iff]
    constructor
    · rintro (⟨fault, hread⟩ | ⟨e, t, hread, hnode⟩)
      · obtain ⟨digits, hparse, -, rfl⟩ := read_failure_iff.mp hread
        exact .longDigits hparse
      · obtain ⟨hok, rfl⟩ := Run.liftM_ok_iff.mp hread
        exact .node (read_ok_iff.mp hok) (evaluateNode_fails_iff.mp hnode)
    · intro h
      cases h with
      | longDigits hparse =>
        exact .inl ⟨_, read_failure_iff.mpr ⟨_, hparse, rfl, rfl⟩⟩
      | node hparse hnode =>
        exact .inr ⟨_, s, Run.liftM_ok_iff.mpr ⟨read_ok_iff.mpr hparse, rfl⟩,
          evaluateNode_fails_iff.mpr hnode⟩

end Evaluation

end Scriptlet
