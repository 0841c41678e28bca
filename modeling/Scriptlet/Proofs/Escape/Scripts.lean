import Scriptlet.Proofs.Escape.Statements

/-
  When scripts fail.

  What is proved:
    1. `fails_iff_escapes` — the lines of a block fail where the relation says so. The induction is on
       the room that is left: the body of a header runs with less of it.
    2. `Escapes.isLongOrUnhashable` — only failures of long integers and of keys escape from lines.
    3. `execute_closed_iff` — a script ends with its output or with an error, unless a failure escapes
       from it.
-/

namespace Scriptlet

open Engine (room)

namespace Execution

variable {limits : Limits} {n : Nat} {s t : State} {f : Failure}

/-! ## Headers -/

/-- A line that cannot be read is an error. -/
theorem not_fails_read (line : Text) : ¬ (liftM (Line.read line) : Run Line).Fails s f := by
  intro h
  obtain ⟨fault, hread, hf⟩ := Run.fails_liftM_iff.mp h
  unfold Line.read at hread
  split at hread
  · have hheader := bind_pure_error hread
    unfold Line.readFor at hheader
    split at hheader
    · cases hheader
      cases hf
    · simp only at hheader
      split at hheader <;> cases hheader
      cases hf
  · have hheader := bind_pure_error hread
    unfold Line.readIf at hheader
    split at hheader <;> cases hheader
    cases hf
  · have hheader := bind_pure_error hread
    unfold Line.readWhile at hheader
    split at hheader <;> cases hheader
    cases hf
  · split at hread
    · cases hread
      cases hf
    · have hstatement := bind_pure_error hread
      unfold Line.readStatement at hstatement
      split at hstatement
      · cases hstatement
      · split at hstatement
        · unfold Line.readImport at hstatement
          split at hstatement
          · cases hstatement
          · split at hstatement <;> cases hstatement
            cases hf
        · have hassignment := bind_pure_error hstatement
          unfold Line.readAssignment? at hassignment
          split at hassignment <;> cases hassignment
          cases hf

theorem holds_fails_iff {condition : Text} :
    (holds (room limits n) condition).Fails s f ↔ TextEscapes limits (n - 1) condition s f := by
  unfold holds
  rw [Run.fails_bind_iff, evaluateBelow_fails_iff]
  constructor
  · rintro (h | ⟨v, t, -, h⟩)
    · exact h
    · obtain ⟨fault, htruth, hf⟩ := Run.fails_look_iff.mp h
      exact absurd hf (Heap.truthy_failure htruth)
  · exact .inl

theorem not_fails_loopItems {items : Text} {v : Value} : ¬ (loopItems items v).Fails s f := by
  intro h
  rcases Run.fails_bind_iff.mp h with h | ⟨u, t, -, h⟩
  · obtain ⟨fault, t, hget, -⟩ := h
    cases hget
  rcases Run.fails_bind_iff.mp h with h | ⟨k, t, -, h⟩
  · exact Evaluation.not_fails_kind v h
  cases v with
  | list r | tuple r => exact Run.not_fails_pure _ h
  | _ => cases (Run.fails_throw_iff _).mp h

/-- The elements of a loop are looked at, and the state stays as it is. -/
theorem loopItems_ok {items : Text} {v : Value} {elements : List Value}
    (h : loopItems items v s = .ok elements t) : s = t := by
  obtain ⟨u, s', hget, h⟩ := Run.bind_ok_iff.mp h
  cases hget
  obtain ⟨k, s', hkind, h⟩ := Run.bind_ok_iff.mp h
  obtain ⟨-, rfl⟩ := Run.liftM_ok_iff.mp hkind
  cases v with
  | list r | tuple r =>
    cases h
    rfl
  | _ => cases h

theorem bindShares_fails_iff {targets : List Text} {item : Value} :
    (bindShares limits n targets item).Fails s f ↔
      1 < targets.length ∧ s.heap.unpack (n / 2) item targets.length = .error (.failure f) := by
  have hbinding : ∀ values : List Value, ∀ t, ¬ (forIn (targets.zip values) PUnit.unit
      (fun p (_ : PUnit) => do
        Run.bind p.1 p.2
        pure (ForInStep.yield PUnit.unit)) : Run PUnit).Fails t f := by
    intro values t
    refine Run.not_fails_forIn fun p _ s h => ?_
    rcases Run.fails_bind_iff.mp h with h | ⟨u, t, -, h⟩
    · exact Run.not_fails_modify _ h
    · exact Run.not_fails_pure _ h
  unfold bindShares distribute
  rw [Run.fails_bind_iff, Run.fails_ite_iff, Run.fails_look_iff]
  constructor
  · rintro ((⟨hcount, fault, hunpack, hf⟩ | ⟨-, h⟩) | ⟨values, t, -, h⟩)
    · obtain ⟨rfl, -⟩ := Heap.unpack_failure hunpack hf
      cases hf
      exact ⟨hcount, hunpack⟩
    · exact absurd h (Run.not_fails_pure _)
    · rcases Run.fails_bind_iff.mp h with h | ⟨u, t, -, h⟩
      · exact absurd h (hbinding values _)
      · exact absurd h (Run.not_fails_pure _)
  · rintro ⟨hcount, hunpack⟩
    exact .inl (.inl ⟨hcount, _, hunpack, rfl⟩)

section

/-! The body of a header runs one level further down, where it is known when it fails. -/

variable (hbody : ∀ {body : List Text} {s : State},
  (((room limits n).below 1).runLines body).Fails s f ↔ Escapes limits (n - 1) (.block body) s f)

include hbody

theorem again_fails_iff {condition : Text} {body : List Text} {times : Nat} :
    (whileTrue (room limits n) condition body times).Fails s f ↔
      Escapes limits n (.again condition body times) s f := by
  -- On the rounds that are left: the check fails, or the body behind it, or a later round.
  induction times generalizing s with
  | zero =>
    unfold whileTrue
    rw [Run.fails_bind_iff, holds_fails_iff]
    constructor
    · rintro (h | ⟨b, t, -, h⟩)
      · exact .againCondition h
      · cases b with
        | true => cases (Run.fails_throw_iff _).mp h
        | false => exact absurd h (Run.not_fails_pure _)
    · intro h
      cases h with
      | againCondition h => exact .inl h
  | succ times ih =>
    unfold whileTrue
    rw [Run.fails_bind_iff, holds_fails_iff]
    constructor
    · rintro (h | ⟨b, t, hb, h⟩)
      · exact .againCondition h
      · cases b with
        | true =>
          rcases Run.fails_bind_iff.mp h with h | ⟨u, w, hrun, h⟩
          · exact .againBody hb (hbody.mp h)
          · exact .again hb hrun (ih.mp h)
        | false => exact absurd h (Run.not_fails_pure _)
    · intro h
      cases h with
      | againCondition h => exact .inl h
      | againBody hb h =>
        exact .inr ⟨true, _, hb, Run.fails_bind_iff.mpr (.inl (hbody.mpr h))⟩
      | again hb hrun h =>
        exact .inr ⟨true, _, hb, Run.fails_bind_iff.mpr (.inr ⟨(), _, hrun, ih.mpr h⟩)⟩

theorem each_fails_iff {targets : List Text} {body : List Text} {items : List Value} :
    (forIn items PUnit.unit fun item _ => do
      bindShares limits n targets item
      ((room limits n).below 1).runLines body
      pure (ForInStep.yield PUnit.unit) : Run PUnit).Fails s f ↔
        Escapes limits n (.each targets body items) s f := by
  induction items generalizing s with
  | nil =>
    constructor
    · intro h
      exact absurd h (Run.not_fails_pure PUnit.unit)
    · intro h
      cases h
  | cons item items ih =>
    rw [List.forIn_cons, bind_assoc, Run.fails_bind_iff, bindShares_fails_iff]
    constructor
    · rintro (⟨hcount, hunpack⟩ | ⟨u, t, hshares, h⟩)
      · exact .unpacked hcount hunpack
      rw [bind_assoc] at h
      rcases Run.fails_bind_iff.mp h with h | ⟨u, w, hrun, h⟩
      · exact .eachBody hshares (hbody.mp h)
      · exact .each hshares hrun (ih.mp h)
    · intro h
      cases h with
      | unpacked hcount hunpack => exact .inl ⟨hcount, hunpack⟩
      | eachBody hshares h =>
        refine .inr ⟨(), _, hshares, ?_⟩
        rw [bind_assoc]
        exact Run.fails_bind_iff.mpr (.inl (hbody.mpr h))
      | each hshares hrun h =>
        refine .inr ⟨(), _, hshares, ?_⟩
        rw [bind_assoc]
        exact Run.fails_bind_iff.mpr (.inr ⟨(), _, hrun, ih.mpr h⟩)

theorem forEach_fails_iff {targets : List Text} {items : Text} {body : List Text} :
    (forEach (room limits n) targets items body).Fails s f ↔
      Escapes limits n (.header (.forEach targets items) body) s f := by
  have hloop : forEach (room limits n) targets items body = (do
      let v ← ((room limits n).below 1).evaluate items
      let elements ← loopItems items v
      forIn elements PUnit.unit fun item _ => do
        bindShares limits n targets item
        ((room limits n).below 1).runLines body
        pure (ForInStep.yield PUnit.unit)) := by
    unfold forEach bindShares
    simp only [bind_assoc, bind_pure_unit]
  rw [hloop, Run.fails_bind_iff, evaluateBelow_fails_iff]
  constructor
  · rintro (h | ⟨v, t, hv, h⟩)
    · exact .items h
    rcases Run.fails_bind_iff.mp h with h | ⟨elements, u, helements, h⟩
    · exact absurd h not_fails_loopItems
    · cases loopItems_ok helements
      exact .forEach hv helements ((each_fails_iff hbody).mp h)
  · intro h
    cases h with
    | items h => exact .inl h
    | forEach hv helements h =>
      exact .inr ⟨_, _, hv, Run.fails_bind_iff.mpr
        (.inr ⟨_, _, helements, (each_fails_iff hbody).mpr h⟩)⟩

theorem header_fails_iff {h : Header} {body : List Text} :
    (header (room limits n) h body).Fails s f ↔ Escapes limits n (.header h body) s f := by
  cases h with
  | forEach targets items => exact forEach_fails_iff hbody
  | onlyIf condition =>
    show (holds (room limits n) condition >>= _).Fails s f ↔ _
    rw [Run.fails_bind_iff, holds_fails_iff]
    constructor
    · rintro (h | ⟨b, t, hb, h⟩)
      · exact .condition h
      · cases b with
        | true => exact .onlyIf hb (hbody.mp h)
        | false => exact absurd h (Run.not_fails_pure _)
    · intro h
      cases h with
      | condition h => exact .inl h
      | onlyIf hb h => exact .inr ⟨true, _, hb, hbody.mpr h⟩
  | whileTrue condition =>
    show (whileTrue (room limits n) condition body maxWhileIterations).Fails s f ↔ _
    rw [again_fails_iff hbody]
    constructor
    · exact .whileTrue
    · intro h
      cases h with
      | whileTrue h => exact h

/-! ## Blocks -/

theorem sequence_fails_iff {ls : List Text} :
    (sequence limits (room limits n) ls).Fails s f ↔ Escapes limits n (.lines ls) s f := by
  -- On the number of lines, as behind a header all lines of its block are left out.
  induction hlength : ls.length using Nat.strongRecOn generalizing ls s with
  | ind length ih =>
    subst hlength
    cases ls with
    | nil =>
      unfold sequence
      constructor
      · intro h
        exact absurd h (Run.not_fails_pure ())
      · intro h
        cases h
    | cons line rest =>
      unfold sequence
      simp only
      rw [Run.fails_bind_iff]
      constructor
      · rintro (h | ⟨l, t, hread, h⟩)
        · exact absurd h (not_fails_read _)
        obtain ⟨hline, rfl⟩ := Run.liftM_ok_iff.mp hread
        cases l with
        | statement st =>
          rcases Run.fails_bind_iff.mp h with h | ⟨u, t, hrun, h⟩
          · exact .statement hline (statement_fails_iff.mp h)
          · exact .behindStatement hline hrun ((ih rest.length (by simp) rfl).mp h)
        | header hd =>
          rcases Run.fails_bind_iff.mp h with h | ⟨u, t, hrun, h⟩
          · exact .header hline ((header_fails_iff hbody).mp h)
          · exact .behindHeader hline hrun ((ih _ (length_drop_lt line rest _) rfl).mp h)
      · intro h
        refine .inr ?_
        cases h with
        | statement hline h =>
          exact ⟨_, s, Run.liftM_ok_iff.mpr ⟨hline, rfl⟩,
            Run.fails_bind_iff.mpr (.inl (statement_fails_iff.mpr h))⟩
        | behindStatement hline hrun h =>
          exact ⟨_, s, Run.liftM_ok_iff.mpr ⟨hline, rfl⟩,
            Run.fails_bind_iff.mpr (.inr ⟨(), _, hrun, (ih rest.length (by simp) rfl).mpr h⟩)⟩
        | header hline h =>
          exact ⟨_, s, Run.liftM_ok_iff.mpr ⟨hline, rfl⟩,
            Run.fails_bind_iff.mpr (.inl ((header_fails_iff hbody).mpr h))⟩
        | behindHeader hline hrun h =>
          exact ⟨_, s, Run.liftM_ok_iff.mpr ⟨hline, rfl⟩,
            Run.fails_bind_iff.mpr (.inr ⟨(), _, hrun, (ih _ (length_drop_lt line rest _) rfl).mpr h⟩)⟩

theorem block_fails_iff {ls : List Text} :
    (block limits (room limits n) ls).Fails s f ↔ Escapes limits (n + 1) (.block ls) s f := by
  have hblock : (block limits (room limits n) ls).Fails s f ↔
      (do
        if (← get).depth > limits.maxNestingDepth then
          throw (.limit ("blocks nested deeper than " ++ Text.ofInt limits.maxNestingDepth ++
            " levels"))
        sequence limits (room limits n) ls : Run Unit).Fails { s with depth := s.depth + 1 } f := by
    unfold block
    rw [Run.fails_bind_iff]
    constructor
    · rintro (h | ⟨u, t, hmodify, h⟩)
      · exact absurd h (Run.not_fails_modify _)
      · cases hmodify
        exact Run.fails_thenAlways_iff.mp h
    · intro h
      exact .inr ⟨(), _, rfl, Run.fails_thenAlways_iff.mpr h⟩
  rw [hblock, Run.fails_bind_iff]
  constructor
  · rintro (⟨fault, t, hget, -⟩ | ⟨u, t, hget, h⟩)
    · cases hget
    cases hget
    by_cases hdeep : ((s.depth + 1 : Nat) : Int) > limits.maxNestingDepth
    · simp only [hdeep, if_true] at h
      cases (Run.fails_throw_bind_iff _ _).mp h
    · simp only [hdeep, if_false] at h
      exact .block (by omega) ((sequence_fails_iff hbody).mp h)
  · intro h
    refine .inr ⟨_, _, rfl, ?_⟩
    cases h with
    | block hdepth h =>
      have hdeep : ¬ ((s.depth + 1 : Nat) : Int) > limits.maxNestingDepth := by omega
      simp only [hdeep, if_false]
      exact (sequence_fails_iff hbody).mpr h

end

theorem fails_iff_escapes {ls : List Text} :
    ((Engine.tower limits n 0).runLines ls).Fails s f ↔ Escapes limits n (.block ls) s f := by
  induction n using Nat.strongRecOn generalizing ls s with
  | ind n ih =>
    cases n with
    | zero =>
      constructor
      · rintro ⟨fault, t, h, hf⟩
        cases h
        cases hf
      · intro h
        cases h
    | succ n =>
      refine block_fails_iff fun {body s} => ?_
      show ((Engine.tower limits n 1).runLines body).Fails s f ↔ _
      rw [Engine.tower_one]
      exact ih (n - 1) (by omega)

end Execution

/-! ## What escapes -/

/-- The failure says that an integer has too many digits to be read or shown, or that a value is no
key. -/
def Failure.IsLongOrUnhashable (f : Failure) : Prop :=
  f = longInteger ∨ (∃ digits, f = ⟨.badValue, longDigitsText digits⟩) ∨
    ∃ v : Value, unhashable v = .failure f

section

variable {limits : Limits} {n : Nat} {s : State} {f : Failure}

theorem FailsAt.exists {α : Type} {step : α → Run Unit} {fails : α → State → Failure → Prop}
    {as : List α} (h : FailsAt step fails as s f) : ∃ a t, fails a t f := by
  induction h with
  | here h => exact ⟨_, _, h⟩
  | later _ _ ih => exact ih

theorem NodeEscapes.isLongOrUnhashable {text : Text} {e : Expr}
    (h : NodeEscapes limits n text e s f) : f.IsLongOrUnhashable := by
  cases h with
  | missingKey _ _ _ _ htext =>
    obtain ⟨hfault, -⟩ := Heap.render_failure htext rfl
    cases hfault
    exact .inl rfl

theorem TextEscapes.isLongOrUnhashable {text : Text} (h : TextEscapes limits n text s f) :
    f.IsLongOrUnhashable := by
  cases h with
  | longDigits _ => exact .inr (.inl ⟨_, rfl⟩)
  | node _ h => exact h.isLongOrUnhashable

theorem PlaceEscapes.isLongOrUnhashable {text : Text} {e : Expr}
    (h : PlaceEscapes limits n text e s f) : f.IsLongOrUnhashable := by
  cases h with
  | container h | key _ h => exact h.isLongOrUnhashable
  | stored _ _ hkey =>
    obtain ⟨-, w, -, -, hw⟩ := Heap.keyIn_failure hkey rfl
    exact .inr (.inr ⟨w, hw.symm⟩)

theorem BindingEscapes.isLongOrUnhashable {target : Text} {v : Value} {isAugmented : Bool}
    (h : BindingEscapes limits n target v isAugmented s f) : f.IsLongOrUnhashable := by
  cases h with
  | longDigits _ => exact .inr (.inl ⟨_, rfl⟩)
  | unpacked _ _ hunpack =>
    obtain ⟨hfault, -⟩ := Heap.unpack_failure hunpack rfl
    cases hfault
    exact .inl rfl
  | part _ _ _ h =>
    obtain ⟨p, t, h⟩ := h.exists
    exact h.isLongOrUnhashable
  | whole _ _ h => exact h.isLongOrUnhashable

theorem StatementEscapes.isLongOrUnhashable {line : Text} {st : Statement}
    (h : StatementEscapes limits n line st s f) : f.IsLongOrUnhashable := by
  cases h with
  | assigned _ _ h | evaluated h => exact h.isLongOrUnhashable
  | bound _ _ _ h => exact h.isLongOrUnhashable
  | shown _ _ _ _ htext =>
    obtain ⟨hfault, -⟩ := Heap.format_failure htext rfl
    cases hfault
    exact .inl rfl

/-- Nothing else escapes than long integers and what is no key. -/
theorem Escapes.isLongOrUnhashable {activity : Activity} (h : Escapes limits n activity s f) :
    f.IsLongOrUnhashable := by
  induction h with
  | statement _ h => exact h.isLongOrUnhashable
  | condition h | againCondition h | items h => exact h.isLongOrUnhashable
  | unpacked _ hunpack =>
    obtain ⟨hfault, -⟩ := Heap.unpack_failure hunpack rfl
    cases hfault
    exact .inl rfl
  | block _ _ ih | behindStatement _ _ _ ih | header _ _ ih | behindHeader _ _ _ ih | onlyIf _ _ ih
  | whileTrue _ ih | againBody _ _ ih | again _ _ _ ih | forEach _ _ _ ih | eachBody _ _ ih
  | each _ _ _ ih => exact ih

end

/-! ## Scripts -/

namespace Session

variable {limits : Limits} {source : Text} {s t : State} {f : Failure}

theorem requireLength_eq :
    requireLength limits source =
      if (source.length : Int) > limits.maxSourceLength then
        .error (.limit ("source is " ++ Text.ofNat source.length ++ " characters, the limit is " ++
          Text.ofInt limits.maxSourceLength))
      else .ok () := by
  unfold requireLength
  split <;> rfl

theorem leavingScript_failure? (fault : Fault) :
    (leavingScript fault).failure? = fault.failure? := by
  cases fault <;> rfl

theorem script_fails_iff : (script limits source).Fails s f ↔ ScriptEscapes limits source s f := by
  unfold script ScriptEscapes
  rw [requireLength_eq, Run.fails_bind_iff]
  by_cases hlong : (source.length : Int) > limits.maxSourceLength
  · simp only [hlong, if_true]
    constructor
    · rintro (h | ⟨u, t, h, -⟩)
      · obtain ⟨fault, h, hf⟩ := Run.fails_liftM_iff.mp h
        cases h
        cases hf
      · cases h
    · rintro ⟨hlength, -⟩
      omega
  · simp only [hlong, if_false]
    have hlength : (source.length : Int) ≤ limits.maxSourceLength := by omega
    rw [← Execution.fails_iff_escapes]
    cases hlines : Source.cleanLines source with
    | nil =>
      constructor
      · rintro (h | ⟨u, t, -, h⟩)
        · obtain ⟨fault, h, -⟩ := Run.fails_liftM_iff.mp h
          cases h
        · exact absurd h (Run.not_fails_pure _)
      · rintro ⟨-, h, -⟩
        exact absurd rfl h
    | cons line rest =>
      constructor
      · rintro (h | ⟨u, t, hlift, h⟩)
        · obtain ⟨fault, h, -⟩ := Run.fails_liftM_iff.mp h
          cases h
        obtain ⟨-, rfl⟩ := Run.liftM_ok_iff.mp hlift
        rcases Run.fails_bind_iff.mp h with h | ⟨u, t, -, h⟩
        · exact ⟨hlength, by simp, (Run.fails_mapFault_iff leavingScript_failure?).mp h⟩
        · rcases Run.fails_bind_iff.mp h with ⟨fault, w, hget, -⟩ | ⟨w, t, -, h⟩
          · cases hget
          · exact absurd h (Run.not_fails_pure _)
      · rintro ⟨-, -, h⟩
        refine .inr ⟨(), s, rfl, ?_⟩
        exact Run.fails_bind_iff.mpr (.inl ((Run.fails_mapFault_iff leavingScript_failure?).mpr h))

/-- No script is left by a fault that it is too deep. -/
theorem script_ne_tooDeep : script limits source s ≠ .error .tooDeep t := by
  unfold script
  rw [requireLength_eq, Run.bind_apply, Run.liftM_apply]
  by_cases hlong : (source.length : Int) > limits.maxSourceLength
  · simp only [hlong, if_true]
    intro h
    cases h
  · simp only [hlong, if_false]
    cases Source.cleanLines source with
    | nil =>
      intro h
      cases h
    | cons line rest =>
      simp only [List.isEmpty_cons, Bool.false_eq_true, if_false]
      rw [Run.bind_apply, Run.mapFault_apply]
      cases (Engine.start limits).runLines (line :: rest) s with
      | ok u t =>
        intro h
        cases h
      | error fault t =>
        intro h
        cases fault <;> cases h

/-- A script gives its output or an error of the script, unless a failure escapes from it, and what
escapes is about a long integer or a value that is no key. -/
theorem execute_closed_iff (limits : Limits) (clock : Moment) (seed : Nat) (source : Text) :
    (((∃ output, ((initial limits clock seed).execute source).1 = .ok output) ∨
        ∃ e, ((initial limits clock seed).execute source).1 = .error (.error e)) ↔
      ∀ f, ¬ ScriptEscapes limits source (.initial clock seed) f) ∧
      ∀ f, ScriptEscapes limits source (.initial clock seed) f → f.IsLongOrUnhashable := by
  have hrun : (initial limits clock seed).execute source =
      Session.run { initial limits clock seed with isUsed := true } (script limits source) := rfl
  refine ⟨?_, fun f h => h.2.2.isLongOrUnhashable⟩
  rw [hrun]
  unfold run
  simp only [← script_fails_iff]
  cases hscript : script limits source (.initial clock seed) with
  | ok output t =>
    have hcloses : ∀ f, ¬ (script limits source).Fails (.initial clock seed) f := by
      rintro f ⟨fault, u, h, -⟩
      cases hscript.symm.trans h
    exact iff_of_true (.inl ⟨output, by rw [initial, hscript]⟩) hcloses
  | error fault t =>
    rw [initial, hscript]
    constructor
    · rintro (⟨output, h⟩ | ⟨e, h⟩) f ⟨fault', u, hfault, hf⟩
      · cases h
      · cases h
        cases hscript.symm.trans hfault
        cases hf
    · intro hcloses
      cases fault with
      | error e => exact .inr ⟨e, rfl⟩
      | failure f | unreported f => exact absurd ⟨_, t, hscript, rfl⟩ (hcloses f)
      | tooDeep => exact absurd hscript script_ne_tooDeep

/-- An entry is stored under a tuple that holds a list. -/
theorem execute_unhashable_key :
    ¬ ((∃ output, ((initial .standard ⟨0⟩ 0).execute "dict()[(1, [2])] = 3").1 = .ok output) ∨
      ∃ e, ((initial .standard ⟨0⟩ 0).execute "dict()[(1, [2])] = 3").1 = .error (.error e)) := by
  have hfailure : (match ((initial .standard ⟨0⟩ 0).execute "dict()[(1, [2])] = 3").1 with
      | .ok _ => none
      | .error fault => fault.failure?) = some ⟨.badType, "unhashable type: 'list'"⟩ := by
    decide +kernel
  rintro (⟨output, h⟩ | ⟨e, h⟩)
  · rw [h] at hfailure
    cases hfailure
  · rw [h] at hfailure
    cases hfailure

end Session

end Scriptlet
