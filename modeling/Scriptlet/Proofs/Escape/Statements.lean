import Scriptlet.Proofs.Escape.Expressions

/-
  When statements fail.

  What is proved:
    1. `assign_fails_iff`, `bindTarget_fails_iff` — the failures of assigning to a target.
    2. `statement_fails_iff` — the failures of statements. Imports have none.
-/

namespace Scriptlet

open Engine (room)

namespace Evaluation

variable {limits : Limits} {n : Nat} {s t : State} {f : Failure} {text : Text}

/-! ## Targets -/

theorem not_fails_kind (v : Value) : ¬ (liftM v.kind : Run Kind).Fails s f := by
  intro h
  obtain ⟨fault, hv, hf⟩ := Run.fails_liftM_iff.mp h
  exact kind_failure hv hf

/-- A place in a list is refused by an error. -/
theorem not_fails_storeItem {source : Text} {r : Ref} {key value : Value} :
    ¬ (Operation.store source (.list r) key value).Fails s f := by
  intro h
  rcases Run.fails_bind_iff.mp h with h | ⟨k, t, -, h⟩
  · exact not_fails_kind _ h
  rcases Run.fails_bind_iff.mp h with h | ⟨k, t, -, h⟩
  · exact not_fails_kind _ h
  rcases Run.fails_bind_iff.mp h with h | ⟨index, t, -, h⟩
  · exact Run.not_fails_mapFault_within _ _ h
  rcases Run.fails_bind_iff.mp h with h | ⟨u, t, -, h⟩
  · exact Run.not_fails_pure _ h
  split at h
  · exact Run.not_fails_modify _ h
  · have hfault := (Run.fails_throw_iff _).mp h
    unfold outOfRange at hfault
    split at hfault <;> cases hfault

/-- Storing fails where a mapping refuses the key by a failure. -/
theorem store_fails_iff {source : Text} {container key value : Value} :
    (Operation.store source container key value).Fails s f ↔
      ∃ r, container = .dict r ∧ s.heap.keyIn key "item assignment" = .error (.failure f) := by
  constructor
  · intro h
    cases container with
    | list r => exact absurd h not_fails_storeItem
    | dict r =>
      refine ⟨r, rfl, ?_⟩
      rcases Run.fails_bind_iff.mp h with h | ⟨k, t, hk, h⟩
      · exact absurd h (not_fails_kind _)
      obtain ⟨-, rfl⟩ := Run.liftM_ok_iff.mp hk
      rcases Run.fails_bind_iff.mp h with h | ⟨key, t, -, h⟩
      · obtain ⟨fault, hkey, hf⟩ := Run.fails_look_iff.mp h
        obtain ⟨r, w, -, -, rfl⟩ := Heap.keyIn_failure hkey hf
        cases hf
        exact hkey
      · exact absurd h (Run.not_fails_modify _)
    | _ =>
      rcases Run.fails_bind_iff.mp h with h | ⟨k, t, -, h⟩
      · exact absurd h (not_fails_kind _)
      · cases (Run.fails_throw_iff _).mp h
  · rintro ⟨r, rfl, hkey⟩
    refine Run.fails_bind_iff.mpr (.inr ⟨.dict, s, rfl, ?_⟩)
    exact Run.fails_bind_iff.mpr (.inl (Run.fails_look_iff.mpr ⟨_, hkey, rfl⟩))

theorem assign_fails_iff {e : Expr} {v : Value} :
    (assign (Engine.tower limits n 0) text e v).Fails s f ↔ PlaceEscapes limits n text e s f := by
  constructor
  · intro h
    cases e with
    | name span id => exact absurd h (Run.not_fails_modify _)
    | subscript span container key =>
      rcases Run.fails_bind_iff.mp h with h | ⟨c, t, hc, h⟩
      · exact .container (evaluateNode_fails_iff.mp h)
      rcases Run.fails_bind_iff.mp h with h | ⟨k, u, hk, h⟩
      · exact .key hc (evaluateNode_fails_iff.mp h)
      obtain ⟨r, rfl, hkey⟩ := store_fails_iff.mp h
      exact .stored hc hk hkey
    | _ => cases (Run.fails_throw_iff _).mp h
  · intro h
    cases h with
    | container h => exact Run.fails_bind_iff.mpr (.inl (evaluateNode_fails_iff.mpr h))
    | key hc h =>
      exact Run.fails_bind_iff.mpr (.inr ⟨_, _, hc,
        Run.fails_bind_iff.mpr (.inl (evaluateNode_fails_iff.mpr h))⟩)
    | stored hc hk hkey =>
      exact Run.fails_bind_iff.mpr (.inr ⟨_, _, hc, Run.fails_bind_iff.mpr (.inr ⟨_, _, hk,
        store_fails_iff.mpr ⟨_, rfl, hkey⟩⟩)⟩)

end Evaluation

/-! ## Statements -/

namespace Execution

open Evaluation

variable {limits : Limits} {n : Nat} {s t : State} {f : Failure}

/-- Binds a value to a target that has been read. -/
def bindRead (limits : Limits) (n : Nat) (target : Text) (value : Value) (isAugmented : Bool)
    (e : Expr) : Run Unit := do
  match e with
  | .tuple _ items =>
    if isAugmented then
      throw (.badSyntax ("illegal target for augmented assignment: " ++ target))
    let values ← Run.look fun h => h.unpack (n / 2) value items.length
    for (item, v) in items.zip values do
      assign ((room limits n).below 4) target.trim item v
  | e => assign ((room limits n).below 4) target.trim e value

theorem assignBelow_fails_iff {text : Text} {e : Expr} {v : Value} :
    (assign ((room limits n).below 4) text e v).Fails s f ↔ PlaceEscapes limits (n - 4) text e s f := by
  show (assign (Engine.tower limits n 4) text e v).Fails s f ↔ _
  rw [Engine.tower_below]
  exact assign_fails_iff

theorem bindParts_fails_iff {target : Text} {value : Value} {span : Span} {items : List Expr} :
    (bindRead limits n target value false (.tuple span items)).Fails s f ↔
      s.heap.unpack (n / 2) value items.length = .error (.failure f) ∨
        ∃ values, s.heap.unpack (n / 2) value items.length = .ok values ∧
          FailsAt (fun p => assign ((room limits n).below 4) target.trim p.1 p.2)
            (fun p => PlaceEscapes limits (n - 4) target.trim p.1) (items.zip values) s f := by
  unfold bindRead
  simp only [Bool.false_eq_true, if_false]
  rw [Run.fails_bind_iff, Run.fails_look_iff]
  constructor
  · rintro (⟨fault, hunpack, hf⟩ | ⟨values, t, hunpack, h⟩)
    · obtain ⟨rfl, -⟩ := Heap.unpack_failure hunpack hf
      cases hf
      exact .inl hunpack
    · obtain ⟨hvalues, rfl⟩ := Run.look_ok_iff.mp hunpack
      rcases Run.fails_bind_iff.mp h with h | ⟨u, t, -, h⟩
      · exact .inr ⟨values, hvalues,
          (Run.fails_forIn_iff fun p _ s => assignBelow_fails_iff).mp h⟩
      · exact absurd h (Run.not_fails_pure _)
  · rintro (hunpack | ⟨values, hunpack, h⟩)
    · exact .inl ⟨_, hunpack, rfl⟩
    · exact .inr ⟨values, s, Run.look_ok_iff.mpr ⟨hunpack, rfl⟩, Run.fails_bind_iff.mpr
        (.inl ((Run.fails_forIn_iff fun p _ s => assignBelow_fails_iff).mpr h))⟩

theorem bindRead_fails_iff {target : Text} {value : Value} {isAugmented : Bool} {e : Expr}
    (hparse : Expr.parse (n - readingLevels) target = .ok e) :
    (bindRead limits n target value isAugmented e).Fails s f ↔
      BindingEscapes limits n target value isAugmented s f := by
  constructor
  · intro h
    cases e with
    | tuple span items =>
      cases isAugmented with
      | true =>
        rcases Run.fails_bind_iff.mp h with h | ⟨u, t, h, -⟩
        · cases (Run.fails_throw_iff _).mp h
        · cases h
      | false =>
        rcases bindParts_fails_iff.mp h with hunpack | ⟨values, hunpack, h⟩
        · exact .unpacked hparse rfl hunpack
        · exact .part hparse rfl hunpack h
    | _ =>
      exact .whole hparse (fun _ _ h => by cases h) ((assignBelow_fails_iff (v := value)).mp h)
  · intro h
    cases h with
    | longDigits hlong =>
      rw [hparse] at hlong
      cases hlong
    | unpacked htuple haug hunpack =>
      cases hparse.symm.trans htuple
      subst haug
      exact bindParts_fails_iff.mpr (.inl hunpack)
    | part htuple haug hunpack h =>
      cases hparse.symm.trans htuple
      subst haug
      exact bindParts_fails_iff.mpr (.inr ⟨_, hunpack, h⟩)
    | whole hwhole hno h =>
      cases hparse.symm.trans hwhole
      cases e with
      | tuple span items => exact absurd rfl (hno span items)
      | _ => exact (assignBelow_fails_iff (v := value)).mpr h

theorem bindTarget_fails_iff {target : Text} {value : Value} {isAugmented : Bool} :
    (bindTarget (room limits n) target value isAugmented).Fails s f ↔
      BindingEscapes limits n target value isAugmented s f := by
  have hlevels : (room limits n).levels = n := rfl
  unfold bindTarget
  rw [hlevels]
  cases hread : read n target with
  | ok e =>
    change (bindRead limits n target value isAugmented e).Fails s f ↔ _
    exact bindRead_fails_iff (read_ok_iff.mp hread)
  | error fault =>
    have hescapes : BindingEscapes limits n target value isAugmented s f ↔
        fault.failure? = some f := by
      constructor
      · intro h
        cases h with
        | longDigits hlong =>
          obtain ⟨hfault, hf⟩ := read_failure_iff.mpr ⟨_, hlong, rfl, rfl⟩
          cases hread.symm.trans hfault
          exact hf
        | unpacked hparse | part hparse | whole hparse =>
          cases hread.symm.trans (read_ok_iff.mpr hparse)
      · intro hf
        obtain ⟨digits, hlong, -, rfl⟩ := read_failure_iff.mp ⟨hread, hf⟩
        exact .longDigits hlong
    rw [hescapes]
    cases fault with
    | error e => exact Run.fails_throw_bind_iff (.badSyntax ("cannot assign to " ++ target)) _
    | failure f' => exact Run.fails_throw_bind_iff (.failure f') _
    | unreported f' => exact Run.fails_throw_bind_iff (.unreported f') _
    | tooDeep => exact Run.fails_throw_bind_iff .tooDeep _

theorem not_fails_importable (name : Text) : ¬ (liftM (importable name) : Run Library).Fails s f := by
  intro h
  obtain ⟨fault, hlibrary, hf⟩ := Run.fails_liftM_iff.mp h
  unfold importable at hlibrary
  split at hlibrary <;> cases hlibrary
  cases hf

theorem not_fails_member (m : Module) (name : Text) :
    ¬ (liftM (m.member name) : Run Value).Fails s f := by
  intro h
  obtain ⟨fault, hmember, hf⟩ := Run.fails_liftM_iff.mp h
  unfold Module.member at hmember
  split at hmember <;> cases hmember
  cases hf

theorem not_fails_importName (line : Text) (l : Library) (name : Text) :
    ¬ (importName line l name).Fails s f := by
  intro h
  unfold importName at h
  simp only at h
  split at h
  · rcases Run.fails_bind_iff.mp h with h | ⟨u, t, -, h⟩
    · refine Run.not_fails_forIn (fun member _ s h => ?_) h
      rcases Run.fails_bind_iff.mp h with h | ⟨v, t, -, h⟩
      · exact not_fails_member _ _ h
      rcases Run.fails_bind_iff.mp h with h | ⟨u, t, -, h⟩
      · exact Run.not_fails_modify _ h
      · exact Run.not_fails_pure _ h
    · exact Run.not_fails_pure _ h
  · split at h
    · cases (Run.fails_throw_iff _).mp h
    · split at h
      · exact Run.not_fails_modify _ h
      · cases (Run.fails_throw_iff _).mp h

theorem evaluateBelow_fails_iff {k : Nat} {text : Text} :
    (((room limits n).below k).evaluate text).Fails s f ↔ TextEscapes limits (n - k) text s f := by
  show ((Engine.tower limits n k).evaluate text).Fails s f ↔ _
  rw [Engine.tower_below]
  exact evaluate_fails_iff

theorem not_fails_write (line : Text) : ¬ (Run.write limits line).Fails s f := by
  intro h
  rcases Run.fails_bind_iff.mp h with h | ⟨u, t, -, h⟩
  · exact Run.not_fails_modify _ h
  rcases Run.fails_bind_iff.mp h with h | ⟨u, t, -, h⟩
  · cases h with
    | intro fault h => cases h.choose_spec.1
  · split at h
    · rcases Run.fails_bind_iff.mp h with h | ⟨u, t, h, -⟩
      · cases (Run.fails_throw_iff _).mp h
      · cases h
    · exact Run.not_fails_modify _ h

theorem echo_fails_iff {text : Text} :
    (echo limits (room limits n) text).Fails s f ↔
      TextEscapes limits (n - 1) text s f ∨
        ∃ v t, ((room limits n).below 1).evaluate text s = .ok v t ∧ v ≠ .none ∧ v ≠ .text "" ∧
          beginsWithPrint text = false ∧ t.heap.format (n / 2) v = .error (.failure f) := by
  unfold echo
  rw [Run.fails_bind_iff, evaluateBelow_fails_iff]
  refine or_congr_right (exists_congr fun v => exists_congr fun t => and_congr_right fun _ => ?_)
  simp only [Run.fails_ite_iff, Bool.and_eq_true, bne_iff_ne, Bool.not_eq_true', and_assoc,
    Run.not_fails_pure, and_false, or_false]
  refine and_congr_right fun _ => and_congr_right fun _ => and_congr_right fun _ => ?_
  rw [Run.fails_bind_iff, Run.fails_look_iff]
  constructor
  · rintro (⟨fault, htext, hf⟩ | ⟨line, t, -, h⟩)
    · obtain ⟨rfl, -⟩ := Heap.format_failure htext hf
      cases hf
      exact htext
    · exact absurd h (not_fails_write line)
  · intro htext
    exact .inl ⟨_, htext, rfl⟩

theorem assignment_fails_iff {target operator expression : Text} :
    (assignment (room limits n) target operator expression).Fails s f ↔
      target ≠ [] ∧ expression ≠ [] ∧
        (TextEscapes limits (n - 2) (assignedText target operator expression) s f ∨
          ∃ v t, ((room limits n).below 2).evaluate (assignedText target operator expression) s =
              .ok v t ∧
            BindingEscapes limits n target v (operator != "=") t f) := by
  by_cases hempty : target = [] ∨ expression = []
  · have htrue : (target.isEmpty || expression.isEmpty) = true := by simpa using hempty
    unfold assignment
    simp only [htrue, if_true]
    rw [Run.fails_throw_bind_iff]
    constructor
    · intro h
      cases h
    · rintro ⟨htarget, hexpression, -⟩
      exact absurd hempty (not_or.mpr ⟨htarget, hexpression⟩)
  · have hfalse : (target.isEmpty || expression.isEmpty) = false := by simpa using hempty
    obtain ⟨htarget, hexpression⟩ := not_or.mp hempty
    rw [assignment_eq hfalse, Run.fails_bind_iff, evaluateBelow_fails_iff]
    constructor
    · intro h
      refine ⟨htarget, hexpression, h.imp_right ?_⟩
      rintro ⟨v, t, hv, h⟩
      exact ⟨v, t, hv, bindTarget_fails_iff.mp h⟩
    · rintro ⟨-, -, h⟩
      refine h.imp_right ?_
      rintro ⟨v, t, hv, h⟩
      exact ⟨v, t, hv, bindTarget_fails_iff.mpr h⟩

theorem statement_fails_iff {line : Text} {st : Statement} :
    (statement limits (room limits n) line st).Fails s f ↔ StatementEscapes limits n line st s f := by
  constructor
  · intro h
    cases st with
    | pass => exact absurd h (Run.not_fails_pure _)
    | importModule module =>
      rcases Run.fails_bind_iff.mp h with h | ⟨l, t, -, h⟩
      · exact absurd h (not_fails_importable _)
      · exact absurd h (Run.not_fails_modify _)
    | importNames module names =>
      rcases Run.fails_bind_iff.mp h with h | ⟨l, t, -, h⟩
      · exact absurd h (not_fails_importable _)
      rcases Run.fails_bind_iff.mp h with h | ⟨u, t, -, h⟩
      · refine absurd h (Run.not_fails_forIn fun name _ s h => ?_)
        rcases Run.fails_bind_iff.mp h with h | ⟨u, t, -, h⟩
        · exact not_fails_importName _ _ _ h
        · exact Run.not_fails_pure _ h
      · exact absurd h (Run.not_fails_pure _)
    | assign target operator expression =>
      obtain ⟨htarget, hexpression, h | ⟨v, t, hv, h⟩⟩ := assignment_fails_iff.mp h
      · exact .assigned htarget hexpression h
      · exact .bound htarget hexpression hv h
    | expression text =>
      rcases echo_fails_iff.mp h with h | ⟨v, t, hv, hnone, hempty, hprint, htext⟩
      · exact .evaluated h
      · exact .shown hv hnone hempty hprint htext
  · intro h
    cases h with
    | assigned htarget hexpression h =>
      exact assignment_fails_iff.mpr ⟨htarget, hexpression, .inl h⟩
    | bound htarget hexpression hv h =>
      exact assignment_fails_iff.mpr ⟨htarget, hexpression, .inr ⟨_, _, hv, h⟩⟩
    | evaluated h => exact echo_fails_iff.mpr (.inl h)
    | shown hv hnone hempty hprint htext =>
      exact echo_fails_iff.mpr (.inr ⟨_, _, hv, hnone, hempty, hprint, htext⟩)

end Execution

end Scriptlet
