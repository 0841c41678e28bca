import Scriptlet.Proofs.Steps
import Scriptlet.Proofs.Rendering

/-
  Templates of one value.

  The directives `%s` and `%r` print a value by the rule of templates, and the functions `str` and `repr` by
  that of the language. So they give the same text of what shows no record, and different ones of what shows
  one.

  What is proved:
    1. `Operation.binary_directive` — what a template of one directive gives is the text of the value.
    2. `State.directives_agree_iff` — the texts are the same just when the value shows no record.
    3. `State.not_directives_agree_file` — a file has two texts.
-/

namespace Scriptlet

namespace Template

/-- The text of a value by one of the two directives. -/
def shown (h : Heap) (levels : Nat) (isPlain : Bool) (v : Value) : Except Fault Text :=
  match isPlain, v with
  | true, .text t => .ok t
  | _, v => h.plainRepr levels v

/-- The template of one of the two directives. -/
def single (isPlain : Bool) : Text := if isPlain then "%s" else "%r"

variable {h : Heap} {levels : Nat} {isPlain : Bool} {v : Value} {r : Ref} {segments : List Segment}

/-- The directive without a key, flags, a width and a precision. -/
def directive (isPlain : Bool) : Directive :=
  ⟨.absent, ⟨false, false, false, false, false⟩, .absent, .absent, some (if isPlain then 's' else 'r'), 1⟩

theorem parts_single (isPlain : Bool) : parts (single isPlain) = [.directive (directive isPlain)] := by
  cases isPlain <;> decide

theorem fill_directive : (directive isPlain).fill h levels ⟨[v], none⟩ = (do
    let t ← shown h levels isPlain v
    return ((textBody none t).align (directive isPlain).flags 0, ⟨[], none⟩)) := by
  have hconvert : (directive isPlain).fill h levels ⟨[v], none⟩ = (do
      let body ← (do return textBody none (← shown h levels isPlain v))
      return (body.align (directive isPlain).flags 0, ⟨[], none⟩)) := by
    cases isPlain with
    | false => rfl
    | true => cases v <;> rfl
  rw [hconvert, bind_assoc]
  rfl

/-- A text without a width is aligned as it is. -/
theorem join_align (t : Text) (flags : Flags) : Segment.join ((textBody none t).align flags 0) = t := by
  have hempty : ("" : Text) = [] := rfl
  unfold Body.align textBody
  cases flags.left <;> simp [Segment.join, Segment.toText, hempty]

theorem fill_single (hr : h.tuple r = #[v]) (hfill : fill h levels (single isPlain) (.tuple r) = .ok segments) :
    shown h levels isPlain v = .ok (Segment.join segments) := by
  have hsupply : Supply.of h (.tuple r) = ⟨[v], none⟩ := by
    show (⟨(h.tuple r).toList, none⟩ : Supply) = _
    rw [hr]
  unfold fill at hfill
  rw [parts_single, hsupply] at hfill
  obtain ⟨⟨filled, rest⟩, hparts, hdone⟩ := bind_ok hfill
  obtain ⟨⟨first, after⟩, hfirst, hnone⟩ := bind_ok hparts
  rw [fill_directive] at hfirst
  obtain ⟨t, ht, haligned⟩ := bind_ok hfirst
  cases haligned
  cases hnone
  cases hdone
  rw [List.append_nil, join_align, ht]

end Template

/-! ## Operators and calls -/

section

variable {s t : State} {v w : Value} {r : Ref} {limits : Limits} {levels : Nat} {room : Room}
  {isPlain : Bool}

/-- What a template of one directive gives is the text of the value that fills it. -/
theorem Operation.binary_directive (hr : s.heap.tuple r = #[v])
    (hw : binary limits levels .mod (.text (Template.single isPlain)) (.tuple r) s = .ok w t) :
    ∃ text, Template.shown s.heap levels isPlain v = .ok text ∧ w = .text text ∧ t = s := by
  unfold binary at hw
  obtain ⟨_, s₁, hoperands, hw⟩ := Run.bind_ok_iff.mp hw
  obtain ⟨_, s₂, hbits, hw⟩ := Run.bind_ok_iff.mp hw
  obtain ⟨happly, -⟩ := Run.tested_ok_iff.mp hw
  obtain ⟨segments, s₃, hfill, hsize⟩ := Run.bind_ok_iff.mp happly
  obtain ⟨_, s₄, hsize, hresult⟩ := Run.bind_ok_iff.mp hsize
  obtain ⟨-, rfl⟩ := Run.liftM_ok_iff.mp hoperands
  obtain ⟨-, rfl⟩ := Run.liftM_ok_iff.mp hbits
  obtain ⟨hsegments, rfl⟩ := Run.look_ok_iff.mp hfill
  obtain ⟨-, rfl⟩ := Run.liftM_ok_iff.mp hsize
  cases hresult
  exact ⟨_, Template.fill_single hr hsegments, rfl, rfl⟩

/-- The function that prints a value as a directive does: as text, or as it stands in containers. -/
def Builtin.ofDirective (isPlain : Bool) : Builtin := if isPlain then .str else .repr

/-- The text of a value by the rule of the language. -/
def Heap.ownText (h : Heap) (levels : Nat) (isPlain : Bool) (v : Value) : Except Fault Text :=
  if isPlain then h.format levels v else h.repr levels v

theorem Call.function_ofDirective
    (hw : function limits room (.builtin (.ofDirective isPlain)) ⟨[v], []⟩ s = .ok w t) :
    ∃ text, s.heap.ownText room.printing isPlain v = .ok text ∧ w = .text text ∧ t = s := by
  have hcall : function limits room (.builtin (.ofDirective isPlain)) ⟨[v], []⟩ = (do
      return .text (← Run.look fun h => h.ownText room.printing isPlain v)) := by
    cases isPlain <;> rfl
  rw [hcall] at hw
  obtain ⟨text, u, hlook, hdone⟩ := Run.bind_ok_iff.mp hw
  obtain ⟨htext, rfl⟩ := Run.look_ok_iff.mp hlook
  cases hdone
  exact ⟨text, htext, rfl, rfl⟩

/-- The two texts of a value are the same unless it shows a record, and part where it does. -/
theorem Heap.ownText_agrees {h : Heap} {n : Nat} {text text' : Text}
    (hown : h.ownText n isPlain v = .ok text) (hshown : Template.shown h levels isPlain v = .ok text')
    (hsets : ¬ h.HoldsLargeSet v) : Text.Agree (h.ShowsRecord v) text text' := by
  have hrender : ∀ {text text'}, h.repr n v = .ok text → h.plainRepr levels v = .ok text' →
      Text.Agree (h.ShowsRecord v) text text' := fun htext htext' =>
    render_agrees htext htext' hsets (List.forall_mem_nil _)
  cases isPlain with
  | false => exact hrender hown hshown
  | true =>
    cases v with
    | text x =>
      cases hown
      cases hshown
      exact .refl (not_showsRecord_of_empty (fun _ heq => by cases heq) fun _ hw => by cases hw) _
    | _ => exact hrender hown hshown

end

/-- What a template of one directive gives for a value is what the function of the directive gives, just
when the value shows no record, neither itself nor at any depth. -/
theorem State.directives_agree_iff {s : State} {v : Value} {r : Ref} (hr : s.heap.tuple r = #[v])
    (hsets : ¬ s.heap.HoldsLargeSet v) (limits : Limits) (room : Room) (levels : Nat) (isPlain : Bool)
    {x y : Value} {t u : State}
    (hx : Operation.binary limits levels .mod (.text (Template.single isPlain)) (.tuple r) s = .ok x t)
    (hy : Call.function limits room (.builtin (.ofDirective isPlain)) ⟨[v], []⟩ s = .ok y u) :
    x = y ↔ ¬ s.heap.ShowsRecord v := by
  obtain ⟨text, hshown, rfl, -⟩ := Operation.binary_directive hr hx
  obtain ⟨text', hown, rfl, -⟩ := Call.function_ofDirective hy
  have hagree := Heap.ownText_agrees hown hshown hsets
  constructor
  · rintro heq hshows
    cases heq
    exact (hagree.splits hshows).ne rfl
  · intro hnone
    rw [hagree.same hnone]

/-! ## Runs on fixed states -/

/-- What a run gives. -/
def Run.value? {α : Type} : EStateM.Result Fault State α → Option α
  | .ok a _ => some a
  | .error _ _ => none

theorem Run.exists_of_value? {α : Type} {r : EStateM.Result Fault State α} {a : α}
    (h : value? r = some a) : ∃ t, r = .ok a t := by
  cases r with
  | ok b t =>
    cases h
    exact ⟨t, rfl⟩
  | error fault t => cases h

/-- A list with a text in it has one text, by the directive and by the function. -/
theorem State.directives_agree_list :
    let s := ((Session.initial .standard ⟨0⟩ 0).performAll [.run "w = ([1, 'b'],)"]).state
    s.vars.bindings = [(("w" : Text), Value.tuple 1)] ∧ s.heap.tuple 1 = #[.list 1] ∧
      ∃ t u, Operation.binary .standard 9 .mod (.text "%s") (.tuple 1) s = .ok (.text "[1, 'b']") t ∧
        Call.function .standard (Engine.room .standard 8) (.builtin .str) ⟨[.list 1], []⟩ s =
          .ok (.text "[1, 'b']") u ∧ ¬ s.heap.ShowsRecord (.list 1) := by
  intro s
  have hr : s.heap.tuple 1 = #[.list 1] := by decide +kernel
  have hitems : (s.heap.list 1).toList = [.int 1, .text "b"] := by decide +kernel
  have hsets : ¬ s.heap.HoldsLargeSet (.list 1) := by
    rintro ⟨r, hholds, -⟩
    cases hholds with
    | item hmem hholds =>
      rw [hitems] at hmem
      rcases List.mem_pair.mp hmem with rfl | rfl <;> cases hholds
  obtain ⟨t, ht⟩ : ∃ t, Operation.binary .standard 9 .mod (.text "%s") (.tuple 1) s =
      .ok (.text "[1, 'b']") t := Run.exists_of_value? (by decide +kernel)
  obtain ⟨u, hu⟩ : ∃ u, Call.function .standard (Engine.room .standard 8) (.builtin .str) ⟨[.list 1], []⟩ s =
      .ok (.text "[1, 'b']") u := Run.exists_of_value? (by decide +kernel)
  have hagree := directives_agree_iff hr hsets .standard (Engine.room .standard 8) 9 true ht hu
  exact ⟨by decide +kernel, hr, t, u, ht, hu, hagree.mp rfl⟩

/-- A file has two texts. -/
theorem State.not_directives_agree_file :
    let s := ((Session.initial .standard ⟨0⟩ 0).performAll [.run "w = (open('a'),)"]).state
    s.vars.bindings = [(("w" : Text), Value.tuple 1)] ∧ s.heap.tuple 1 = #[.record 0] ∧
      ∃ t u, Operation.binary .standard 9 .mod (.text "%s") (.tuple 1) s = .ok (.text "<module 'file'>") t ∧
        Call.function .standard (Engine.room .standard 8) (.builtin .str) ⟨[.record 0], []⟩ s =
          .ok (.text "<simulated file 'a' mode 'r'>") u ∧
        Value.text "<module 'file'>" ≠ .text "<simulated file 'a' mode 'r'>" := by
  intro s
  obtain ⟨t, ht⟩ : ∃ t, Operation.binary .standard 9 .mod (.text "%s") (.tuple 1) s =
      .ok (.text "<module 'file'>") t := Run.exists_of_value? (by decide +kernel)
  obtain ⟨u, hu⟩ : ∃ u, Call.function .standard (Engine.room .standard 8) (.builtin .str) ⟨[.record 0], []⟩ s =
      .ok (.text "<simulated file 'a' mode 'r'>") u := Run.exists_of_value? (by decide +kernel)
  exact ⟨by decide +kernel, by decide +kernel, t, u, ht, hu, by decide +kernel⟩

end Scriptlet
