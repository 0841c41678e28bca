import Mathlib.Algebra.Ring.Nat
import Scriptlet.Proofs.Source.Lines
import Scriptlet.Proofs.Steps

/-
  The lines that a run writes.

  The lines held and the budget used are kept apart, and a refused line uses budget up without being
  held. So what is held is never more than what is paid for, and a line that is held was paid for
  within the cap.

  What is proved:
    1. `NamedEffects.appends` and `NamedEffects.within` — the effects of a run leave the lines held where they
       are and put others behind them, and what is held stays within the cap.
    2. `Output.text_length` — the text of some lines is one character shorter than their size.
    3. `Session.output_appends` — at all levels of nesting and in all steps of a session lines are only
       appended and stay within the cap; and what the script of a session gives is the text of all
       lines held, shorter than the cap, or else the script has written nothing.
-/

namespace Scriptlet

/-! ## What is held -/

namespace Output

/-- The characters of the lines held, each counted with its line feed. -/
def size (output : Output) : Nat := (output.lines.toList.map fun line => line.length + 1).sum

/-- What is held is paid for and within the cap. -/
structure Within (limits : Limits) (output : Output) : Prop where
  paid : output.size ≤ output.used
  capped : (output.size : Int) ≤ limits.maxOutputSize

/-- The second output begins with the lines of the first. -/
def Extends (first second : Output) : Prop := first.lines.toList <+: second.lines.toList

theorem Extends.refl (output : Output) : output.Extends output := List.prefix_refl _

theorem Extends.trans {first second third : Output} (h : first.Extends second)
    (h' : second.Extends third) : first.Extends third :=
  List.IsPrefix.trans h h'

theorem size_push (output : Output) (line : Text) :
    (output.push line).size = output.size + (line.length + 1) := by
  simp [size, push]

theorem extends_push (output : Output) (line : Text) : output.Extends (output.push line) := by
  unfold Extends push
  rw [Array.toList_push]
  exact List.prefix_append _ _

/-- A refused line uses budget, and what is held stays as it is. -/
theorem Within.charge {limits : Limits} {output : Output} (h : output.Within limits) (line : Text) :
    (output.charge line).Within limits where
  paid := by
    show output.size ≤ output.used + line.length + 1
    have hpaid := h.paid
    omega
  capped := h.capped

/-- A line whose budget is within the cap can be held. -/
theorem Within.push {limits : Limits} {output : Output} (h : output.Within limits) {line : Text}
    (hused : (output.charge line).used ≤ limits.maxOutputSize) :
    ((output.charge line).push line).Within limits := by
  have hsize : ((output.charge line).push line).size = output.size + (line.length + 1) :=
    size_push _ _
  have hcharge : (output.charge line).used = output.used + line.length + 1 := rfl
  have hpaid := h.paid
  refine ⟨?_, ?_⟩
  · show _ ≤ (output.charge line).used
    omega
  · omega

theorem join_length {ls : List Text} (hls : ls ≠ []) :
    (Text.join "\n" ls).length + 1 = (ls.map fun line => line.length + 1).sum := by
  induction ls with
  | nil => exact absurd rfl hls
  | cons line rest ih =>
    cases rest with
    | nil => simp [Text.join_singleton]
    | cons next rest =>
      have hfeed : List.length (Text.ofString "\n") = 1 := rfl
      rw [Text.join_cons_cons, List.map_cons, List.sum_cons, ← ih (List.cons_ne_nil next rest),
        List.length_append, List.length_append, hfeed]
      omega

/-- The text of some lines has no line feed behind the last one. -/
theorem text_length {output : Output} (h : output.lines ≠ #[]) :
    output.text.length + 1 = output.size :=
  join_length fun hnil => h (Array.toList_eq_nil_iff.mp hnil)

end Output

/-! ## What runs do to it -/

section

variable {limits : Limits} {named : Text → Prop} {s t : State}

theorem NamedEffects.appends (h : NamedEffects limits named s t) : s.output.Extends t.output := by
  induction h with
  | trans _ _ ihs iht => exact ihs.trans iht
  | written s line _ => exact Output.extends_push (s.output.charge line) line
  | block _ _ ih => exact ih
  | _ => exact .refl _

theorem NamedEffects.within (h : NamedEffects limits named s t) (hs : s.output.Within limits) :
    t.output.Within limits := by
  induction h with
  | trans _ _ ihs iht => exact iht (ihs hs)
  | refused s line => exact hs.charge line
  | written s line hused => exact hs.push hused
  | block _ _ ih => exact ih hs
  | _ => exact hs

end

/-- Whatever a step does, with a fault or without one: the lines held stay, others come behind them,
and all of them are within the cap. -/
def Run.Appends {α : Type} (limits : Limits) (x : Run α) : Prop :=
  ∀ s : State, s.output.Within limits →
    s.output.Extends (x.after s).output ∧ (x.after s).output.Within limits

theorem Run.Acts.appends {α : Type} {limits : Limits} {x : Run α} (h : Run.Acts limits anyName x) :
    Run.Appends limits x := fun s hs => ⟨(h s).appends, (h s).within hs⟩

/-- All that is executed with so many levels of nesting below it only appends. -/
structure Engine.Appends (limits : Limits) (levels : Nat) : Prop where
  evaluate : ∀ text, Run.Appends limits ((tower limits levels 0).evaluate text)
  evaluateNode : ∀ text e, Run.Appends limits ((tower limits levels 0).evaluateNode text e)
  runLines : ∀ ls, Run.Appends limits ((tower limits levels 0).runLines ls)
  call : ∀ f arguments, Run.Appends limits ((tower limits levels 0).call f arguments)
  statement : ∀ line s, Run.Appends limits (Execution.statement limits (room limits levels) line s)
  header : ∀ h body, Run.Appends limits (Execution.header (room limits levels) h body)
  sequence : ∀ ls, Run.Appends limits (Execution.sequence limits (room limits levels) ls)

theorem Engine.appends (limits : Limits) (levels : Nat) : Engine.Appends limits levels where
  evaluate text := ((tower_acts binds_anyName levels 0).evaluate text).appends
  evaluateNode text e := ((tower_acts binds_anyName levels 0).evaluateNode text e).appends
  runLines ls := ((tower_acts binds_anyName levels 0).runLines ls).appends
  call f arguments := ((tower_acts binds_anyName levels 0).call f arguments).appends
  statement _ s := (Execution.acts_statement (tower_acts binds_anyName levels) binds_anyName s).appends
  header _ _ := (Execution.acts_header (tower_acts binds_anyName levels) fun _ _ => trivial).appends
  sequence ls := (Execution.acts_sequence (tower_acts binds_anyName levels) binds_anyName ls).appends

/-! ## What a script gives -/

namespace Session

/-- A script that ends well gives the text of all lines held; without lines of its own, or without
lines held, it gives the placeholder. -/
theorem script_apply_ok {limits : Limits} {source text : Text} {s t : State}
    (h : script limits source s = .ok text t) :
    Source.cleanLines source = [] ∧ text = noOutput ∧ t = s ∨
      Source.cleanLines source ≠ [] ∧
        text = if t.output.lines.isEmpty then noOutput else t.output.text := by
  unfold script at h
  rw [Run.bind_apply, Run.liftM_apply] at h
  cases hlength : requireLength limits source with
  | error fault =>
    rw [hlength] at h
    cases h
  | ok _ =>
    rw [hlength] at h
    simp only at h
    by_cases hlines : Source.cleanLines source = []
    · rw [hlines] at h
      cases h
      exact .inl ⟨hlines, rfl, rfl⟩
    · rw [if_neg (by simpa using hlines), Run.bind_apply] at h
      refine .inr ⟨hlines, ?_⟩
      split at h
      · cases h
        rfl
      · cases h

theorem execute_ok {s : Session} {source text : Text} (h : (s.execute source).1 = .ok text) :
    script s.limits source s.state = .ok text (s.execute source).2.state := by
  unfold execute at h ⊢
  split at h
  · cases h
  · rename_i hused
    rw [if_neg hused]
    unfold run at h ⊢
    simp only at h ⊢
    split at h
    · rename_i a t hrun
      cases h
      rw [hrun]
    · cases h

theorem performAll_within {limits : Limits} (hcap : 0 ≤ limits.maxOutputSize) (clock : Moment)
    (seed : Nat) (steps : List Step) :
    ((initial limits clock seed).performAll steps).state.output.Within limits :=
  (performAll_effects (initial limits clock seed) steps).within ⟨Nat.le_refl 0, hcap⟩

/-- In a session under limits that leave room for output, whatever steps have been taken and however
they have ended: the lines held are within the cap, each further step only appends to them, and so
does all that is executed at any level of nesting. If the script of the session then gives a text, it
is the text of all lines held, shorter than the cap; or it is the placeholder, and then the script has
written nothing and has no line itself or no line is held. -/
theorem output_appends (limits : Limits) (hcap : 0 ≤ limits.maxOutputSize) (clock : Moment)
    (seed : Nat) (steps : List Step) :
    let s := (initial limits clock seed).performAll steps
    s.state.output.Within limits ∧
    (∀ step, s.state.output.Extends (s.perform step).state.output) ∧
    (∀ levels, Engine.Appends limits levels) ∧
    ∀ source text, (s.execute source).1 = .ok text →
      let held := (s.execute source).2.state.output
      Source.cleanLines source ≠ [] ∧ held.lines ≠ #[] ∧ text = held.text ∧
          (text.length : Int) < limits.maxOutputSize ∨
        (Source.cleanLines source = [] ∨ held.lines = #[]) ∧ text = noOutput ∧
          held.lines = s.state.output.lines := by
  intro s
  have hwithin : s.state.output.Within limits := performAll_within hcap clock seed steps
  refine ⟨hwithin, fun step => (perform_effects s step).appends, Engine.appends limits, ?_⟩
  intro source text htext held
  have heffects : Effects s.limits s.state (s.execute source).2.state :=
    perform_effects s (.execute source)
  have hlimits : s.limits = limits := performAll_limits (initial limits clock seed) steps
  obtain ⟨hnone, hplaceholder, hsame⟩ | ⟨hlines, hgives⟩ := script_apply_ok (execute_ok htext)
  · exact .inr ⟨.inl hnone, hplaceholder, congrArg (·.output.lines) hsame⟩
  · by_cases hheld : held.lines = #[]
    · refine .inr ⟨.inr hheld, ?_, ?_⟩
      · rw [hgives, show (s.execute source).2.state.output.lines = #[] from hheld]
        rfl
      · -- Lines are only appended, so where none is held behind the script none was held before it.
        have hprefix : s.state.output.lines.toList <+: held.lines.toList := heffects.appends
        rw [hheld, Array.toList_empty, List.prefix_nil, Array.toList_eq_nil_iff] at hprefix
        rw [hheld, hprefix]
    · refine .inl ⟨hlines, hheld, ?_, ?_⟩
      · rw [hgives, if_neg (by simpa using hheld)]
      · have hlast : held.Within limits := by
          rw [hlimits] at heffects
          exact heffects.within hwithin
        have hsize := Output.text_length hheld
        have hcapped := hlast.capped
        rw [hgives, if_neg (by simpa using hheld)]
        show (held.text.length : Int) < _
        omega

/-- A session that has written a line before its script. -/
def prepared : Session := (initial .standard ⟨0⟩ 0).performAll [.run "print(1)"]

theorem output_appends_prepared :
    (0 : Int) ≤ Limits.standard.maxOutputSize ∧
      (prepared.execute "print(2)").1 = .ok (Text.ofString "1\n2") ∧
      (prepared.execute "print(2)").2.state.output.text = Text.ofString "1\n2" := by
  have hcap : (0 : Int) ≤ Limits.standard.maxOutputSize := by decide
  have htext : (prepared.execute "print(2)").1 = .ok (Text.ofString "1\n2") := by decide +kernel
  refine ⟨hcap, htext, ?_⟩
  obtain ⟨-, -, hheld, -⟩ | ⟨-, hplaceholder, -⟩ :=
    (output_appends .standard hcap ⟨0⟩ 0 [.run "print(1)"]).2.2.2 _ _ htext
  · exact hheld.symm
  · exact absurd hplaceholder (by decide)

/-- A script without lines gives the placeholder although the session holds a line, and a script that
writes one line gives the lines of earlier steps with it. -/
theorem execute_prepared :
    prepared.state.output.lines = #[Text.ofString "1"] ∧
      (prepared.execute "").1 = .ok noOutput ∧
      (prepared.execute "").2.state.output.text = Text.ofString "1" ∧
      (prepared.execute "print(2)").1 = .ok (Text.ofString "1\n2") := by
  decide +kernel

end Session

end Scriptlet
