import Scriptlet.Proofs.Echo
import Scriptlet.Proofs.Output

/-
  Lines that are refused.

  A line is charged to the budget before it is asked whether the budget can pay for it. So a refused line
  is not held but paid for, and what is paid is then more than the budget: after the first refusal nothing
  is written any more, however little is held.

  What is proved:
    1. `Run.write_apply` — what a write does to the lines held and to the budget used.
    2. `State.used_offered`, `State.offered_cases` — some lines that are offered one after the other are all
       paid for, and either all of them are held or the budget is overdrawn.
    3. `State.takes_offered_iff` — which lines are written after any lines have been offered, and when that depends
       on the lines held alone.
-/

namespace Scriptlet

namespace Output

/-- What a line takes of the budget: its characters and a line feed. -/
def cost (line : Text) : Nat := line.length + 1

/-- What some lines take of the budget. -/
def costs (ls : List Text) : Nat := (ls.map cost).sum

theorem costs_append (ls more : List Text) : costs (ls ++ more) = costs ls + costs more := by
  simp [costs]

theorem costs_single (line : Text) : costs [line] = cost line := rfl

theorem used_charge (output : Output) (line : Text) :
    (output.charge line).used = output.used + cost line := rfl

/-- The fault of a line that the budget cannot pay for. -/
def overdrawn (limits : Limits) : Fault :=
  .limit ("output exceeds the limit of " ++ Text.ofInt limits.maxOutputSize ++ " characters")

end Output

namespace State

variable {limits : Limits} {s : State}

/-- The state with an output of which nothing is used. -/
def silenced (s : State) : State := { s with output := .empty }

/-- The state with a line charged to the budget. -/
def charged (s : State) (line : Text) : State := { s with output := s.output.charge line }

/-- Whether the line is written. -/
def takes (limits : Limits) (s : State) (line : Text) : Bool :=
  match Run.write limits line s with
  | .ok _ _ => true
  | .error _ _ => false

/-- The state after some lines have been offered one after the other, whether they were written or not. -/
def offered (limits : Limits) : State → List Text → State
  | s, [] => s
  | s, line :: rest => offered limits ((Run.write limits line).after s) rest

/-- Which of some lines are written when they are offered one after the other. -/
def decisions (limits : Limits) : State → List Text → List Bool
  | _, [] => []
  | s, line :: rest => s.takes limits line :: decisions limits ((Run.write limits line).after s) rest

end State

/-! ## One line -/

/-- A write charges the line; it is written if the budget can pay for it, and refused otherwise. -/
theorem Run.write_apply (limits : Limits) (line : Text) (s : State) :
    Run.write limits line s =
      if (s.output.used + Output.cost line : Int) ≤ limits.maxOutputSize then .ok () (s.written line)
      else .error (Output.overdrawn limits) (s.charged line) := by
  have hused : ((s.output.charge line).used : Int) = s.output.used + Output.cost line := by
    rw [Output.used_charge]
    exact Int.natCast_add _ _
  by_cases hpaid : ((s.output.charge line).used : Int) ≤ limits.maxOutputSize
  · rw [if_pos (hused ▸ hpaid), Run.write_of_le hpaid]
  · rw [if_neg (hused ▸ hpaid)]
    unfold Run.write
    simp only [Run.bind_apply, Run.modify_apply, Run.get_apply]
    rw [if_pos (Int.not_le.mp hpaid)]
    rfl

namespace State

variable {limits : Limits} {s : State} {line : Text}

theorem takes_iff : s.takes limits line = true ↔
    (s.output.used + Output.cost line : Int) ≤ limits.maxOutputSize := by
  unfold takes
  rw [Run.write_apply]
  by_cases hpaid : (s.output.used + Output.cost line : Int) ≤ limits.maxOutputSize <;> simp [hpaid]

theorem takes_eq_false_iff : s.takes limits line = false ↔
    limits.maxOutputSize < (s.output.used + Output.cost line : Int) := by
  rw [← Bool.not_eq_true, takes_iff, Int.not_le]

theorem write_of_takes (h : s.takes limits line = true) :
    Run.write limits line s = .ok () (s.written line) := by
  rw [Run.write_apply, if_pos (takes_iff.mp h)]

theorem write_of_not_takes (h : s.takes limits line = false) :
    Run.write limits line s = .error (Output.overdrawn limits) (s.charged line) := by
  rw [Run.write_apply, if_neg (Int.not_le.mpr (takes_eq_false_iff.mp h))]

theorem after_write (limits : Limits) (line : Text) (s : State) :
    (Run.write limits line).after s = if s.takes limits line then s.written line else s.charged line := by
  unfold Run.after
  cases h : s.takes limits line with
  | true => rw [write_of_takes h, if_pos rfl]
  | false => rw [write_of_not_takes h, if_neg Bool.false_ne_true]

/-- Written or refused, the line is paid for. -/
theorem used_after_write (limits : Limits) (line : Text) (s : State) :
    ((Run.write limits line).after s).output.used = s.output.used + Output.cost line := by
  rw [after_write]
  split <;> rfl

theorem size_after_write_le (limits : Limits) (line : Text) (s : State) :
    ((Run.write limits line).after s).output.size ≤ s.output.size + Output.cost line := by
  rw [after_write]
  split
  · exact Nat.le_of_eq (Output.size_push (s.output.charge line) line)
  · exact Nat.le_add_right _ _

/-! ## Lines one after the other -/

theorem used_offered (limits : Limits) (s : State) (ls : List Text) :
    (s.offered limits ls).output.used = s.output.used + Output.costs ls := by
  induction ls generalizing s with
  | nil => rfl
  | cons line rest ih =>
    rw [offered, ih, used_after_write]
    show _ = _ + (Output.cost line + Output.costs rest)
    omega

/-- What is held has been paid for. -/
theorem size_offered_le (h : s.output.size ≤ s.output.used) (ls : List Text) :
    (s.offered limits ls).output.size ≤ (s.offered limits ls).output.used := by
  induction ls generalizing s with
  | nil => exact h
  | cons line rest ih =>
    have hsize := size_after_write_le limits line s
    have hused := used_after_write limits line s
    exact ih (by omega)

/-- All lines that are offered are held, or the budget is overdrawn. -/
theorem offered_cases (s : State) (ls : List Text) :
    (s.offered limits ls).output.lines.toList = s.output.lines.toList ++ ls ∨
      limits.maxOutputSize < (s.offered limits ls).output.used := by
  induction ls generalizing s with
  | nil => exact .inl (List.append_nil _).symm
  | cons line rest ih =>
    cases h : s.takes limits line with
    | true =>
      rw [offered, after_write, if_pos h]
      refine (ih (s.written line)).imp_left fun hheld => ?_
      rw [hheld]
      simp [written, Output.push, Output.charge]
    | false =>
      -- What has been overdrawn stays so: nothing is ever paid back.
      have hover := takes_eq_false_iff.mp h
      have hused := used_offered limits s (line :: rest)
      have hcosts : Output.costs (line :: rest) = Output.cost line + Output.costs rest := rfl
      exact .inr (by omega)

/-- Where not even the line without characters is written, no line is. -/
theorem decisions_of_exhausted (h : s.takes limits [] = false) (ls : List Text) :
    s.decisions limits ls = ls.map fun _ => false := by
  induction ls generalizing s with
  | nil => rfl
  | cons line rest ih =>
    have hnone : limits.maxOutputSize < (s.output.used + 1 : Int) := takes_eq_false_iff.mp h
    have hcost : Output.cost line = line.length + 1 := rfl
    have hrefused : s.takes limits line = false := takes_eq_false_iff.mpr (by omega)
    have hempty : ((Run.write limits line).after s).takes limits [] = false := by
      rw [takes_eq_false_iff, used_after_write]
      have hzero : Output.cost [] = 1 := rfl
      omega
    rw [decisions, List.map_cons, hrefused, ih hempty]

/-- A refusal changes nothing about the lines that come later exactly if all of them are refused in any
case. -/
theorem decisions_charged_iff (h : s.takes limits line = false) :
    (∀ later, (s.charged line).decisions limits later = s.decisions limits later) ↔
      s.takes limits [] = false := by
  have hover := takes_eq_false_iff.mp h
  have hcharged : (s.charged line).takes limits [] = false := by
    rw [takes_eq_false_iff]
    show limits.maxOutputSize < (((s.output.used + Output.cost line : Nat) : Int) + 1)
    omega
  constructor
  · intro hsame
    have hone := hsame [[]]
    rw [decisions_of_exhausted hcharged] at hone
    exact (List.cons.inj hone).1.symm
  · intro hnone later
    rw [decisions_of_exhausted hcharged, decisions_of_exhausted hnone]

/-! ## Refusals -/

/-- What an output that was empty holds after some lines have been offered decides about every further line
exactly if none of them was refused, or if not even a line without characters can be held any more. -/
theorem held_decides_iff (s : State) (ls : List Text) :
    let t := s.silenced.offered limits ls
    (∀ line, t.takes limits line = true ↔
        (t.output.size + Output.cost line : Int) ≤ limits.maxOutputSize) ↔
      t.output.lines.toList = ls ∨ limits.maxOutputSize < (t.output.size + 1 : Int) := by
  intro t
  have hused : t.output.used = Output.costs ls := (used_offered limits _ ls).trans (Nat.zero_add _)
  constructor
  · intro hheld
    refine (offered_cases s.silenced ls).imp_right fun hover => ?_
    replace hover : limits.maxOutputSize < (t.output.used : Int) := hover
    refine Int.not_le.mp fun hfits => ?_
    have htaken : (t.output.used + 1 : Int) ≤ limits.maxOutputSize := takes_iff.mp ((hheld []).mpr hfits)
    omega
  · rintro (hall | hfull) line
    · have hsize : t.output.size = Output.costs t.output.lines.toList := rfl
      rw [takes_iff, hused, hsize, hall]
    · have hnothing : s.silenced.output.size ≤ s.silenced.output.used := Nat.le_refl 0
      have hpaid : t.output.size ≤ t.output.used := size_offered_le hnothing ls
      have hcost : Output.cost line = line.length + 1 := rfl
      rw [takes_iff]
      constructor <;> omega

/-- After any lines have been offered to be written to an output that was empty, a line that is refused is
refused for the budget, and the lines held stay as they are. But a line is written if and only if all lines
that have been offered, and not only those that are held, can be paid for together with it. So what is
held decides about every further line if and only if all lines offered so far are held or not even a line
without characters can be held any more; and a refusal leaves the decisions about all later lines as they
are if and only if every line is refused in any case. -/
theorem takes_offered_iff (limits : Limits) (s : State) (ls : List Text) :
    let t := s.silenced.offered limits ls
    (∀ line, t.takes limits line = false →
      Run.write limits line t = .error (Output.overdrawn limits) (t.charged line) ∧
        (t.charged line).output.lines = t.output.lines) ∧
    (∀ line, t.takes limits line = true ↔ (Output.costs (ls ++ [line]) : Int) ≤ limits.maxOutputSize) ∧
    ((∀ line, t.takes limits line = true ↔
        (t.output.size + Output.cost line : Int) ≤ limits.maxOutputSize) ↔
      t.output.lines.toList = ls ∨ limits.maxOutputSize < (t.output.size + 1 : Int)) ∧
    (∀ line, t.takes limits line = false →
      ((∀ later, (t.charged line).decisions limits later = t.decisions limits later) ↔
        t.takes limits [] = false)) := by
  intro t
  have hused : t.output.used = Output.costs ls := (used_offered limits _ ls).trans (Nat.zero_add _)
  refine ⟨fun line hline => ⟨write_of_not_takes hline, rfl⟩, fun line => ?_, held_decides_iff s ls,
    fun line hline => decisions_charged_iff hline⟩
  rw [takes_iff, hused, Output.costs_append, Output.costs_single, Int.natCast_add]

/-- Limits that leave room for a line of two characters. -/
def tight : Limits := { Limits.standard with maxOutputSize := 3 }

/-- A line of three characters is refused, nothing is held, and yet a line of one character is refused
then. -/
theorem not_held_decides : ¬ ∀ (limits : Limits) (s : State) (ls : List Text) (line : Text),
    let t := s.silenced.offered limits ls
    t.takes limits line = true ↔ (t.output.size + Output.cost line : Int) ≤ limits.maxOutputSize := by
  intro hclaim
  have hshort := hclaim tight (.initial ⟨0⟩ 0) ["123"] "1"
  revert hshort
  decide

end State

end Scriptlet
