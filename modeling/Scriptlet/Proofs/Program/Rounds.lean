import Scriptlet.Proofs.Escape.Expressions
import Scriptlet.Proofs.Program.Running

/-
  The rounds of a loop under a condition.

  A round is a check that the condition passes and a run of the body. The rounds are counted by the loop
  itself, from none each time that it is entered; the room is any one, so nothing depends on what the loop
  stands in or on what the condition and the body do.

  What is proved:
    1. `whileTrue_of_rounds` — what a loop does behind some rounds is what a loop with so many rounds less
       does.
    2. `exists_last` — a loop that may run so many rounds comes to a last check, or to a round that fails.
    3. `sequence_while` — how a loop ends by the round that it comes to, and that there is no other way:
       in particular the condition is checked once more behind the last round that it may run.
-/

namespace Scriptlet

namespace Execution

variable {limits : Limits} {room : Room} {condition : Text} {body : List Text} {s t u v : State}
  {fault : Fault} {rounds left : Nat}

/-! ## Rounds -/

/-- The body is run so many times, each time behind a check that the condition passes, and nothing
fails. -/
inductive Rounds (room : Room) (condition : Text) (body : List Text) : Nat → State → State → Prop
  | none {s : State} : Rounds room condition body 0 s s
  | next {rounds : Nat} {s t u v : State} : Rounds room condition body rounds s t →
    holds room condition t = .ok true u → (room.below 1).runLines body u = .ok () v →
    Rounds room condition body (rounds + 1) s v

/-! ## What is left of a loop -/

/-- A check that the condition does not pass ends the loop. -/
theorem whileTrue_of_false (h : holds room condition s = .ok false t) :
    whileTrue room condition body left s = .ok () t := by
  cases left with
  | zero =>
    unfold whileTrue
    rw [Run.bind_of_ok h]
    rfl
  | succ left =>
    unfold whileTrue
    rw [Run.bind_of_ok h]
    rfl

/-- A check that fails ends the loop. -/
theorem whileTrue_of_error (h : holds room condition s = .error fault t) :
    whileTrue room condition body left s = .error fault t := by
  cases left with
  | zero =>
    unfold whileTrue
    rw [Run.bind_of_error h]
  | succ left =>
    unfold whileTrue
    rw [Run.bind_of_error h]

/-- A check that the condition passes is one too many when no round is left. -/
theorem whileTrue_zero_of_true (h : holds room condition s = .ok true t) :
    whileTrue room condition body 0 s = .error Program.tooManyIterations t := by
  unfold whileTrue
  rw [Run.bind_of_ok h]
  rfl

theorem whileTrue_succ_of_true (h : holds room condition s = .ok true t) :
    whileTrue room condition body (left + 1) s =
      ((room.below 1).runLines body >>= fun _ => whileTrue room condition body left) t := by
  rw [whileTrue, Run.bind_of_ok h]
  rfl

/-- By induction on the rounds, the last one first: each of them takes one from those that are left. -/
theorem whileTrue_of_rounds (h : Rounds room condition body rounds s t) :
    whileTrue room condition body (rounds + left) s = whileTrue room condition body left t := by
  induction h generalizing left with
  | none => rw [Nat.zero_add]
  | @next rounds s t u v hrounds hcheck hrun ih =>
    calc whileTrue room condition body (rounds + 1 + left) s
        = whileTrue room condition body (rounds + (left + 1)) s := by
          rw [Nat.add_assoc, Nat.add_comm 1 left]
      _ = whileTrue room condition body (left + 1) t := ih
      _ = whileTrue room condition body left v := by
          rw [whileTrue_succ_of_true hcheck, Run.bind_of_ok hrun]

/-! ## The last round -/

/-- How a loop that may run `most` rounds comes to its end, with so many rounds behind it. -/
inductive Last (room : Room) (condition : Text) (body : List Text) (most rounds : Nat) (t : State) : Prop
  | fulfilled (u : State) : holds room condition t = .ok false u → Last room condition body most rounds t
  | exhausted (u : State) : rounds = most → holds room condition t = .ok true u →
    Last room condition body most rounds t
  | checkFails (fault : Fault) (u : State) : holds room condition t = .error fault u →
    Last room condition body most rounds t
  | bodyFails (fault : Fault) (u v : State) : rounds < most → holds room condition t = .ok true u →
    (room.below 1).runLines body u = .error fault v → Last room condition body most rounds t

/-- By induction on the rounds that are left: a round that neither ends the loop nor fails is behind it. -/
theorem exists_last {most : Nat} (h : Rounds room condition body rounds s t)
    (hleft : rounds + left = most) :
    ∃ rounds t, rounds ≤ most ∧ Rounds room condition body rounds s t ∧
      Last room condition body most rounds t := by
  induction left generalizing rounds t with
  | zero =>
    refine ⟨rounds, t, by omega, h, ?_⟩
    cases hcheck : holds room condition t with
    | error fault u => exact .checkFails fault u hcheck
    | ok b u =>
      cases b with
      | false => exact .fulfilled u hcheck
      | true => exact .exhausted u hleft hcheck
  | succ left ih =>
    cases hcheck : holds room condition t with
    | error fault u => exact ⟨rounds, t, by omega, h, .checkFails fault u hcheck⟩
    | ok b u =>
      cases b with
      | false => exact ⟨rounds, t, by omega, h, .fulfilled u hcheck⟩
      | true =>
        cases hrun : (room.below 1).runLines body u with
        | error fault v => exact ⟨rounds, t, by omega, h, .bodyFails fault u v (by omega) hcheck hrun⟩
        | ok value v => exact ih (h.next hcheck hrun) (by omega)

/-! ## Loops -/

section

variable {line : Text} {rest : List Text}

/-- A loop has as many rounds left as there are iterations at most, less those behind it. -/
theorem sequence_of_rounds (hread : Line.read line.trim = .ok (.header (.whileTrue condition)))
    (h : Rounds room condition (Source.block rest).1 rounds s t) (left : Nat)
    (hleft : rounds + left = 10000) :
    sequence limits room (line :: rest) s =
      (whileTrue room condition (Source.block rest).1 left >>= fun _ =>
        sequence limits room (rest.drop (Source.block rest).2)) t := by
  have hloop : header room (.whileTrue condition) (Source.block rest).1 s =
      whileTrue room condition (Source.block rest).1 left t := by
    rw [← whileTrue_of_rounds h, hleft]
    rfl
  rw [Program.sequence_header limits hread, hloop, Run.bind_apply]
  cases whileTrue room condition (Source.block rest).1 left t <;> rfl

/-- A line that opens a loop runs its body behind every check that the condition passes, in the state
that the last run has left. A check that it does not pass ends the loop, also the one behind the 10000th
run, and the lines behind the body go on. If that check is passed the loop is stopped, with what all
checks and all runs have done, and a check or a run that fails stops it at once. One of these comes. The
room is any one and so is the state: a loop in the body of another one begins anew each time. -/
theorem sequence_while (limits : Limits) (room : Room) {line condition : Text} (rest : List Text)
    (s : State) (hread : Line.read line.trim = .ok (.header (.whileTrue condition))) :
    let body := (Source.block rest).1
    let behind := rest.drop (Source.block rest).2
    (∀ n t u, n ≤ 10000 → Rounds room condition body n s t → holds room condition t = .ok false u →
      sequence limits room (line :: rest) s = sequence limits room behind u) ∧
    (∀ t u, Rounds room condition body 10000 s t → holds room condition t = .ok true u →
      sequence limits room (line :: rest) s = .error Program.tooManyIterations u) ∧
    (∀ n t u fault, n ≤ 10000 → Rounds room condition body n s t →
      holds room condition t = .error fault u →
      sequence limits room (line :: rest) s = .error fault u) ∧
    (∀ n t u v fault, n < 10000 → Rounds room condition body n s t →
      holds room condition t = .ok true u → (room.below 1).runLines body u = .error fault v →
      sequence limits room (line :: rest) s = .error fault v) ∧
    ∃ n t, n ≤ 10000 ∧ Rounds room condition body n s t ∧ Last room condition body 10000 n t := by
  refine ⟨?_, ?_, ?_, ?_, exists_last .none (Nat.zero_add 10000)⟩
  · intro n t u hn hrounds hcheck
    rw [sequence_of_rounds hread hrounds _ (Nat.add_sub_of_le hn),
      Run.bind_of_ok (whileTrue_of_false hcheck)]
  · intro t u hrounds hcheck
    rw [sequence_of_rounds hread hrounds 0 rfl, Run.bind_of_error (whileTrue_zero_of_true hcheck)]
  · intro n t u fault hn hrounds hcheck
    rw [sequence_of_rounds hread hrounds _ (Nat.add_sub_of_le hn),
      Run.bind_of_error (whileTrue_of_error hcheck)]
  · intro n t u v fault hn hrounds hcheck hrun
    obtain ⟨left, hleft⟩ := Nat.exists_eq_add_of_lt hn
    have hstops : whileTrue room condition (Source.block rest).1 (left + 1) t = .error fault v := by
      rw [whileTrue_succ_of_true hcheck, Run.bind_of_error hrun]
    rw [sequence_of_rounds hread hrounds (left + 1) hleft.symm, Run.bind_of_error hstops]

end

/-! ## A loop without end -/

/-- Whether an expression is the constant that is true. -/
def isTrue : Expr → Bool
  | .literal _ (.bool b) => b
  | _ => false

/-- A text that is read as an expression is evaluated as that. -/
theorem evaluate_read {text : Text} {e : Expr} (hread : Evaluation.read room.levels text.trim = .ok e)
    (s : State) : Evaluation.evaluate room text s =
      Run.mapFault (Fault.leaving text.trim) ((room.below 0).evaluateNode text.trim e) s := by
  unfold Evaluation.evaluate
  rw [Run.mapFault_apply, Run.bind_of_ok (Run.liftM_ok_iff.mpr ⟨hread, rfl⟩), Run.mapFault_apply]

theorem evaluate_true (s : State) :
    ((Engine.room .standard 60).below 1).evaluate "True" s = .ok (.bool true) s := by
  have htest : (Evaluation.read 58 (Text.trim "True")).toOption.any isTrue = true := by decide +kernel
  obtain ⟨e, hread, he⟩ := Evaluation.exists_read htest
  have hnode : ((Engine.room .standard 58).below 0).evaluateNode (Text.trim "True") e s =
      .ok (.bool true) s := by
    unfold isTrue at he
    split at he
    · cases he
      rfl
    · cases he
  have hroom : Evaluation.read (Engine.room .standard 58).levels (Text.trim "True") = .ok e := hread
  change Evaluation.evaluate (Engine.room .standard 58) "True" s = _
  rw [evaluate_read hroom, Run.mapFault_apply, hnode]

theorem holds_true (s : State) : holds (Engine.room .standard 60) "True" s = .ok true s := by
  unfold holds
  rw [Run.bind_of_ok (evaluate_true s)]
  rfl

theorem runLines_pass {s : State} (hdepth : s.depth < 50) :
    ((Engine.room .standard 60).below 1).runLines ["pass"] s = .ok () s := by
  have hread : Line.readStatement (Text.trim "pass") = .ok .pass := by decide +kernel
  have hline : Line.read (Text.trim "pass") = (Line.readStatement (Text.trim "pass")).map .statement := by
    decide +kernel
  have hpass : Program.simpleLine .standard 58 (Text.trim "pass") s.enter = .ok () s.enter := by
    unfold Program.simpleLine
    rw [Run.bind_of_ok (Run.liftM_ok_iff.mpr ⟨hread, rfl⟩)]
    rfl
  have hlines : sequence .standard (Engine.room .standard 58) ["pass"] s.enter = .ok () s.enter := by
    rw [Program.sequence_simple .standard hline, hpass]
    rw [sequence]
    rfl
  change (Engine.tower .standard 59 0).runLines ["pass"] s = _
  rw [Program.block_succ_apply, if_neg, hlines]
  · rfl
  · change ¬ (50 : Int) < (s.depth + 1 : Nat)
    omega

/-- Any number of rounds leave the state as it is. -/
theorem rounds_pass {s : State} (hdepth : s.depth < 50) (n : Nat) :
    Rounds (Engine.room .standard 60) "True" ["pass"] n s s := by
  induction n with
  | zero => exact .none
  | succ n ih => exact ih.next (holds_true s) (runLines_pass hdepth)

/-- The loop is stopped behind 10000 rounds, with nothing changed. -/
theorem sequence_while_pass :
    Line.read (Text.trim "while True:") = .ok (.header (.whileTrue "True")) ∧
      sequence .standard (Engine.room .standard 60) ["while True:", "    pass", "print(1)"]
        (.initial ⟨0⟩ 0) = .error Program.tooManyIterations (.initial ⟨0⟩ 0) := by
  have hread : Line.read (Text.trim "while True:") = .ok (.header (.whileTrue "True")) := by decide +kernel
  obtain ⟨-, hexhausted, -⟩ := sequence_while .standard (Engine.room .standard 60) ["    pass", "print(1)"]
    (.initial ⟨0⟩ 0) hread
  exact ⟨hread, hexhausted _ _ (rounds_pass (by decide) 10000) (holds_true _)⟩

end Execution

end Scriptlet
