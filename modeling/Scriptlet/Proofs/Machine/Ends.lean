import Scriptlet.Proofs.Machine

/-
  Every run of the machine ends.

  Nothing but the cap on nesting bounds how often lines are executed inside of lines: the host may
  grant all the room it likes. So the proof is by induction on the depth that is left. Above a block
  the depth that is left is less, and every execution there ends; hence so does every dialogue with
  it, since a dialogue is finite. Inside the block every turn ends then, and every turn leaves less.

  What is proved:
    1. `Answers.dialogue` — where executions of lines end, dialogues with them do.
    2. `exists_ending` — where executions one block deeper end, a block ends however much is left of it.
    3. `exists_answers` — executions of lines end at every depth, and for the host that grants what is
       left they end as the run does.
    4. `execution_ends` — every execution of lines ends.
-/

namespace Scriptlet

namespace Machine

open Engine (room)

variable {α : Type} {limits : Limits} {host : Host} {depth : Nat}

/-- Executions of lines that begin at this depth end as the answers say, whoever waits for them, and
leave the depth as it is. -/
structure Answers (α : Type) (limits : Limits) (host : Host) (depth : Nat) (answer : Reentry) :
    Prop where
  keeps : ∀ levels ls s, s.depth = depth → (Outcome.state (answer levels ls s)).depth = depth
  leads : ∀ levels ls s (stack : Stack α), s.depth = depth →
    Leads limits host (.calls levels ls s stack) (.returns (answer levels ls s) stack)

namespace Answers

variable {answer : Reentry}

/-- A dialogue outside of all blocks ends as it does with the answers put in. -/
theorem outside (h : Answers α limits host depth answer) {d : Dialogue α} (hd : d.Keeps depth) :
    Leads limits host (.outside d) (.outside (.ends (d.answered answer))) := by
  induction d with
  | ends outcome => exact .refl
  | asks levels ls s resume ih =>
    have hasked : Leads limits host (.outside (.asks levels ls s resume))
        (.calls levels ls s ⟨[], resume⟩) := .single rfl
    have hdone := h.leads levels ls s ⟨[], resume⟩ hd.1
    have hresumed : Leads limits host (.returns (answer levels ls s) ⟨[], resume⟩)
        (.outside (resume (answer levels ls s))) := .single rfl
    exact ((hasked.trans hdone).trans hresumed).trans
      (ih _ (hd.2 _ (h.keeps levels ls s hd.1)))

/-- A turn ends as its dialogue does with the answers put in. -/
theorem dialogue (h : Answers α limits host depth answer) {d : Dialogue Turn} (hd : d.Keeps depth)
    (n : Nat) (stack : Stack α) :
    Leads limits host (.talks n d stack) (.talks n (.ends (d.answered answer)) stack) := by
  induction d with
  | ends outcome => exact .refl
  | asks levels ls s resume ih =>
    have hasked : Leads limits host (.talks n (.asks levels ls s resume) stack)
        (.calls levels ls s (stack.push (.text n resume))) := .single rfl
    have hdone := h.leads levels ls s (stack.push (.text n resume)) hd.1
    have hresumed : Leads limits host
        (.returns (answer levels ls s) (stack.push (.text n resume)))
        (.talks n (resume (answer levels ls s)) stack) := .single rfl
    exact ((hasked.trans hdone).trans hresumed).trans
      (ih _ (hd.2 _ (h.keeps levels ls s hd.1)))

/-- The dialogue ends at the depth that it began at. -/
theorem answered_depth (h : Answers α limits host depth answer) {β : Type} {d : Dialogue β}
    (hd : d.Keeps depth) : (Outcome.state (d.answered answer)).depth = depth := by
  induction d with
  | ends outcome => exact hd
  | asks levels ls s resume ih => exact ih _ (hd.2 _ (h.keeps levels ls s hd.1))

/-- A block comes to the end of its next turn. -/
theorem turned (h : Answers α limits host depth answer) (n : Nat) (todo : Todo) {s : State}
    (hs : s.depth = depth) (stack : Stack α) :
    Leads limits host (.goes n todo s stack)
      (turned n stack (turn limits (Engine.askingRoom limits answer n) todo s)) := by
  have hkeeps : (talk limits n todo s).Keeps depth := hs ▸ talk_keeps limits n todo s
  have htalks : Leads limits host (.goes n todo s stack) (.talks n (talk limits n todo s) stack) :=
    .single rfl
  rw [← talk_answered limits n todo s answer]
  exact (htalks.trans (h.dialogue hkeeps n stack)).tail rfl

end Answers

/-- A turn ends at the depth of its block. -/
theorem Answers.turn_depth {answer : Reentry} (h : Answers α limits host depth answer) (n : Nat)
    (todo : Todo) {s : State} (hs : s.depth = depth) :
    (Outcome.state (turn limits (Engine.askingRoom limits answer n) todo s)).depth = depth := by
  have hkeeps : (talk limits n todo s).Keeps depth := hs ▸ talk_keeps limits n todo s
  rw [← talk_answered limits n todo s answer]
  exact h.answered_depth hkeeps

/-- An ending that a block comes to, as the run does if the answers are those of the run. -/
structure Comes (α : Type) (limits : Limits) (host : Host) (depth : Nat) (answer : Reentry) (n : Nat)
    (todo : Todo) (s : State) (ending : Ending) : Prop where
  keeps : (Outcome.state ending).depth = depth
  leads : ∀ stack : Stack α, Leads limits host (.goes n todo s stack) (.returns ending stack)
  tower : answer = Engine.reentry limits → ending = Ending.leave (finish limits n todo s)

/-- A block inside of which executions end comes to its end, however much is left of it. -/
theorem exists_ending {answer : Reentry} (h : Answers α limits host (depth + 1) answer) (n : Nat)
    (todo : Todo) (s : State) (hs : s.depth = depth + 1) :
    ∃ ending, Comes α limits host depth answer n todo s ending := by
  -- What is left is less behind every turn, so the induction is on that.
  induction hleft : todo.left using WellFoundedLT.induction generalizing todo s with
  | ind left ih =>
  subst hleft
  have hturned := h.turned n todo hs
  have hdepth := h.turn_depth n todo hs
  have hfinish : answer = Engine.reentry limits → finish limits n todo s =
      behind limits n (turn limits (Engine.askingRoom limits answer n) todo s) := by
    rintro rfl
    rw [finish_apply, Engine.askingRoom_tower]
  cases hturn : turn limits (Engine.askingRoom limits answer n) todo s with
  | error fault t =>
    rw [hturn] at hturned hdepth hfinish
    refine ⟨.error fault t.leave, ?_, hturned, fun hanswer => ?_⟩
    · exact Nat.sub_eq_of_eq_add hdepth
    · rw [hfinish hanswer]
      rfl
  | ok next t =>
    rw [hturn] at hturned hdepth hfinish
    cases next with
    | done =>
      refine ⟨.ok () t.leave, ?_, hturned, fun hanswer => ?_⟩
      · exact Nat.sub_eq_of_eq_add hdepth
      · rw [hfinish hanswer]
        rfl
    | goes more =>
      obtain ⟨ending, hends⟩ := ih _ (turn_lt limits hturn rfl) more t hdepth rfl
      refine ⟨ending, hends.keeps, fun stack => (hturned stack).trans (hends.leads stack), ?_⟩
      intro hanswer
      rw [hfinish hanswer]
      exact hends.tower hanswer
    | enters body more =>
      -- The body is executed inside of the block, where executions end.
      have hbody : ∀ stack : Stack α, Leads limits host
          (.calls (n - 1) body t (stack.push (.body n more)))
          (.returns (answer (n - 1) body t) (stack.push (.body n more))) :=
        fun stack => h.leads (n - 1) body t _ hdepth
      have hafter := h.keeps (n - 1) body t hdepth
      cases hanswered : answer (n - 1) body t with
      | error fault u =>
        rw [hanswered] at hbody hafter
        refine ⟨.error fault u.leave, ?_, ?_, fun hanswer => ?_⟩
        · exact Nat.sub_eq_of_eq_add hafter
        · exact fun stack => ((hturned stack).trans (hbody stack)).tail rfl
        · subst hanswer
          have htower : (Engine.tower limits (n - 1) 0).runLines body t = .error fault u := hanswered
          rw [hfinish rfl, behind, htower]
          rfl
      | ok _ u =>
        rw [hanswered] at hbody hafter
        obtain ⟨ending, hends⟩ := ih _ (turn_lt limits hturn rfl) more u hafter rfl
        refine ⟨ending, hends.keeps, fun stack => ?_, fun hanswer => ?_⟩
        · exact (((hturned stack).trans (hbody stack)).tail rfl).trans (hends.leads stack)
        · have htower : (Engine.tower limits (n - 1) 0).runLines body t = .ok () u := by
            subst hanswer
            exact hanswered
          rw [hfinish hanswer, behind, htower]
          exact hends.tower hanswer

/-- An ending that an execution of lines comes to, as the run does if the host grants what is left. -/
structure Returns (α : Type) (limits : Limits) (host : Host) (levels : Nat) (ls : List Text)
    (s : State) (ending : Ending) : Prop where
  keeps : (Outcome.state ending).depth = s.depth
  leads : ∀ stack : Stack α, Leads limits host (.calls levels ls s stack) (.returns ending stack)
  tower : host = plain → ending = Engine.reentry limits levels ls s

/-- Lines come to their end if executions inside of the block that they may make do. -/
theorem exists_return {s : State}
    (habove : (s.enter.depth : Int) ≤ limits.maxNestingDepth →
      ∃ answer, Answers α limits host s.enter.depth answer ∧
        (host = plain → answer = Engine.reentry limits))
    (levels : Nat) (ls : List Text) : ∃ ending, Returns α limits host levels ls s ending := by
  have hstep : ∀ stack : Stack α, Leads limits host (.calls levels ls s stack)
      (entered limits host levels ls s stack) := fun stack => .single rfl
  unfold entered at hstep
  cases hgranted : host levels s with
  | zero =>
    -- Without room no block is entered.
    rw [hgranted] at hstep
    refine ⟨.error .tooDeep s, rfl, hstep, ?_⟩
    rintro rfl
    rw [show levels = 0 from hgranted]
    rfl
  | succ granted =>
    have hblock : host = plain → Engine.reentry limits levels ls s =
        if limits.maxNestingDepth < s.enter.depth then .error (Program.tooNested limits) s
        else Ending.leave (Execution.sequence limits (room limits granted) ls s.enter) := by
      rintro rfl
      rw [show levels = granted + 1 from hgranted]
      exact Program.block_succ_apply limits ls s
    rw [hgranted] at hstep
    simp only at hstep
    by_cases hdeep : limits.maxNestingDepth < (s.enter.depth : Int)
    · simp only [if_pos hdeep] at hblock
      simp only [if_pos hdeep] at hstep
      exact ⟨_, rfl, hstep, fun hplain => (hblock hplain).symm⟩
    · simp only [if_neg hdeep] at hblock
      simp only [if_neg hdeep] at hstep
      obtain ⟨answer, hanswer, htower⟩ := habove (Int.not_lt.mp hdeep)
      obtain ⟨ending, hends⟩ := exists_ending hanswer granted (.lines ls) s.enter rfl
      refine ⟨ending, hends.keeps, fun stack => (hstep stack).trans (hends.leads stack), ?_⟩
      intro hplain
      exact (hends.tower (htower hplain)).trans (hblock hplain).symm

/-- At every depth executions of lines end; for the host that grants what is left, they end as the run
does. -/
theorem exists_answers (α : Type) (limits : Limits) (host : Host) (depth : Nat) :
    ∃ answer, Answers α limits host depth answer ∧
      (host = plain → answer = Engine.reentry limits) := by
  -- Inside of a block less depth is left, so the induction is on that.
  induction hleft : (limits.maxNestingDepth - depth).toNat using Nat.strongRecOn
    generalizing depth with
  | ind left ih =>
  -- States at other depths have an ending too, so that there is one function of endings.
  have hreturns : ∀ levels ls s, ∃ ending, (s.depth = depth → Returns α limits host levels ls s ending) ∧
      (host = plain → ending = Engine.reentry limits levels ls s) := by
    intro levels ls s
    by_cases hs : s.depth = depth
    · obtain ⟨ending, hends⟩ := exists_return (fun habove => by
        have hentered : s.enter.depth = depth + 1 := congrArg (· + 1) hs
        rw [hentered] at habove ⊢
        exact ih _ (by omega) (depth + 1) rfl) levels ls
      exact ⟨ending, fun _ => hends, hends.tower⟩
    · exact ⟨_, fun h => absurd h hs, fun _ => rfl⟩
  choose answer hanswer hplain using hreturns
  refine ⟨answer, ⟨fun levels ls s hs => ?_, fun levels ls s stack hs => ?_⟩, fun h => ?_⟩
  · exact (hanswer levels ls s hs).keeps.trans hs
  · exact (hanswer levels ls s hs).leads stack
  · funext levels ls s
    exact hplain levels ls s h

/-- Lines that are executed from outside of all blocks. -/
def start (levels : Nat) (ls : List Text) (s : State) : Config Unit :=
  .outside (.asks levels ls s .ends)

/-- Every execution of lines ends, under all limits and from every state, whatever room the host
grants to it and to the executions inside of it; and if the host grants what is left, it ends as the
run does. Each turn of a block leaves less of it on the way. -/
theorem execution_ends (limits : Limits) (levels : Nat) (ls : List Text) (s : State) :
    (∀ host, ∃ ending, Leads limits host (start levels ls s) (.outside (.ends ending))) ∧
      Leads limits plain (start levels ls s)
        (.outside (.ends ((Engine.tower limits levels 0).runLines ls s))) ∧
      ∀ room todo t u v, turn limits room todo u = .ok t v → t.IsLess todo := by
  have hkeeps : (Dialogue.asks levels ls s .ends).Keeps s.depth := ⟨rfl, fun _ h => h⟩
  refine ⟨fun host => ?_, ?_, fun room todo t u v h => turn_yields limits room todo u t v h⟩
  · obtain ⟨answer, hanswer, -⟩ := exists_answers Unit limits host s.depth
    exact ⟨_, hanswer.outside hkeeps⟩
  · obtain ⟨answer, hanswer, htower⟩ := exists_answers Unit limits plain s.depth
    have hends := hanswer.outside hkeeps
    rw [htower rfl] at hends
    exact hends

end Machine

end Scriptlet
