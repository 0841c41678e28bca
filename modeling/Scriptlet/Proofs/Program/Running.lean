import Scriptlet.Proofs.Program.Reading
import Scriptlet.Proofs.Run

/-
  Scripts run as the programs that they write.

  Execution matches headers and cuts blocks out of lines again in every pass. Each of its steps is
  first said as an equation in a state; then what a program means is followed rule by rule.

  What is proved:
    1. `Runs.executes` — whatever a task ends with, execution ends with on all ways to write it.
    2. `runs_total` — every program ends from every state.
    3. `runSource_written` — the text of a program runs exactly as the program means. It follows from
       the first two: the relation has an ending, and execution has no other.
-/

namespace Scriptlet

namespace Program

open Engine (room)

variable (limits : Limits)

/-! ## One step of execution -/

theorem sequence_header {r : Room} {line : Text} {rest : List Text} {h : Header}
    (hread : Line.read line.trim = .ok (.header h)) (s : State) :
    Execution.sequence limits r (line :: rest) s =
      match Execution.header r h (Source.block rest).1 s with
      | .ok () t => Execution.sequence limits r (rest.drop (Source.block rest).2) t
      | .error fault t => .error fault t := by
  rw [Execution.sequence]
  simp only [hread, Run.bind_apply, Run.liftM_apply]
  cases Execution.header r h (Source.block rest).1 s <;> rfl

theorem sequence_simple {n : Nat} {line : Text} {rest : List Text}
    (hread : Line.read line.trim = (Line.readStatement line.trim).map Line.statement) (s : State) :
    Execution.sequence limits (room limits n) (line :: rest) s =
      match simpleLine limits n line.trim s with
      | .ok () t => Execution.sequence limits (room limits n) rest t
      | .error fault t => .error fault t := by
  rw [Execution.sequence]
  unfold simpleLine
  simp only [hread, Run.bind_apply, Run.liftM_apply]
  cases Line.readStatement line.trim with
  | error fault => rfl
  | ok statement =>
    simp only [Except.map, Run.bind_apply]
    cases Execution.statement limits (room limits n) line.trim statement s <;> rfl

theorem holds_apply {n : Nat} (text : Text) (s : State) :
    Execution.holds (room limits n) text s = condition limits n text s := by
  unfold Execution.holds condition value
  rw [Run.bind_apply]
  cases ((room limits n).below 1).evaluate text s with
  | error fault t => rfl
  | ok v t =>
    simp only [Run.look_apply]
    cases t.heap.truthy v <;> rfl

/-- A body is a block with one level less. -/
theorem runLines_below {n : Nat} (body : List Text) :
    ((room limits n).below 1).runLines body = (Engine.tower limits (n - 1) 0).runLines body := by
  show (Engine.tower limits n 1).runLines body = _
  rw [Engine.tower_one]

theorem whileTrue_zero_apply {n : Nat} (text : Text) (body : List Text) (s : State) :
    Execution.whileTrue (room limits n) text body 0 s =
      match condition limits n text s with
      | .ok true t => .error tooManyIterations t
      | .ok false t => .ok () t
      | .error fault t => .error fault t := by
  unfold Execution.whileTrue
  rw [Run.bind_apply, holds_apply]
  cases condition limits n text s with
  | error fault t => rfl
  | ok b t => cases b <;> rfl

theorem whileTrue_succ_apply {n times : Nat} (text : Text) (body : List Text) (s : State) :
    Execution.whileTrue (room limits n) text body (times + 1) s =
      match condition limits n text s with
      | .ok true t =>
        match (Engine.tower limits (n - 1) 0).runLines body t with
        | .ok () u => Execution.whileTrue (room limits n) text body times u
        | .error fault u => .error fault u
      | .ok false t => .ok () t
      | .error fault t => .error fault t := by
  rw [Execution.whileTrue, Run.bind_apply, holds_apply]
  cases condition limits n text s with
  | error fault t => rfl
  | ok b t =>
    cases b with
    | false => rfl
    | true =>
      simp only [if_true, runLines_below, Run.bind_apply]
      cases (Engine.tower limits (n - 1) 0).runLines body t <;> rfl

theorem onlyIf_apply {n : Nat} (text : Text) (body : List Text) (s : State) :
    Execution.header (room limits n) (.onlyIf text) body s =
      match condition limits n text s with
      | .ok true t => (Engine.tower limits (n - 1) 0).runLines body t
      | .ok false t => .ok () t
      | .error fault t => .error fault t := by
  show (do if ← Execution.holds (room limits n) text then ((room limits n).below 1).runLines body) s
    = _
  rw [Run.bind_apply, holds_apply]
  cases condition limits n text s with
  | error fault t => rfl
  | ok b t =>
    cases b with
    | false => rfl
    | true => simp only [if_true, runLines_below]

/-- What a loop does for one of its elements. -/
def turn (n : Nat) (targets : List Text) (body : List Text) (item : Value) : Run Unit := do
  let values ← Execution.distribute (room limits n).printing targets.length item
  for (name, v) in targets.zip values do
    Run.bind name v
  ((room limits n).below 1).runLines body

theorem distribute_apply {n : Nat} (targets : List Text) (item : Value) (s : State) :
    Execution.distribute (room limits n).printing targets.length item s =
      match shares n targets item s.heap with
      | .ok values => .ok values s
      | .error fault => .error fault s := by
  unfold Execution.distribute shares
  by_cases hone : targets.length ≤ 1
  · rw [if_neg (by omega), if_pos hone]
    rfl
  · rw [if_pos (by omega), if_neg hone, Run.look_apply]
    have hroom : (room limits n).printing = n / 2 := rfl
    rw [hroom]
    cases s.heap.unpack (n / 2) item targets.length <;> rfl

theorem forIn_bind_apply (bindings : List (Text × Value)) (s : State) :
    (forIn bindings PUnit.unit fun binding _ => do
      Run.bind binding.1 binding.2
      pure (ForInStep.yield PUnit.unit) : Run PUnit) s = .ok PUnit.unit (s.bindAll bindings) := by
  induction bindings generalizing s with
  | nil => rfl
  | cons binding rest ih =>
    rw [Run.forIn_cons_apply]
    exact ih { s with vars := s.vars.set binding.1 binding.2 }

theorem turn_apply {n : Nat} (targets : List Text) (body : List Text) (item : Value) (s : State) :
    turn limits n targets body item s =
      match shares n targets item s.heap with
      | .ok values =>
        (Engine.tower limits (n - 1) 0).runLines body (s.bindAll (targets.zip values))
      | .error fault => .error fault s := by
  unfold turn
  rw [Run.bind_apply, distribute_apply]
  cases shares n targets item s.heap with
  | error fault => rfl
  | ok values =>
    simp only [Run.bind_apply, runLines_below]
    rw [forIn_bind_apply]

/-- What a loop does for its elements, one after the other. -/
def turns (n : Nat) (targets : List Text) (body : List Text) (items : List Value) : Run Unit := do
  for item in items do
    turn limits n targets body item

theorem turns_cons_apply {n : Nat} (targets : List Text) (body : List Text) (item : Value)
    (items : List Value) (s : State) :
    turns limits n targets body (item :: items) s =
      match turn limits n targets body item s with
      | .ok () t => turns limits n targets body items t
      | .error fault t => .error fault t := by
  unfold turns
  rw [Run.bind_apply, Run.forIn_cons_apply, Run.bind_apply]
  cases turn limits n targets body item s with
  | error fault t => rfl
  | ok _ t =>
    show _ = ((forIn items PUnit.unit fun item _ => do
      turn limits n targets body item
      pure (ForInStep.yield PUnit.unit)) >>= fun _ => pure ()) t
    rw [Run.bind_apply]
    rfl

theorem loopItems_apply (items : Text) (v : Value) (s : State) :
    Execution.loopItems items v s =
      match s.heap.sequence? v with
      | some values => .ok values s
      | none => .error (notIterable items v) s := by
  cases v <;> rfl

theorem forEach_eq {n : Nat} (targets : List Text) (text : Text) (body : List Text) :
    Execution.header (room limits n) (.forEach targets text) body = (do
      let v ← value limits n text
      let items ← Execution.loopItems text v
      turns limits n targets body items) := by
  show Execution.forEach (room limits n) targets text body = _
  unfold Execution.forEach turns turn value
  simp only [bind_assoc]

theorem forEach_apply {n : Nat} (targets : List Text) (text : Text) (body : List Text) (s : State) :
    Execution.header (room limits n) (.forEach targets text) body s =
      match value limits n text s with
      | .ok v t =>
        match t.heap.sequence? v with
        | some items => turns limits n targets body items t
        | none => .error (notIterable text v) t
      | .error fault t => .error fault t := by
  rw [forEach_eq, Run.bind_apply]
  cases value limits n text s with
  | error fault t => rfl
  | ok v t =>
    simp only [Run.bind_apply, loopItems_apply]
    cases t.heap.sequence? v <;> rfl

theorem block_succ_apply {n : Nat} (lines : List Text) (s : State) :
    (Engine.tower limits (n + 1) 0).runLines lines s =
      if limits.maxNestingDepth < (s.depth + 1 : Nat) then .error (tooNested limits) s
      else Ending.leave (Execution.sequence limits (room limits n) lines s.enter) := by
  show Execution.block limits (room limits n) lines s = _
  unfold Execution.block
  rw [Run.bind_apply, Run.modify_apply]
  show Run.thenAlways _ _ s.enter = _
  rw [Run.thenAlways_apply, Run.bind_apply, Run.get_apply]
  by_cases hdeep : limits.maxNestingDepth < (s.depth + 1 : Nat)
  · rw [if_pos hdeep]
    have henter : (s.enter.depth : Int) > limits.maxNestingDepth := hdeep
    simp only [henter, if_true]
    rfl
  · rw [if_neg hdeep]
    have henter : ¬ (s.enter.depth : Int) > limits.maxNestingDepth := hdeep
    simp only [henter, if_false]
    cases Execution.sequence limits (room limits n) lines s.enter <;> rfl

/-! ## Written programs, run -/

variable {limits}

theorem sequence_written_simple {n : Nat} {line : Text} {next : Program} {ls : List Text}
    (hp : (simple line next).WellFormed) (hw : Written 0 (.simple line next) ls) (s : State) :
    ∃ rest, next.WellFormed ∧ Written 0 next rest ∧
      Execution.sequence limits (room limits n) ls s =
        match simpleLine limits n line s with
        | .ok () t => Execution.sequence limits (room limits n) rest t
        | .error fault t => .error fault t := by
  obtain ⟨hline, hnext⟩ := hp
  cases hw with
  | simple hind hrest =>
    cases hind
    refine ⟨_, hnext, hrest, ?_⟩
    have htrim : Text.trim ([] ++ line) = line := hline.trimmed
    have hread : Line.read (Text.trim ([] ++ line)) =
        (Line.readStatement (Text.trim ([] ++ line))).map Line.statement := by
      rw [htrim]
      exact Line.read_simple hline
    rw [sequence_simple limits hread, htrim]

theorem sequence_written_header {n : Nat} {h : Header} {body next : Program} {ls : List Text}
    (hp : (header h body next).WellFormed) (hw : Written 0 (.header h body next) ls) (s : State) :
    ∃ bodies rest, (body.WellFormed ∧ Written 0 body bodies) ∧
      (next.WellFormed ∧ Written 0 next rest) ∧
      Execution.sequence limits (room limits n) ls s =
        match Execution.header (room limits n) h bodies s with
        | .ok () t => Execution.sequence limits (room limits n) rest t
        | .error fault t => .error fault t := by
  obtain ⟨hh, hbody, hnext⟩ := hp
  cases hw with
  | @header _ _ _ _ _ bs rest hind hbs hrest =>
    cases hind
    obtain ⟨bodies, hbodies, hblock⟩ := Written.block hbs hrest hbody hnext
    refine ⟨bodies, rest, ⟨hbody, hbodies⟩, ⟨hnext, hrest⟩, ?_⟩
    have hread : Line.read (Text.trim ([] ++ h.text)) = .ok (.header h) := by
      rw [show Text.trim ([] ++ h.text) = h.text from hh.isPiece_text.trimmed]
      exact Line.read_header hh
    rw [sequence_header limits hread, hblock, List.drop_left]

/-- Execution of the lines of a task, however they are indented, ends as said. -/
def Executes (limits : Limits) (n : Nat) (s : State) (ending : Ending) : Task → Prop
  | .block p => p.WellFormed → ∀ ls, Written 0 p ls →
      (Engine.tower limits n 0).runLines ls s = ending
  | .program p => p.WellFormed → ∀ ls, Written 0 p ls →
      Execution.sequence limits (room limits n) ls s = ending
  | .header h body => body.WellFormed → ∀ ls, Written 0 body ls →
      Execution.header (room limits n) h ls s = ending
  | .each targets body items => body.WellFormed → ∀ ls, Written 0 body ls →
      turns limits n targets ls items s = ending
  | .again text body times => body.WellFormed → ∀ ls, Written 0 body ls →
      Execution.whileTrue (room limits n) text ls times s = ending

/-- What a program means, execution does. -/
theorem Runs.executes {n : Nat} {task : Task} {s : State} {ending : Ending}
    (h : Runs limits n task s ending) : Executes limits n s ending task := by
  -- On the meaning: each of its rules is one equation of the execution, and what the rule has above it
  -- is what the equation goes on with.
  induction h with
  | noRoom => exact fun _ _ _ => rfl
  | refused hdeep =>
    intro _ ls _
    rw [block_succ_apply, if_pos hdeep]
  | entered hdepth _ ih =>
    intro hp ls hw
    rw [block_succ_apply, if_neg (by omega), ih hp ls hw]
  | done =>
    intro _ ls hw
    cases hw
    rw [Execution.sequence]
    rfl
  | simple hline _ ih =>
    intro hp ls hw
    obtain ⟨rest, hnext, hrest, hseq⟩ := sequence_written_simple hp hw _
    rw [hseq, hline]
    exact ih hnext rest hrest
  | simpleFails hline =>
    intro hp ls hw
    obtain ⟨rest, -, -, hseq⟩ := sequence_written_simple hp hw _
    rw [hseq, hline]
  | header _ _ ihheader ihnext =>
    intro hp ls hw
    obtain ⟨bodies, rest, ⟨hbody, hbodies⟩, ⟨hnext, hrest⟩, hseq⟩ := sequence_written_header hp hw _
    rw [hseq, ihheader hbody bodies hbodies]
    exact ihnext hnext rest hrest
  | headerFails _ ih =>
    intro hp ls hw
    obtain ⟨bodies, rest, ⟨hbody, hbodies⟩, -, hseq⟩ := sequence_written_header hp hw _
    rw [hseq, ih hbody bodies hbodies]
  | skipped hcond =>
    intro _ ls _
    rw [onlyIf_apply, hcond]
  | taken hcond _ ih =>
    intro hp ls hw
    rw [onlyIf_apply, hcond]
    exact ih hp ls hw
  | onlyIfFails hcond =>
    intro _ ls _
    rw [onlyIf_apply, hcond]
  | whileTrue _ ih => exact ih
  | @againEnds _ times _ _ _ _ hcond =>
    intro _ ls _
    cases times with
    | zero => rw [whileTrue_zero_apply, hcond]
    | succ times => rw [whileTrue_succ_apply, hcond]
  | @againFails _ times _ _ _ _ _ hcond =>
    intro _ ls _
    cases times with
    | zero => rw [whileTrue_zero_apply, hcond]
    | succ times => rw [whileTrue_succ_apply, hcond]
  | againExceeded hcond =>
    intro _ ls _
    rw [whileTrue_zero_apply, hcond]
  | again hcond _ _ ihbody ihrest =>
    intro hp ls hw
    rw [whileTrue_succ_apply, hcond]
    simp only [ihbody hp ls hw]
    exact ihrest hp ls hw
  | againBodyFails hcond _ ih =>
    intro hp ls hw
    rw [whileTrue_succ_apply, hcond]
    simp only [ih hp ls hw]
  | itemsFail hvalue =>
    intro _ ls _
    rw [forEach_apply, hvalue]
  | notSequence hvalue hnone =>
    intro _ ls _
    simp only [forEach_apply, hvalue, hnone]
  | forEach hvalue hitems _ ih =>
    intro hp ls hw
    simp only [forEach_apply, hvalue, hitems]
    exact ih hp ls hw
  | eachEnds => exact fun _ _ _ => rfl
  | eachFails hshares =>
    intro _ ls _
    rw [turns_cons_apply, turn_apply, hshares]
  | each hshares _ _ ihbody ihrest =>
    intro hp ls hw
    rw [turns_cons_apply, turn_apply, hshares]
    simp only [ihbody hp ls hw]
    exact ihrest hp ls hw
  | eachBodyFails hshares _ ih =>
    intro hp ls hw
    rw [turns_cons_apply, turn_apply, hshares]
    simp only [ih hp ls hw]

/-! ## Every program has a meaning -/

theorem block_total {p : Program} (hp : ∀ n s, ∃ ending, Runs limits n (.program p) s ending)
    (n : Nat) (s : State) : ∃ ending, Runs limits n (.block p) s ending := by
  cases n with
  | zero => exact ⟨_, .noRoom⟩
  | succ n =>
    by_cases hdeep : limits.maxNestingDepth < (s.depth + 1 : Nat)
    · exact ⟨_, .refused hdeep⟩
    · obtain ⟨ending, hruns⟩ := hp n s.enter
      exact ⟨_, .entered (by omega) hruns⟩

theorem again_total {body : Program} (hbody : ∀ n s, ∃ ending, Runs limits n (.block body) s ending)
    (n : Nat) (text : Text) (times : Nat) (s : State) :
    ∃ ending, Runs limits n (.again text body times) s ending := by
  induction times generalizing s with
  | zero =>
    cases hcond : condition limits n text s with
    | error fault t => exact ⟨_, .againFails hcond⟩
    | ok b t =>
      cases b with
      | false => exact ⟨_, .againEnds hcond⟩
      | true => exact ⟨_, .againExceeded hcond⟩
  | succ times ih =>
    cases hcond : condition limits n text s with
    | error fault t => exact ⟨_, .againFails hcond⟩
    | ok b t =>
      cases b with
      | false => exact ⟨_, .againEnds hcond⟩
      | true =>
        obtain ⟨ending, hruns⟩ := hbody (n - 1) t
        cases ending with
        | error fault u => exact ⟨_, .againBodyFails hcond hruns⟩
        | ok _ u =>
          obtain ⟨ending, hrest⟩ := ih u
          exact ⟨_, .again hcond hruns hrest⟩

theorem each_total {body : Program} (hbody : ∀ n s, ∃ ending, Runs limits n (.block body) s ending)
    (n : Nat) (targets : List Text) (items : List Value) (s : State) :
    ∃ ending, Runs limits n (.each targets body items) s ending := by
  induction items generalizing s with
  | nil => exact ⟨_, .eachEnds⟩
  | cons item items ih =>
    cases hshares : shares n targets item s.heap with
    | error fault => exact ⟨_, .eachFails hshares⟩
    | ok values =>
      obtain ⟨ending, hruns⟩ := hbody (n - 1) (s.bindAll (targets.zip values))
      cases ending with
      | error fault t => exact ⟨_, .eachBodyFails hshares hruns⟩
      | ok _ t =>
        obtain ⟨ending, hrest⟩ := ih t
        exact ⟨_, .each hshares hruns hrest⟩

theorem header_total {body : Program}
    (hbody : ∀ n s, ∃ ending, Runs limits n (.block body) s ending) (n : Nat) (h : Header)
    (s : State) : ∃ ending, Runs limits n (.header h body) s ending := by
  cases h with
  | forEach targets text =>
    cases hvalue : value limits n text s with
    | error fault t => exact ⟨_, .itemsFail hvalue⟩
    | ok v t =>
      cases hitems : t.heap.sequence? v with
      | none => exact ⟨_, .notSequence hvalue hitems⟩
      | some items =>
        obtain ⟨ending, hruns⟩ := each_total hbody n targets items t
        exact ⟨_, .forEach hvalue hitems hruns⟩
  | onlyIf text =>
    cases hcond : condition limits n text s with
    | error fault t => exact ⟨_, .onlyIfFails hcond⟩
    | ok b t =>
      cases b with
      | false => exact ⟨_, .skipped hcond⟩
      | true =>
        obtain ⟨ending, hruns⟩ := hbody (n - 1) t
        exact ⟨_, .taken hcond hruns⟩
  | whileTrue text =>
    obtain ⟨ending, hruns⟩ := again_total hbody n text 10000 s
    exact ⟨_, .whileTrue hruns⟩

/-- A program has an ending from every state. -/
theorem runs_total (p : Program) (n : Nat) (s : State) :
    ∃ ending, Runs limits n (.program p) s ending := by
  induction p generalizing n s with
  | done => exact ⟨_, .done⟩
  | simple line next ih =>
    cases hline : simpleLine limits n line s with
    | error fault t => exact ⟨_, .simpleFails hline⟩
    | ok _ t =>
      obtain ⟨ending, hruns⟩ := ih n t
      exact ⟨_, .simple hline hruns⟩
  | header h body next ihbody ihnext =>
    obtain ⟨ending, hruns⟩ := header_total (block_total ihbody) n h s
    cases ending with
    | error fault t => exact ⟨_, .headerFails hruns⟩
    | ok _ t =>
      obtain ⟨ending, hnext⟩ := ihnext n t
      exact ⟨_, .header hruns hnext⟩

/-- A block is executed as its program means, and in no other way. -/
theorem runLines_iff_runs {p : Program} {ls : List Text} (hp : p.WellFormed) (hw : Written 0 p ls)
    (n : Nat) (s : State) (ending : Ending) :
    (Engine.tower limits n 0).runLines ls s = ending ↔ Runs limits n (.block p) s ending := by
  constructor
  · rintro rfl
    obtain ⟨ending, hruns⟩ := block_total (runs_total p) n s
    rw [hruns.executes hp ls hw]
    exact hruns
  · intro hruns
    exact hruns.executes hp ls hw

theorem after_injective (session : Session) : Function.Injective (Ending.after session) := by
  intro left right h
  cases left <;> cases right <;> simp_all [Ending.after]

theorem runSource_join {p : Program} {ls : List Text} (hp : p.WellFormed) (hw : Written 0 p ls)
    (session : Session) :
    session.runSource (Text.join "\n" ls) =
      Ending.after session
        ((Engine.tower session.limits Engine.startLevels 0).runLines ls session.state) := by
  unfold Session.runSource Session.run
  rw [Source.cleanLines_join ls (hw.isClean hp)]
  show _ = Ending.after session ((Engine.start session.limits).runLines ls session.state)
  cases (Engine.start session.limits).runLines ls session.state <;> rfl

/-- However a program is written, and whatever state it starts from, running its text ends exactly
as the program means: in the same state, with the same fault or without one. -/
theorem runSource_written {p : Program} {ls : List Text} (hp : p.WellFormed) (hw : Written 0 p ls)
    (session : Session) (ending : Ending) :
    session.runSource (Text.join "\n" ls) = ending.after session ↔
      Runs session.limits Engine.startLevels (.block p) session.state ending := by
  rw [← runLines_iff_runs hp hw, runSource_join hp hw, (after_injective session).eq_iff]

/-- A loop whose body appends to the list that it runs through, and a condition around a loop. -/
def growing : Program :=
  .simple "xs = [1, 2]" <|
  .header (.forEach ["x"] "xs")
    (.simple "xs.append(x)" <|
    .header (.onlyIf "x > 1")
      (.header (.whileTrue "len(xs) < 6") (.simple "xs.append(0)" .done) .done)
      .done) <|
  .simple "print(xs)" .done

/-- The lines of the program, indented by spaces and by tabs. -/
def growingLines : List Text :=
  ["xs = [1, 2]", "for x in xs:", "\txs.append(x)", "    if x > 1:", "\t    while len(xs) < 6:",
    "    \t\txs.append(0)", "print(xs)"]

theorem written_growing : Written 0 growing growingLines :=
  .simple .none <|
  .header .none
    (.simple (.tab .none) <|
    .header (.spaces .none)
      (.header (.tab (.spaces .none))
        (.simple (.spaces (.tab (.tab .none))) .done) .done)
      .done) <|
  .simple .none .done

/-- The lines that a run has written when it ends without a fault. -/
def printed? : Ending → Option (List Text)
  | .ok () s => some s.output.lines.toList
  | .error _ _ => none

theorem runSource_written_growing :
    growing.WellFormed ∧ Written 0 growing growingLines ∧
      ∃ ending : Ending,
        (Session.initial .standard ⟨0⟩ 0).runSource (Text.join "\n" growingLines) =
          ending.after (.initial .standard ⟨0⟩ 0) ∧
        Runs .standard Engine.startLevels (.block growing) (.initial ⟨0⟩ 0) ending ∧
        printed? ending = some [Text.ofString "[1, 2, 1, 2, 0, 0]"] := by
  have hp : growing.WellFormed := by decide
  have hrun := runSource_join hp written_growing (.initial .standard ⟨0⟩ 0)
  refine ⟨hp, written_growing, _, hrun, ?_, ?_⟩
  · exact (runSource_written hp written_growing (.initial .standard ⟨0⟩ 0) _).mp hrun
  · decide +kernel

end Program

end Scriptlet
