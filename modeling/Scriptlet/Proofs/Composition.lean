import Scriptlet.Proofs.Effects.Running
import Scriptlet.Proofs.Program.Running

/-
  Sources run one after the other.

  Two sources with a line feed between them have the lines of both, except that an empty line may stand
  at the seam. A block ends at a line that is not indented, so no block of the first source, however
  deep, goes on in the second one. The blocks that are being executed are counted the same before and
  after a run, so the second source finds the count that the first one found.

  What is proved:
    1. `Source.cleanLines_append` — cleaned lines are those of the two sources.
    2. `Execution.sequence_append` — lines in front of a line that is not indented run by themselves.
    3. `Session.runSource_append` — two sources run as one, when the second is not indented at its
       start.
-/

namespace Scriptlet

/-! ## Lines -/

namespace Text

theorem linesFrom_lineFeed (line rest : Text) :
    linesFrom line (CodePoint.ofChar '\n' :: rest) = line.reverse :: linesFrom [] rest := by
  have htext : ([] ++ ("\n" : Text)) ++ rest = CodePoint.ofChar '\n' :: rest := rfl
  have hline := linesFrom_append_lineFeed [] line rest (fun c hc => absurd hc List.not_mem_nil)
  rw [htext, List.append_nil] at hline
  exact hline

/-- A line feed between two texts ends the last line of the first one. If that has ended already, there
is an empty line between them; a carriage return is ended together with the line feed. -/
theorem linesFrom_append_cons (line s t : Text) :
    ∃ between : List Text, (∀ l ∈ between, l = []) ∧
      linesFrom line (s ++ CodePoint.ofChar '\n' :: t) = linesFrom line s ++ between ++ linesFrom [] t := by
  have hnothing : ∀ l ∈ ([] : List Text), l = [] := fun l hl => absurd hl List.not_mem_nil
  have hempty : ∀ l ∈ ([[]] : List Text), l = [] := fun l hl => List.mem_singleton.mp hl
  fun_induction linesFrom line s with
  | case1 line hline =>
    -- The first text has ended with a line, so the line feed makes an empty one.
    refine ⟨[[]], hempty, ?_⟩
    rw [List.nil_append, linesFrom_lineFeed, List.isEmpty_iff.mp hline]
    rfl
  | case2 line hline =>
    refine ⟨[], hnothing, ?_⟩
    rw [List.nil_append, linesFrom_lineFeed]
    rfl
  | case3 line c hbreak =>
    -- A carriage return at the end makes one line break with the line feed.
    by_cases hreturn : c.val = 13
    · refine ⟨[], hnothing, ?_⟩
      have hfeed : (CodePoint.ofChar '\n').val = 10 := by decide
      simp only [List.singleton_append, linesFrom, hreturn, hfeed, beq_self_eq_true, Bool.and_self,
        if_true, List.append_nil]
    · refine ⟨[[]], hempty, ?_⟩
      have hpair : (c.val == 13 && (CodePoint.ofChar '\n').val == 10) = false := by
        rw [beq_false_of_ne hreturn, Bool.false_and]
      show linesFrom line (c :: CodePoint.ofChar '\n' :: t) = _
      rw [linesFrom, hpair, if_neg Bool.false_ne_true, if_pos hbreak, linesFrom_lineFeed]
      rfl
  | case4 line c hbreak =>
    refine ⟨[], hnothing, ?_⟩
    show linesFrom line (c :: CodePoint.ofChar '\n' :: t) = _
    rw [linesFrom_cons (by simpa using hbreak) (List.cons_ne_nil _ _), linesFrom_lineFeed]
    rfl
  | case5 line c d rest hpair ih =>
    obtain ⟨between, hbetween, hlines⟩ := ih
    refine ⟨between, hbetween, ?_⟩
    show linesFrom line (c :: d :: (rest ++ CodePoint.ofChar '\n' :: t)) = _
    rw [linesFrom, if_pos hpair, hlines]
    rfl
  | case6 line c d rest hpair hbreak ih =>
    obtain ⟨between, hbetween, hlines⟩ := ih
    refine ⟨between, hbetween, ?_⟩
    show linesFrom line (c :: d :: (rest ++ CodePoint.ofChar '\n' :: t)) = _
    rw [linesFrom, if_neg hpair, if_pos hbreak]
    exact congrArg (line.reverse :: ·) hlines
  | case7 line c d rest hpair hbreak ih =>
    obtain ⟨between, hbetween, hlines⟩ := ih
    refine ⟨between, hbetween, ?_⟩
    show linesFrom line (c :: d :: (rest ++ CodePoint.ofChar '\n' :: t)) = _
    rw [linesFrom, if_neg hpair, if_neg hbreak]
    exact hlines

end Text

namespace Source

theorem cleanLines_append (a b : Text) :
    cleanLines (a ++ "\n" ++ b) = cleanLines a ++ cleanLines b := by
  obtain ⟨between, hbetween, hlines⟩ := Text.linesFrom_append_cons [] a b
  have hgone : (between.map cleanLine).filter (!·.isEmpty) = [] := by
    rw [List.filter_eq_nil_iff]
    intro l hl
    obtain ⟨line, hline, rfl⟩ := List.mem_map.mp hl
    rw [hbetween line hline]
    decide
  have htext : a ++ "\n" ++ b = a ++ CodePoint.ofChar '\n' :: b := by
    rw [List.append_assoc]
    rfl
  unfold cleanLines Text.lines
  rw [htext, hlines, List.map_append, List.map_append, List.filter_append, List.filter_append, hgone,
    List.append_nil]

/-- A cleaned line holds something that is not blank. -/
theorem isBlank_of_mem_cleanLines {source line : Text} (hline : line ∈ cleanLines source) :
    line.isBlank = false := by
  obtain ⟨hmem, hne⟩ := List.mem_filter.mp hline
  obtain ⟨whole, -, rfl⟩ := List.mem_map.mp hmem
  have hlast := List.head?_dropWhile_not CodePoint.isBlank
    (unescapeHashes (dropComment false whole)).reverse
  unfold cleanLine Text.trimRight at hne ⊢
  cases hrest : List.dropWhile CodePoint.isBlank (unescapeHashes (dropComment false whole)).reverse with
  | nil =>
    rw [hrest] at hne
    exact absurd hne (by decide)
  | cons c rest =>
    rw [hrest] at hlast
    have hc : c.isBlank = false := by simpa using hlast
    simp only [Text.isBlank, List.reverse_cons, List.all_append, List.all_cons, hc, Bool.false_and,
      Bool.and_false]

/-- The source begins with a line that is not indented, if it holds a line at all. -/
def StartsUnindented (source : Text) : Prop :=
  ∀ line, (cleanLines source).head? = some line →
    ¬ ("    " : Text) <+: line ∧ ¬ ("\t" : Text) <+: line

end Source

theorem Text.dropStart?_eq_none {start t : Text} (h : ¬ start <+: t) : dropStart? start t = none :=
  Option.eq_none_iff_forall_ne_some.mpr fun rest hrest => h ⟨rest, (dropStart?_eq_some_iff.mp hrest).symm⟩

namespace Source

theorem StartsUnindented.endsBlock {source : Text} (h : StartsUnindented source) :
    EndsBlock (cleanLines source) := by
  unfold EndsBlock
  split
  · trivial
  · rename_i line rest hlines
    have hhead : (cleanLines source).head? = some line := by rw [hlines]; rfl
    have hmem : line ∈ cleanLines source := by rw [hlines]; exact List.mem_cons_self
    refine ⟨isBlank_of_mem_cleanLines hmem, ?_⟩
    unfold dedent?
    rw [Text.dropStart?_eq_none (h line hhead).1, Text.dropStart?_eq_none (h line hhead).2]

/-! ## Blocks -/

theorem blockFrom_append_endsBlock {xs ys : List Text} (hys : EndsBlock ys) (done : List Text)
    (taken : Nat) : blockFrom done taken (xs ++ ys) = blockFrom done taken xs := by
  induction xs generalizing done taken with
  | nil => exact blockFrom_of_endsBlock done taken hys
  | cons line xs ih =>
    rw [List.cons_append]
    unfold blockFrom
    rw [ih]
    cases dedent? line with
    | none => rfl
    | some body => simp only [ih]

theorem blockFrom_taken_le (done : List Text) (taken : Nat) (xs : List Text) :
    (blockFrom done taken xs).2 ≤ taken + xs.length := by
  induction xs generalizing done taken with
  | nil => exact Nat.le_refl taken
  | cons line xs ih =>
    have hnext : ∀ done, (blockFrom done (taken + 1) xs).2 ≤ taken + (xs.length + 1) := by
      intro done
      have := ih done (taken + 1)
      omega
    rw [List.length_cons]
    unfold blockFrom
    split
    · exact hnext done
    · split
      · exact hnext _
      · exact Nat.le_add_right taken _

end Source

/-! ## Execution -/

namespace Execution

variable {limits : Limits} {room : Room}

/-- Lines run by themselves when the first line behind them is not indented: no block among them reaches
across, and none stops before. -/
theorem sequence_append {ys : List Text} (hys : Source.EndsBlock ys) (xs : List Text) :
    sequence limits room (xs ++ ys) =
      sequence limits room xs >>= fun _ => sequence limits room ys := by
  -- On the number of lines, as behind a header all lines of its block are left out.
  induction hlength : xs.length using Nat.strongRecOn generalizing xs with
  | ind length ih =>
    subst hlength
    cases xs with
    | nil =>
      have hnil : sequence limits room [] = pure () := by
        unfold sequence
        rfl
      rw [hnil]
      rfl
    | cons line rest =>
      funext s
      rw [List.cons_append, Run.bind_apply, Execution.sequence, Execution.sequence]
      simp only [Run.bind_apply, Run.liftM_apply]
      cases Line.read line.trim with
      | error fault => rfl
      | ok l =>
        cases l with
        | statement st =>
          simp only [Run.bind_apply]
          cases statement limits room line.trim st s with
          | error fault t => rfl
          | ok u t =>
            simp only
            rw [ih rest.length (Nat.lt_succ_self _) rest rfl, Run.bind_apply]
        | header h =>
          have hblock : Source.block (rest ++ ys) = Source.block rest :=
            Source.blockFrom_append_endsBlock hys [] 0
          have htaken : (Source.block rest).2 ≤ rest.length := by
            have hle := Source.blockFrom_taken_le [] 0 rest
            rwa [Nat.zero_add] at hle
          have hdrop : (rest ++ ys).drop (Source.block rest).2 = rest.drop (Source.block rest).2 ++ ys :=
            List.drop_append_of_le_length htaken
          simp only [hblock, hdrop, Run.bind_apply]
          cases header room h (Source.block rest).1 s with
          | error fault t => rfl
          | ok u t =>
            simp only
            rw [ih _ (length_drop_lt line rest _) _ rfl, Run.bind_apply]

end Execution

namespace Engine

variable {limits : Limits}

/-- A block of lines is executed part by part. The second part finds the count of blocks that the first
one found, since no effect of a run is left in it. -/
theorem runLines_append {ys : List Text} (hys : Source.EndsBlock ys) (n : Nat) (xs : List Text)
    (s : State) :
    (tower limits n 0).runLines (xs ++ ys) s =
      match (tower limits n 0).runLines xs s with
      | .ok () t => (tower limits n 0).runLines ys t
      | .error fault t => .error fault t := by
  cases n with
  | zero => rfl
  | succ n =>
    rw [Program.block_succ_apply, Program.block_succ_apply]
    by_cases hdeep : limits.maxNestingDepth < (s.depth + 1 : Nat)
    · rw [if_pos hdeep, if_pos hdeep]
    · have hdepth : (Run.after (Execution.sequence limits (room limits n) xs) s.enter).depth =
          s.depth + 1 :=
        (Execution.acts_sequence (tower_acts binds_anyName n) binds_anyName xs s.enter).depth_eq
      rw [if_neg hdeep, if_neg hdeep, Execution.sequence_append hys, Run.bind_apply]
      unfold Run.after at hdepth
      cases hrun : Execution.sequence limits (room limits n) xs s.enter with
      | error fault t => rfl
      | ok u t =>
        rw [hrun] at hdepth
        have hleave : t.leave.enter = t := by
          show ({ t with depth := t.depth - 1 + 1 } : State) = t
          have hcount : t.depth - 1 + 1 = t.depth := by
            simp only at hdepth
            omega
          rw [hcount]
        have hsame : ¬ limits.maxNestingDepth < (t.leave.depth + 1 : Nat) := by
          have hcount : t.leave.depth = s.depth := by
            show t.depth - 1 = s.depth
            simp only at hdepth
            omega
          rw [hcount]
          exact hdeep
        show _ = (tower limits (n + 1) 0).runLines ys t.leave
        rw [Program.block_succ_apply, if_neg hsame, hleave]

end Engine

/-! ## Sessions -/

namespace Session

/-- Two sources with a line feed between them run as the first one and then, if that succeeds, the
second one: the variables, the objects, the output and the result are the same. -/
theorem runSource_append (s : Session) (a b : Text) (hb : Source.StartsUnindented b) :
    s.runSource (a ++ "\n" ++ b) =
      match s.runSource a with
      | (.ok (), t) => t.runSource b
      | (.error fault, t) => (.error fault, t) := by
  unfold runSource Session.run
  rw [Source.cleanLines_append]
  unfold Engine.start
  rw [Engine.runLines_append hb.endsBlock]
  cases (Engine.tower s.limits Engine.startLevels 0).runLines (Source.cleanLines a) s.state with
  | error fault t => rfl
  | ok u t => rfl

/-- A loop whose body ends at the seam, after a header in the first source. -/
theorem runSource_append_loop :
    (Session.initial .standard ⟨0⟩ 0).runSource
        (("for i in [1, 2]:\n    x = i" : Text) ++ "\n" ++ ("y = x" : Text)) =
      match (Session.initial .standard ⟨0⟩ 0).runSource ("for i in [1, 2]:\n    x = i" : Text) with
      | (.ok (), t) => t.runSource "y = x"
      | (.error fault, t) => (.error fault, t) := by
  refine runSource_append _ _ _ fun line hline => ?_
  have hlines : (Source.cleanLines "y = x").head? = some ("y = x" : Text) := by decide
  cases hlines.symm.trans hline
  exact ⟨by decide, by decide⟩

end Session

end Scriptlet
