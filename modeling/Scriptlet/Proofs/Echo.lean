import Scriptlet.Proofs.Escape.Expressions
import Scriptlet.Proofs.Program.Reading
import Scriptlet.Proofs.Spans.Leading

/-
  Lines that show their values.

  A line that is an expression writes its value, if there is something to show, unless the line prints
  itself. Whether it does is judged by how its text begins. So a list that begins with a printing call is not
  shown, though it is no call. A call behind a parenthesis is judged as if it did not print, which shows
  something only where the name has been bound to another function.

  What is proved:
    1. `beginsWithPrint_iff` — the text begins so if and only if a printing call stands at the start of the
       expression.
    2. `simpleLine_echoes` — what the line writes, and when that is what a judgement of the expression as a
       whole would have it write.
-/

namespace Scriptlet

/-! ## The start of a line -/

namespace Execution

variable {text : Text} {tokens : List Token}

theorem beginsWithPrint_eq_true_iff :
    beginsWithPrint text = true ↔
      ∃ rest : Text, text = "print" ++ rest ∧ rest.trimLeft.head? = some (CodePoint.ofChar '(') := by
  unfold beginsWithPrint
  constructor
  · intro h
    split at h
    · rename_i rest hrest
      exact ⟨rest, Text.dropStart?_eq_some_iff.mp hrest, beq_iff_eq.mp h⟩
    · cases h
  · rintro ⟨rest, rfl, hhead⟩
    rw [Text.dropStart?_append]
    exact beq_iff_eq.mpr hhead

/-- What goes on with blanks and a parenthesis ends a name. -/
theorem ends_of_paren {rest : Text} (h : rest.trimLeft.head? = some (CodePoint.ofChar '(')) :
    Token.Ends rest := by
  intro c hc
  cases hblank : c.isBlank with
  | true =>
    refine ⟨Text.isWord_eq_false_of_isBlank hblank, Token.isDigit_eq_false_of_isBlank hblank, ?_⟩
    rintro hpoint
    unfold CodePoint.isBlank at hblank
    rw [hpoint] at hblank
    cases hblank
  | false =>
    have htrimmed : rest.trimLeft = rest :=
      Text.trimLeft_eq_self_iff.mpr fun d hd => by cases Option.mem_unique hd hc; exact hblank
    rw [htrimmed] at h
    cases Option.mem_unique hc h
    decide

/-- The text begins as a printing call if and only if its first tokens do. -/
theorem beginsWithPrint_iff_tokens (hscan : Token.scan text = .ok tokens) :
    beginsWithPrint text = true ↔ ∃ first second rest, tokens = first :: second :: rest ∧
      first.start = 0 ∧ first.word = ⟨.name, "print"⟩ ∧ second.word = .of "(" := by
  have hlexes := Token.scan_iff.mp hscan
  rw [beginsWithPrint_eq_true_iff]
  constructor
  · rintro ⟨rest, rfl, hhead⟩
    have hname : Token.lexeme (CodePoint.ofChar 'p') (Text.ofString "rint" ++ rest) = .ok (some .name, 4) :=
      Token.lexeme_name (by decide) (by decide) (ends_of_paren hhead)
    have htext : Text.ofString "print" ++ rest =
        CodePoint.ofChar 'p' :: (Text.ofString "rint" ++ rest) := rfl
    rw [htext] at hlexes
    cases hlexes with
    | blank hlexeme _ => cases hname.symm.trans hlexeme
    | token hlexeme hrest =>
      cases hname.symm.trans hlexeme
      obtain ⟨second, others, rfl, hsecond⟩ := hrest.head?_trimLeft_iff.mp hhead
      exact ⟨_, second, others, rfl, rfl, rfl, hsecond⟩
  · rintro ⟨first, second, rest, rfl, hstart, hfirst, hsecond⟩
    cases hlexes with
    | blank _ hrest =>
      have hle := (hrest.start_le first List.mem_cons_self).1
      omega
    | @token _ n c after kind _ _ hrest =>
      refine ⟨after.drop n, ?_, hrest.head?_trimLeft_iff.mpr ⟨second, rest, rfl, hsecond⟩⟩
      have hprint : c :: after.take n = "print" := congrArg Word.text hfirst
      rw [← hprint, List.cons_append, List.take_append_drop]

/-- A line that is read as an expression begins as a printing call if and only if one stands at the start
of the expression. -/
theorem beginsWithPrint_iff {levels : Nat} {e : Expr}
    (hread : Evaluation.read levels text.trim = .ok e) :
    beginsWithPrint text.trim = true ↔ e.BeginsWithCall "print" := by
  have hparse := Evaluation.read_ok_iff.mp hread
  rw [Expr.parse, Text.trim_trim] at hparse
  obtain ⟨tokens, p, hscan, -⟩ := Expr.exists_located hparse
  rw [beginsWithPrint_iff_tokens hscan,
    Expr.beginsWithCall_iff (by decide) (by decide +kernel) hscan hparse]

end Execution

/-! ## What a line writes -/

/-- There is something to show of the value. -/
def Value.IsShown (v : Value) : Prop := v ≠ .none ∧ v ≠ .text ""

instance (v : Value) : Decidable v.IsShown := inferInstanceAs (Decidable (v ≠ .none ∧ v ≠ .text ""))

/-- The state with one more line of output. -/
def State.written (s : State) (line : Text) : State :=
  { s with output := (s.output.charge line).push line }

theorem State.written_ne (s : State) (line : Text) : s.written line ≠ s := by
  intro h
  have hsize := congrArg (fun s : State => s.output.lines.size) h
  simp [State.written, Output.push, Output.charge] at hsize

theorem Run.write_of_le {limits : Limits} {line : Text} {s : State}
    (h : (s.output.charge line).used ≤ limits.maxOutputSize) :
    write limits line s = .ok () (s.written line) := by
  unfold write
  simp only [bind_apply, modify_apply, get_apply]
  rw [if_neg (Int.not_lt.mpr h)]
  rfl

namespace Program

open Engine (room)

variable {limits : Limits} {levels : Nat} {line text : Text} {s t : State} {v : Value}

/-- Behind what its evaluation has done the line writes the text if `shows`, and nothing else. -/
structure Echoes (limits : Limits) (levels : Nat) (line : Text) (s t : State) (text : Text)
    (shows : Prop) : Prop where
  written : shows → simpleLine limits levels line s = .ok () (t.written text)
  silent : ¬ shows → simpleLine limits levels line s = .ok () t

/-- The state behind the line tells whether it has written, so there is one answer to that. -/
theorem Echoes.iff {P Q : Prop} (h : Echoes limits levels line s t text P) :
    Echoes limits levels line s t text Q ↔ (P ↔ Q) := by
  constructor
  · intro hQ
    constructor
    · intro hp
      by_contra hq
      exact t.written_ne text (EStateM.Result.ok.inj ((h.written hp).symm.trans (hQ.silent hq))).2
    · intro hq
      by_contra hp
      exact t.written_ne text (EStateM.Result.ok.inj ((hQ.written hq).symm.trans (h.silent hp))).2
  · intro heq
    exact ⟨fun hq => h.written (heq.mpr hq), fun hq => h.silent fun hp => hq (heq.mp hp)⟩

theorem echoes_of_text (hline : Line.readStatement line = .ok (.expression line))
    (hvalue : value limits levels line s = .ok v t) (hprinted : t.heap.format (levels / 2) v = .ok text)
    (hbudget : (t.output.charge text).used ≤ limits.maxOutputSize) :
    Echoes limits levels line s t text (v.IsShown ∧ ¬ Execution.beginsWithPrint line = true) := by
  have hevaluated : ((room limits levels).below 1).evaluate line s = .ok v t := hvalue
  have hecho : simpleLine limits levels line s = Execution.echo limits (room limits levels) line s := by
    unfold simpleLine
    rw [Run.bind_of_ok (Run.liftM_ok_iff.mpr ⟨hline, rfl⟩)]
    rfl
  have hshows : (v != .none && v != .text "" && !Execution.beginsWithPrint line) = true ↔
      v.IsShown ∧ ¬ Execution.beginsWithPrint line = true := by
    simp only [Value.IsShown, Bool.and_eq_true, bne_iff_ne, Bool.not_eq_true', Bool.not_eq_true]
  constructor
  · intro h
    rw [hecho, Execution.echo, Run.bind_of_ok hevaluated]
    simp only [hshows.mpr h, if_true]
    rw [Run.bind_of_ok (Run.look_ok_iff.mpr ⟨hprinted, rfl⟩)]
    exact Run.write_of_le hbudget
  · intro h
    rw [hecho, Execution.echo, Run.bind_of_ok hevaluated]
    simp only [Bool.eq_false_iff.mpr (hshows.not.mpr h), Bool.false_eq_true, if_false]
    rfl

/-- What has a value is read as an expression. -/
theorem exists_read_of_value (h : value limits levels line s = .ok v t) :
    ∃ e, Evaluation.read (levels - 2) line.trim = .ok e := by
  change (Engine.tower limits levels 1).evaluate line s = _ at h
  rw [Engine.tower_one] at h
  match levels with
  | 0 | 1 => cases h
  | levels + 2 =>
    change Evaluation.evaluate (room limits levels) line s = _ at h
    cases hread : Evaluation.read levels line.trim with
    | ok e => exact ⟨e, hread⟩
    | error fault =>
      have hstops : (liftM (Evaluation.read (room limits levels).levels line.trim) : Run Expr) s =
          .error fault s := by
        rw [Run.liftM_apply, show Evaluation.read (room limits levels).levels line.trim = _ from hread]
      unfold Evaluation.evaluate at h
      rw [Run.mapFault_apply, Run.bind_of_error hstops] at h
      cases h

/-- A line that is an expression writes the printed value behind all that its evaluation has done, as the
last thing and as one line, if and only if there is something to show and no printing call stands at the
start of the line. Judged by the expression as a whole, it would write unless that is a printing call: the
two agree if and only if there is nothing to show, or the expression is a printing call exactly when one
stands at its start. -/
theorem simpleLine_echoes (limits : Limits) {levels : Nat} {line text : Text} {s t : State} {v : Value}
    (hline : Line.readStatement line.trim = .ok (.expression line.trim))
    (hvalue : value limits levels line.trim s = .ok v t)
    (hprinted : t.heap.format (levels / 2) v = .ok text)
    (hbudget : (t.output.charge text).used ≤ limits.maxOutputSize) :
    ∃ e, Evaluation.read (levels - 2) line.trim = .ok e ∧
      Echoes limits levels line.trim s t text (v.IsShown ∧ ¬ e.BeginsWithCall "print") ∧
      (Echoes limits levels line.trim s t text (v.IsShown ∧ ¬ e.IsCallOf "print") ↔
        (v.IsShown → (e.BeginsWithCall "print" ↔ e.IsCallOf "print"))) := by
  obtain ⟨e, hread⟩ := exists_read_of_value hvalue
  rw [Text.trim_trim] at hread
  have hechoes := echoes_of_text hline hvalue hprinted hbudget
  rw [Execution.beginsWithPrint_iff hread] at hechoes
  refine ⟨e, hread, hechoes, ?_⟩
  rw [hechoes.iff]
  tauto

/-! ## Lines with something to show -/

/-- Whether the line has a value with something to show, and the printed value fits the output. -/
def isShowing (limits : Limits) (levels : Nat) (line : Text) (s : State) : Bool :=
  match value limits levels line s with
  | .error _ _ => false
  | .ok v t =>
    match t.heap.format (levels / 2) v with
    | .error _ => false
    | .ok text => v.IsShown && (t.output.charge text).used ≤ limits.maxOutputSize

theorem exists_of_isShowing (h : isShowing limits levels line s = true) : ∃ v t text,
    value limits levels line s = .ok v t ∧ t.heap.format (levels / 2) v = .ok text ∧ v.IsShown ∧
      (t.output.charge text).used ≤ limits.maxOutputSize := by
  unfold isShowing at h
  split at h
  · cases h
  · rename_i v t hvalue
    split at h
    · cases h
    · rename_i text hprinted
      obtain ⟨hshown, hbudget⟩ := (Bool.and_eq_true _ _).mp h
      exact ⟨v, t, text, hvalue, hprinted, of_decide_eq_true hshown, of_decide_eq_true hbudget⟩

/-- A sum is shown. -/
theorem simpleLine_echoes_sum :
    Line.readStatement (Text.trim "1 + 2") = .ok (.expression (Text.trim "1 + 2")) ∧
      ∃ v t text, value .standard 60 (Text.trim "1 + 2") (.initial ⟨0⟩ 0) = .ok v t ∧
        t.heap.format 30 v = .ok text ∧
        simpleLine .standard 60 (Text.trim "1 + 2") (.initial ⟨0⟩ 0) = .ok () (t.written text) := by
  have hline : Line.readStatement (Text.trim "1 + 2") = .ok (.expression (Text.trim "1 + 2")) := by
    decide +kernel
  have hshowing : isShowing .standard 60 (Text.trim "1 + 2") (.initial ⟨0⟩ 0) = true := by decide +kernel
  obtain ⟨v, t, text, hvalue, hprinted, hshown, hbudget⟩ := exists_of_isShowing hshowing
  obtain ⟨e, hread, hechoes, -⟩ := simpleLine_echoes .standard hline hvalue hprinted hbudget
  have hbegins : ¬ e.BeginsWithCall "print" := by
    rw [← Execution.beginsWithPrint_iff hread]
    decide +kernel
  exact ⟨hline, v, t, text, hvalue, hprinted, hechoes.written ⟨hshown, hbegins⟩⟩

/-- Whether an expression is a list without brackets. -/
def isTuple : Expr → Bool
  | .tuple _ _ => true
  | _ => false

/-- Judged by the expression as a whole, not every line writes what it would: a list that begins with a
printing call is not shown. -/
theorem not_echoes_listed :
    ¬ ∀ (limits : Limits) (levels : Nat) (line text : Text) (s t : State) (v : Value) (e : Expr),
      Line.readStatement line.trim = .ok (.expression line.trim) →
      value limits levels line.trim s = .ok v t → t.heap.format (levels / 2) v = .ok text →
      (t.output.charge text).used ≤ limits.maxOutputSize →
      Evaluation.read (levels - 2) line.trim = .ok e →
      Echoes limits levels line.trim s t text (v.IsShown ∧ ¬ e.IsCallOf "print") := by
  intro hclaim
  have hline : Line.readStatement (Text.trim "print(1), 2") = .ok (.expression (Text.trim "print(1), 2")) := by
    decide +kernel
  have hshowing : isShowing .standard 60 (Text.trim "print(1), 2") (.initial ⟨0⟩ 0) = true := by
    decide +kernel
  have htest : (Evaluation.read 58 (Text.trim "print(1), 2")).toOption.any isTuple = true := by decide +kernel
  have hbegins : Execution.beginsWithPrint (Text.trim "print(1), 2") = true := by decide +kernel
  obtain ⟨v, t, text, hvalue, hprinted, hshown, hbudget⟩ := exists_of_isShowing hshowing
  obtain ⟨e, hread, htuple⟩ := Evaluation.exists_read htest
  have hcall : ¬ e.IsCallOf "print" := by
    rintro ⟨whole, place, args, keywords, rfl⟩
    cases htuple
  have hechoes := echoes_of_text hline hvalue hprinted hbudget
  have hagree := hechoes.iff.mp (hclaim .standard 60 _ text _ t v e hline hvalue hprinted hbudget hread)
  exact (hagree.mpr ⟨hshown, hcall⟩).2 hbegins

end Program

end Scriptlet
