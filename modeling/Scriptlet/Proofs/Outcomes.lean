import Scriptlet.Proofs.Doubles
import Scriptlet.Proofs.Kinds.Operations
import Scriptlet.Proofs.ReadBack.Printing
import Scriptlet.Proofs.Tracing
import Scriptlet.Tool

/-
  What is recorded of a call of a tool.

  A call is one span, and the span says how the body of the call has gone, whatever spans are started
  with. Whether the call gives an answer is decided somewhere else: the text of a number that has been
  reckoned is made behind the end of the span, and an integer may be too long for one.

  What is proved:
    1. `inSpan_ok`, `inSpan_error` — a body in a span ends one span and adds one call that says how it
       has gone, and leaves the open spans as they are.
    2. `formatNumber_error_iff` — of all numbers only an integer that is too long has no text.
    3. `calls_recorded` — so the record is true of every call, unless the number that is reckoned is
       such an integer.
    4. `not_recorded_long` — and then it is not: a call is raised and recorded as a success.
-/

namespace Scriptlet

variable {sdk : Telemetry.Sdk}

namespace RecordedCall

variable {α : Type}

/-- Whether a call gives an answer and is not raised. -/
def returns (call : RecordedCall sdk α) (w : Workbench sdk) : Bool :=
  match call w with
  | .ok _ _ => true
  | .error _ _ => false

/-- The workbench behind a call, whether it gives an answer or is raised. -/
def after (call : RecordedCall sdk α) (w : Workbench sdk) : Workbench sdk :=
  match call w with
  | .ok _ w | .error _ w => w

end RecordedCall

namespace Telemetry

/-- Behind the first record one more span has ended and one more call has been counted, under these
names and with this outcome; the open spans and the current one are the same. -/
structure Recorded (name tool : Text) (isSuccess : Bool) (before after : Recording sdk) : Prop where
  ended : ∃ span, after.ended = before.ended ++ [span] ∧ span.name = name ∧
    span.failure.isNone = isSuccess
  calls : after.calls = before.calls ++ [⟨before.server, tool, isSuccess⟩]
  spans : after.spans = before.spans
  current : after.seen.current = before.seen.current
  holds : after.Holds

theorem recorded_finish_begin {r : Recording sdk} {name tool : Text} {attributes : Attributes}
    {failure : Option Exception} {isSuccess : Bool} (hstarted : r.isStarted = true) (hholds : r.Holds)
    (htool : tool.isEmpty = false) (hsuccess : failure.isNone = isSuccess) :
    Recorded name tool isSuccess r ((r.begin name (some tool) attributes).finish failure) := by
  obtain ⟨state, hfinish, hview, hleft⟩ :=
    Recording.exists_finish_begin name (some tool) attributes failure hstarted hholds
  rw [hfinish] at hleft ⊢
  rw [← hsuccess]
  refine ⟨⟨_, congrArg Tracer.ended hview, rfl, rfl⟩, ?_, rfl, ?_, hleft⟩
  · unfold Recording.countCall
    simp only [htool]
    rfl
  · rw [Recording.seen, hview]

end Telemetry

namespace Tool

open Telemetry (Recorded)

variable {α : Type} {name tool : Text} {attributes : Telemetry.Attributes} {body : Run α}
  {w : Workbench sdk}

/-! ## A body in a span -/

theorem inSpan_apply : inSpan name tool attributes body w =
    match body w.state with
    | .ok a s =>
      .ok a ⟨(w.recorder.begin name (some tool) attributes).finish none, s⟩
    | .error fault s =>
      .error fault
        ⟨(w.recorder.begin name (some tool) attributes).finish (some (exceptionOf fault)), s⟩ := by
  have hrecord : ∀ change (w : Workbench sdk),
      record change w = .ok () { w with recorder := change w.recorder } := fun _ _ => rfl
  cases hbody : body w.state <;>
    simp only [inSpan, hrecord, onValues, hbody, bind, EStateM.bind, tryCatch, tryCatchThe,
      MonadExceptOf.tryCatch, EStateM.tryCatch] <;>
    rfl

/-- A body in a span that comes to an end has come to it by itself, and a success is recorded. -/
theorem inSpan_ok {a : α} {w' : Workbench sdk} (hstarted : w.recorder.isStarted = true)
    (hholds : w.recorder.Holds) (htool : tool.isEmpty = false)
    (h : inSpan name tool attributes body w = .ok a w') :
    body w.state = .ok a w'.state ∧ Recorded name tool true w.recorder w'.recorder := by
  rw [inSpan_apply] at h
  cases hbody : body w.state with
  | ok b s =>
    rw [hbody] at h
    cases h
    exact ⟨rfl, Telemetry.recorded_finish_begin hstarted hholds htool rfl⟩
  | error fault s =>
    rw [hbody] at h
    cases h

/-- A body in a span that stops has stopped by itself, and a failure is recorded. -/
theorem inSpan_error {fault : Fault} {w' : Workbench sdk} (hstarted : w.recorder.isStarted = true)
    (hholds : w.recorder.Holds) (htool : tool.isEmpty = false)
    (h : inSpan name tool attributes body w = .error fault w') :
    body w.state = .error fault w'.state ∧ Recorded name tool false w.recorder w'.recorder := by
  rw [inSpan_apply] at h
  cases hbody : body w.state with
  | ok b s =>
    rw [hbody] at h
    cases h
  | error other s =>
    rw [hbody] at h
    cases h
    exact ⟨rfl, Telemetry.recorded_finish_begin hstarted hholds htool rfl⟩

/-! ## Texts of numbers -/

/-- The number has no text: it is an integer with too many digits. -/
def IsLong (v : Value) : Prop := ∃ n, v = .int n ∧ NumberText.ofInt? n = none

theorem integerText_error_iff {n : Int} :
    (∃ fault, integerText n = .error fault) ↔ NumberText.ofInt? n = none := by
  unfold integerText
  generalize NumberText.ofInt? n = text
  cases text with
  | none => exact ⟨fun _ => rfl, fun _ => ⟨_, rfl⟩⟩
  | some t => exact ⟨fun ⟨_, h⟩ => (by cases h), fun h => (by cases h)⟩

/-- The integer part of a double is never too long. -/
theorem integerText_floor {x : Float} {n : Int} (h : Binary64.floor? x = some n) :
    integerText n = .ok (Text.ofInt n) := by
  have hbase : ∀ k, twoTo k ≤ tenTo k := fun k => Nat.pow_le_pow_left (by decide) k
  have hshort : n.natAbs < tenTo NumberText.maxDigits :=
    calc n.natAbs < twoTo 1024 := Binary64.natAbs_floor?_lt h
      _ ≤ twoTo NumberText.maxDigits := Binary64.twoTo_le (by decide)
      _ ≤ tenTo NumberText.maxDigits := hbase _
  exact Heap.integerText_of_short hshort

theorem formatNumber_int (n : Int) : formatNumber (.int n) = Run.lift (integerText n) := by
  have hlook : formatNumber (.int n) =
      Run.look fun h => h.plainRepr Engine.startLevels (.int n) := rfl
  have hrepr : ∀ (h : Heap) levels, h.plainRepr (levels + 1) (.int n) = integerText n :=
    fun _ _ => rfl
  funext s
  rw [hlook, Run.look_apply, Engine.startLevels, hrepr s.heap 959]
  generalize integerText n = text
  cases text <;> rfl

theorem formatNumber_float (x : Float) (s : State) :
    ∃ text, formatNumber (.float x) s = .ok text s := by
  unfold formatNumber
  simp only
  cases hfloor : Binary64.floor? x with
  | none => exact ⟨_, rfl⟩
  | some n =>
    simp only [integerText_floor hfloor]
    cases Binary64.isIntegral x <;> exact ⟨_, rfl⟩

/-- Of all numbers only an integer that is too long has no text. -/
theorem formatNumber_error_iff {v : Value} {s : State} (hv : v.number?.isSome) :
    (∃ fault t, formatNumber v s = .error fault t) ↔ IsLong v := by
  have hwritten : ∀ {u : Value}, (∃ text, formatNumber u s = .ok text s) → (∀ n, u ≠ .int n) →
      ((∃ fault t, formatNumber u s = .error fault t) ↔ IsLong u) := by
    rintro u ⟨text, hok⟩ hint
    constructor
    · rintro ⟨fault, t, h⟩
      rw [hok] at h
      cases h
    · rintro ⟨n, h, -⟩
      exact absurd h (hint n)
  cases v with
  | int n =>
    have hlong : IsLong (.int n) ↔ NumberText.ofInt? n = none :=
      ⟨fun ⟨_, hm, hnone⟩ => (by cases hm; exact hnone), fun hnone => ⟨n, rfl, hnone⟩⟩
    rw [formatNumber_int, hlong, ← integerText_error_iff]
    cases integerText n with
    | ok text => exact ⟨fun ⟨_, _, h⟩ => (by cases h), fun ⟨_, h⟩ => (by cases h)⟩
    | error fault => exact ⟨fun _ => ⟨_, rfl⟩, fun _ => ⟨_, _, rfl⟩⟩
  | float x => exact hwritten (formatNumber_float x s) fun _ h => (by cases h)
  | bool b => exact hwritten ⟨if b then "True" else "False", by cases b <;> rfl⟩ fun _ h => (by cases h)
  | nan mark => exact hwritten ⟨"nan", rfl⟩ fun _ h => (by cases h)
  | none | complex _ _ | text _ | list _ | tuple _ | dict _ | set _ | library _ | record _
  | function _ => cases hv

/-! ## Results -/

/-- The result of an operation on numbers is a number. -/
theorem operate_number {op : BinaryOp} (hop : op ≠ .pow) {a b v : Value} {s t : State}
    (ha : a.number?.isSome) (hb : b.number?.isSome) (h : operate op a b s = .ok v t) :
    v.number?.isSome := by
  obtain ⟨m, hm⟩ := Option.isSome_iff_exists.mp ha
  obtain ⟨n, hn⟩ := Option.isSome_iff_exists.mp hb
  unfold operate Operation.apply at h
  simp only [hm, hn] at h
  obtain ⟨c, u, hcompute, h⟩ := Run.bind_ok_iff.mp h
  have hreal : c.IsReal := Number.gives_compute op hop m n c (Run.liftM_ok_iff.mp hcompute).1
  cases c with
  | int n =>
    cases h
    rfl
  | float x =>
    have hv : (u.heap.newFloat x).1 = v := by
      cases h
      rfl
    rw [← hv, Heap.newFloat]
    split <;> rfl
  | complex re im => exact hreal.elim

theorem operations_ne_pow {operation : Text} {op : BinaryOp}
    (h : operations.lookup operation = some op) : op ≠ .pow := by
  rintro rfl
  have hmem : (operation, BinaryOp.pow) ∈ operations := mem_of_lookup h
  simp [operations] at hmem

theorem reckon_number {operation : Text} {a b v : Value} {s t : State} (ha : a.number?.isSome)
    (hb : b.number?.isSome) (h : reckon operation a b s = .ok (some v) t) : v.number?.isSome := by
  have hoperated : ∀ {op : BinaryOp} {u : State}, operations.lookup operation = some op →
      (do return some (← operate op a b) : Run (Option Value)) u = .ok (some v) t →
      v.number?.isSome := by
    intro op u hop hsome
    obtain ⟨v', u', hv, hpure⟩ := Run.bind_ok_iff.mp hsome
    cases hpure
    exact operate_number (operations_ne_pow hop) ha hb hv
  unfold reckon at h
  cases hop : operations.lookup operation with
  | none =>
    rw [hop] at h
    cases h
  | some op =>
    rw [hop] at h
    simp only at h
    split at h
    · obtain ⟨isZero, u, -, h⟩ := Run.bind_ok_iff.mp h
      split at h
      · cases h
      · exact hoperated hop h
    · exact hoperated hop h

/-! ## Calls -/

/-- An operation makes an integer that is too long for text. -/
def ReckonsLong (operation : Text) (a b : Value) (s : State) : Prop :=
  ∃ v t, reckon operation a b s = .ok (some v) t ∧ IsLong v

theorem calculate_apply {operation : Text} {a b : Value} : calculate operation a b w =
    match inSpan "tool.calculate" "calculate" [("tool.operation", .text operation)]
      (reckon operation a b) w with
    | .ok none w => .ok divisionByZero w
    | .ok (some v) w => onValues (formatNumber v) w
    | .error fault w => .error fault w := by
  simp only [calculate, bind, EStateM.bind]
  cases inSpan "tool.calculate" "calculate" [("tool.operation", .text operation)]
      (reckon operation a b) w with
  | ok result w => cases result <;> rfl
  | error fault w => rfl

theorem executeScript_apply {limits : Limits} {code : Text} : executeScript limits code w =
    match inSpan "tool.execute_python" "execute_python" [("tool.code.length", .int code.length)]
      (apart (Session.script limits code)) w with
    | .ok output w => .ok (outputReply output) w
    | .error fault w => .ok (failureReply fault) w := by
  simp only [executeScript, bind, EStateM.bind, tryCatch, tryCatchThe, MonadExceptOf.tryCatch,
    EStateM.tryCatch]
  cases inSpan "tool.execute_python" "execute_python" [("tool.code.length", .int code.length)]
      (apart (Session.script limits code)) w <;> rfl

/-- The text that begins the answer to a script that has failed. -/
def failurePrefix : Text := "Execution error: "

theorem outputReply_ne (output rest : Text) : outputReply output ≠ failurePrefix ++ rest :=
  fun h => absurd (congrArg List.head? h) (by
    show some (CodePoint.ofChar 'P') ≠ some (CodePoint.ofChar 'E')
    decide)

/-- A sum is recorded as a success exactly if it is answered. -/
theorem add_recorded {a b : Value} (hstarted : w.recorder.isStarted = true)
    (hholds : w.recorder.Holds) :
    Recorded "tool.add" "add" ((add a b).returns w) w.recorder ((add a b).after w).recorder := by
  unfold RecordedCall.returns RecordedCall.after
  cases hadd : add a b w with
  | ok text w' => exact (inSpan_ok hstarted hholds rfl hadd).2
  | error fault w' => exact (inSpan_error hstarted hholds rfl hadd).2

/-- An operation is recorded as a success exactly if it is answered, unless its result is too long. -/
theorem calculate_recorded {operation : Text} {a b : Value}
    (hstarted : w.recorder.isStarted = true) (hholds : w.recorder.Holds) (ha : a.number?.isSome)
    (hb : b.number?.isSome) :
    ∃ isSuccess, Recorded "tool.calculate" "calculate" isSuccess w.recorder
        ((calculate operation a b).after w).recorder ∧
      (¬ ReckonsLong operation a b w.state → isSuccess = (calculate operation a b).returns w) ∧
      (ReckonsLong operation a b w.state →
        isSuccess = true ∧ (calculate operation a b).returns w = false) := by
  unfold RecordedCall.returns RecordedCall.after
  rw [calculate_apply]
  cases hspan : inSpan "tool.calculate" "calculate" [("tool.operation", .text operation)]
      (reckon operation a b) w with
  | error fault w' =>
    obtain ⟨hreckon, hr⟩ := inSpan_error hstarted hholds rfl hspan
    refine ⟨false, hr, fun _ => rfl, ?_⟩
    rintro ⟨v, t, hlong, -⟩
    rw [hreckon] at hlong
    cases hlong
  | ok result w' =>
    obtain ⟨hreckon, hr⟩ := inSpan_ok hstarted hholds rfl hspan
    cases result with
    | none =>
      refine ⟨true, hr, fun _ => rfl, ?_⟩
      rintro ⟨v, t, hlong, -⟩
      rw [hreckon] at hlong
      cases hlong
    | some v =>
      have hlong : ReckonsLong operation a b w.state ↔ IsLong v := by
        constructor
        · rintro ⟨u, t, hu, hlong⟩
          rw [hreckon] at hu
          cases hu
          exact hlong
        · exact fun hlong => ⟨v, w'.state, hreckon, hlong⟩
      rw [hlong, ← formatNumber_error_iff (reckon_number ha hb hreckon)]
      simp only [onValues]
      cases formatNumber v w'.state with
      | ok text s => exact ⟨true, hr, fun _ => rfl, fun ⟨_, _, h⟩ => (by cases h)⟩
      | error fault s =>
        exact ⟨true, hr, fun h => absurd ⟨fault, s, rfl⟩ h, fun _ => ⟨rfl, rfl⟩⟩

/-- A script is recorded as a failure exactly if the answer says that it has failed; there is always an
answer. -/
theorem executeScript_recorded (limits : Limits) (code : Text)
    (hstarted : w.recorder.isStarted = true) (hholds : w.recorder.Holds) :
    ∃ reply w' isSuccess, executeScript limits code w = .ok reply w' ∧
      Recorded "tool.execute_python" "execute_python" isSuccess w.recorder w'.recorder ∧
      (isSuccess = false ↔ ∃ rest, reply = failurePrefix ++ rest) := by
  rw [executeScript_apply]
  cases hspan : inSpan "tool.execute_python" "execute_python" [("tool.code.length", .int code.length)]
      (apart (Session.script limits code)) w with
  | ok output w' =>
    refine ⟨_, _, true, rfl, (inSpan_ok hstarted hholds rfl hspan).2, fun h => (by cases h), ?_⟩
    exact fun ⟨rest, h⟩ => absurd h (outputReply_ne output rest)
  | error fault w' =>
    exact ⟨_, _, false, rfl, (inSpan_error hstarted hholds rfl hspan).2, fun _ => ⟨_, rfl⟩, fun _ => rfl⟩

/-- Whatever spans are started with: every call of a tool on numbers or with a script ends one span and is
counted once under the name of its tool, and the open spans stay as they are. It is recorded as a failure
exactly if it is raised, and a script exactly if the answer says that it has failed; but an operation whose
result is an integer that is too long for text is raised behind its span, and recorded as a success. -/
theorem calls_recorded (limits : Limits) (operation code : Text) (a b : Value) (w : Workbench sdk)
    (hstarted : w.recorder.isStarted = true) (hholds : w.recorder.Holds) (ha : a.number?.isSome)
    (hb : b.number?.isSome) :
    Recorded "tool.add" "add" ((add a b).returns w) w.recorder ((add a b).after w).recorder ∧
    (∃ isSuccess, Recorded "tool.calculate" "calculate" isSuccess w.recorder
        ((calculate operation a b).after w).recorder ∧
      (¬ ReckonsLong operation a b w.state → isSuccess = (calculate operation a b).returns w) ∧
      (ReckonsLong operation a b w.state →
        isSuccess = true ∧ (calculate operation a b).returns w = false)) ∧
    ∃ reply w' isSuccess, executeScript limits code w = .ok reply w' ∧
      Recorded "tool.execute_python" "execute_python" isSuccess w.recorder w'.recorder ∧
      (isSuccess = false ↔ ∃ rest, reply = failurePrefix ++ rest) :=
  ⟨add_recorded hstarted hholds, calculate_recorded hstarted hholds ha hb,
    executeScript_recorded limits code hstarted hholds⟩

theorem calls_recorded_division :
    let w : Workbench Telemetry.Tracer.sdk := ⟨.empty true serverName, .initial ⟨0⟩ 0⟩
    let a : Value := .bool true
    let b : Value := .int 0
    (w.recorder.isStarted = true ∧ w.recorder.Holds ∧ a.number?.isSome ∧ b.number?.isSome) ∧
    Recorded "tool.add" "add" ((add a b).returns w) w.recorder ((add a b).after w).recorder ∧
    (∃ isSuccess, Recorded "tool.calculate" "calculate" isSuccess w.recorder
        ((calculate "divide" a b).after w).recorder ∧
      (¬ ReckonsLong "divide" a b w.state → isSuccess = (calculate "divide" a b).returns w) ∧
      (ReckonsLong "divide" a b w.state →
        isSuccess = true ∧ (calculate "divide" a b).returns w = false)) ∧
    ∃ reply w' isSuccess, executeScript .standard "print(1" w = .ok reply w' ∧
      Recorded "tool.execute_python" "execute_python" isSuccess w.recorder w'.recorder ∧
      (isSuccess = false ↔ ∃ rest, reply = failurePrefix ++ rest) :=
  ⟨⟨rfl, trivial, rfl, rfl⟩,
    calls_recorded .standard "divide" "print(1" (.bool true) (.int 0) _ rfl trivial rfl rfl⟩

/-- A sum that is too long for text is raised behind its span. -/
theorem calculate_add_long {m n : Int} (h : tenTo NumberText.maxDigits ≤ (m + n).natAbs)
    (hstarted : w.recorder.isStarted = true) (hholds : w.recorder.Holds) :
    (calculate "add" (.int m) (.int n)).returns w = false ∧
      ((calculate "add" (.int m) (.int n)).after w).recorder.calls =
        w.recorder.calls ++ [⟨w.recorder.server, "calculate", true⟩] := by
  have hlong : ReckonsLong "add" (.int m) (.int n) w.state := by
    refine ⟨.int (m + n), w.state, rfl, m + n, rfl, ?_⟩
    rw [NumberText.ofInt?, if_neg (Nat.not_lt_of_le h)]
  have hm : (Value.int m).number?.isSome := rfl
  have hn : (Value.int n).number?.isSome := rfl
  obtain ⟨isSuccess, hr, -, hraised⟩ := calculate_recorded hstarted hholds hm hn
  obtain ⟨rfl, hreturns⟩ := hraised hlong
  exact ⟨hreturns, hr.calls⟩

/-- One more than the greatest integer that has a text is raised, and recorded as a success. -/
theorem not_recorded_long :
    let w : Workbench Telemetry.Tracer.sdk := ⟨.empty true serverName, .initial ⟨0⟩ 0⟩
    let call := calculate "add" (.int ((tenTo NumberText.maxDigits : Nat) - 1)) (.int 1)
    call.returns w = false ∧ (call.after w).recorder.calls = [⟨serverName, "calculate", true⟩] := by
  have hnext : ∀ k : Nat, k ≤ ((k : Int) - 1 + 1).natAbs := fun k => by
    rw [Int.sub_add_cancel, Int.natAbs_natCast]
  exact calculate_add_long (hnext _) rfl trivial

end Tool

end Scriptlet
