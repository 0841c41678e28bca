import Scriptlet.Proofs.Attachment.Faults
import Scriptlet.Proofs.Escape.Expressions
import Scriptlet.Proofs.Spans.Nodes
import Scriptlet.Proofs.Text.Trimming

/-
  What the error of an expression is attached to.

  An error goes up from the expression that it arises in, through the expressions around it, and stays
  attached to the innermost one that fails. With one exception: where the key that is missing is no key
  whose text can be made, the look-up fails as it reports that, and what it fails with is attached to
  nothing. The expression around the look-up makes an error of it that is attached to that expression
  itself.

  What is proved:
    1. `Comes.hasNode` — an evaluation comes to nodes of its expression only.
    2. `Place.attaches` — what fails at a place is attached to the innermost expression that fails, or
       to the expression around it.
    3. `Evaluation.evaluate_attached` — the error of a text is attached to the whole text, as it is not
       read or nested too deep, or as in 2.
    4. `Evaluation.not_attached_innermost` — a text whose error is attached to the expression around the
       innermost one that fails.
-/

namespace Scriptlet

open Engine (room)

/-! ## The nodes that an evaluation comes to -/

namespace Expr

theorem HasNode.trans {a b c : Expr} (hab : a.HasNode b) (hbc : b.HasNode c) : a.HasNode c := by
  induction hab with
  | here e => exact hbc
  | inside hchild _ ih => exact .inside hchild (ih hbc)

/-- The expression is a node below another one. -/
def IsBelow (x e : Expr) : Prop := ∃ child ∈ e.children, child.HasNode x

theorem IsBelow.hasNode {e x : Expr} (h : x.IsBelow e) : e.HasNode x := by
  obtain ⟨child, hchild, hnode⟩ := h
  exact .inside hchild hnode

theorem IsBelow.child {e x : Expr} (h : x ∈ e.children) : x.IsBelow e := ⟨x, h, .here x⟩

theorem hasNode_called (callee : Expr) : callee.HasNode callee.called := by
  cases callee with
  | «attribute» span target name => exact .inside (List.mem_singleton_self _) (.here _)
  | _ => exact .here _

theorem isBelow_first {limits : Limits} {e x : Expr} (h : e.first? limits = some x) : x.IsBelow e := by
  cases e with
  | literal _ _ | name _ _ | list _ _ | tuple _ _ | set _ _ | dict _ _ => cases h
  | call span callee args keywords =>
    rw [first?] at h
    split at h
    · cases h
    · cases h
      exact ⟨callee, List.mem_cons_self, hasNode_called callee⟩
  | _ =>
    cases h
    exact .child List.mem_cons_self

theorem isBelow_elements {e x : Expr} (h : x ∈ e.elements) : x.IsBelow e := by
  cases e with
  | list _ _ | tuple _ _ | set _ _ => exact .child h
  | dict span entries =>
    refine .child (List.mem_flatMap.mpr ?_)
    rcases List.mem_append.mp h with h | h
    · obtain ⟨entry, hentry, rfl⟩ := List.mem_map.mp h
      exact ⟨entry, hentry, List.mem_cons_self⟩
    · obtain ⟨entry, hentry, rfl⟩ := List.mem_map.mp h
      exact ⟨entry, hentry, List.mem_cons_of_mem _ List.mem_cons_self⟩
  | _ => cases h

/-- Whether the expression is a call. -/
def isCall : Expr → Bool
  | .call _ _ _ _ => true
  | _ => false

/-- The test holds of the expression and of all nodes below it, as far as so many levels down. -/
def allNodes (test : Expr → Bool) : Nat → Expr → Bool
  | 0, _ => false
  | depth + 1, e => test e && e.children.all (allNodes test depth)

theorem of_allNodes {test : Expr → Bool} {depth : Nat} {e m : Expr}
    (h : e.allNodes test depth = true) (hm : e.HasNode m) : test m = true := by
  induction hm generalizing depth with
  | here e =>
    cases depth with
    | zero => cases h
    | succ depth => exact (Bool.and_eq_true_iff.mp h).1
  | inside hchild _ ih =>
    cases depth with
    | zero => cases h
    | succ depth => exact ih (List.all_eq_true.mp (Bool.and_eq_true_iff.mp h).2 _ hchild)

end Expr

section

variable {limits : Limits} {text : Text} {p q x : Place} {s t : State} {fault : Fault}

theorem Operand.isBelow (h : Operand limits text p x) : x.expr.IsBelow p.expr := by
  cases h with
  | first h => exact Expr.isBelow_first h
  | element h _ => exact Expr.isBelow_elements (h ▸ List.mem_append_right _ List.mem_cons_self)
  | index _ | right _ | other _ _ => exact .child (List.mem_cons_of_mem _ List.mem_cons_self)
  | @bound _ _ _ _ x lower upper step _ _ _ _ _ _ _ _ _ hbounds _ =>
    have hx : x ∈ [lower, upper, step].reduceOption :=
      hbounds ▸ List.mem_append_right _ List.mem_cons_self
    refine .child (List.mem_cons_of_mem _ ?_)
    simpa [List.reduceOption_mem_iff, eq_comm] using hx
  | compared _ _ =>
    exact .child (List.mem_cons_of_mem _
      (List.mem_map_of_mem (List.mem_append_right _ List.mem_cons_self)))
  | argument _ _ _ =>
    exact .child (List.mem_cons_of_mem _
      (List.mem_append_left _ (List.mem_append_right _ List.mem_cons_self)))
  | keyword _ _ _ _ =>
    exact .child (List.mem_cons_of_mem _ (List.mem_append_right _
      (List.mem_map_of_mem (List.mem_append_right _ List.mem_cons_self))))

theorem Operand.levels_lt (h : Operand limits text p x) : x.levels < p.levels := by
  cases h <;> exact Nat.lt_succ_of_le (Nat.sub_le _ _)

theorem Comes.hasNode (h : Comes limits text p q) : p.expr.HasNode q.expr := by
  induction h with
  | refl => exact .here _
  | tail _ hstep ih => exact ih.trans hstep.isBelow.hasNode

/-- Whatever an evaluation comes to behind the place where it begins is below the expression there. -/
theorem Comes.eq_or_isBelow (h : Comes limits text p q) : q = p ∨ q.expr.IsBelow p.expr := by
  rcases Relation.ReflTransGen.cases_head h with rfl | ⟨x, hoperand, hcomes⟩
  · exact .inl rfl
  · obtain ⟨child, hchild, hx⟩ := hoperand.isBelow
    exact .inr ⟨child, hchild, hx.trans (Comes.hasNode hcomes)⟩

end

/-! ## The innermost place that fails -/

section

variable (limits : Limits) (text : Text)

/-- The evaluation fails at the place, and every operand that it comes to there has a value. -/
structure Place.IsInnermost (p : Place) (fault : Fault) (t : State) : Prop where
  fails : p.outcome limits text = .error fault t
  operands : ∀ x, Operand limits text p x → ∃ v u, x.outcome limits text = .ok v u

/-- The call at the place evaluates and executes no text, if it comes to a function. -/
def Place.IsClosed (p : Place) : Prop :=
  ∀ f given u, p.Calls limits text f given u → Call.IsClosed limits (p.levels - 1) f given u

/-- What the error that the evaluation at the place stops with is attached to. -/
inductive Place.Attaches (p : Place) (t : State) : ScriptError → Prop
  | innermost {q : Place} {e : ScriptError} :
    Comes limits text p q → q.IsInnermost limits text (.error e) t →
    e.source = some (q.expr.source text) → p.Attaches t e
  /-- A failure to report a missing key leaves the innermost place that fails. -/
  | around {r q : Place} {f : Failure} :
    Comes limits text p r → Operand limits text r q → q.IsInnermost limits text (.unreported f) t →
    NodeEscapes limits q.levels text q.expr q.state f → p.Attaches t (f.toError (r.expr.source text))

end

section

variable {limits : Limits} {text : Text} {n : Nat} {e : Expr} {p x : Place} {s t : State}
  {fault : Fault}

theorem ScriptError.attach_of_some {e : ScriptError} {inner source : Text} (h : e.source = some inner) :
    e.attach source = e := by
  unfold ScriptError.attach
  rw [h]

theorem Failure.toError_source (f : Failure) (source : Text) : (f.toError source).source = some source := by
  unfold Failure.toError
  cases f.kind <;> rfl

theorem Place.Attaches.source {error : ScriptError} (h : p.Attaches limits text t error) :
    ∃ source, error.source = some source := by
  cases h with
  | innermost _ _ hsource => exact ⟨_, hsource⟩
  | around _ _ _ _ => exact ⟨_, Failure.toError_source _ _⟩

/-- An error that goes up through an expression is attached to what it was attached to before. -/
theorem Place.Attaches.up {error : ScriptError} (hoperand : Operand limits text p x)
    (h : x.Attaches limits text t error) : p.Attaches limits text t error := by
  cases h with
  | innermost hcomes hinnermost hsource =>
    exact .innermost (.head hoperand hcomes) hinnermost hsource
  | around hcomes hinner hinnermost hescapes =>
    exact .around (.head hoperand hcomes) hinner hinnermost hescapes

/-- The fault of an expression is the one of its value, as it leaves the expression, or it is the failure
to report another one. -/
theorem Place.outcome_error (h : Place.outcome limits text ⟨n + 1, e, s⟩ = .error fault t) :
    (∃ inner, Evaluation.nodeValue limits (room limits n) text e s = .error inner t ∧
        fault = inner.within (e.source text)) ∨
      ∃ f, Evaluation.nodeValue limits (room limits n) text e s = .ok (.error f) t ∧
        fault = .unreported f := by
  have hnode : Evaluation.node limits (room limits n) text e s = .error fault t := h
  unfold Evaluation.node at hnode
  rcases Run.bind_error hnode with hvalue | ⟨found, u, hfound, hvalue⟩
  · rw [Run.mapFault_apply] at hvalue
    split at hvalue
    · cases hvalue
    · cases hvalue
      exact .inl ⟨_, ‹_›, rfl⟩
  · rw [Run.mapFault_apply] at hfound
    split at hfound
    · cases hfound
      cases found with
      | ok v => cases hvalue
      | error f =>
        cases hvalue
        exact .inr ⟨f, ‹_›, rfl⟩
    · cases hfound

/-- Where an operand fails, the expression fails with what leaves it of that. -/
theorem Operand.outcome_error {u : State} {inner : Fault} (h : Operand limits text p x)
    (hx : x.outcome limits text = .error inner u) (hp : p.outcome limits text = .error fault t) :
    fault = inner.within (p.expr.source text) ∧ t = u := by
  obtain ⟨levels, e, s⟩ := p
  obtain ⟨n, rfl⟩ := Nat.exists_eq_succ_of_ne_zero (Nat.ne_zero_of_lt h.levels_lt)
  have hvalue := h.propagates hx
  rcases Place.outcome_error hp with ⟨other, hother, rfl⟩ | ⟨f, hfound, -⟩
  · rw [hvalue] at hother
    cases hother
    exact ⟨rfl, rfl⟩
  · rw [hvalue] at hfound
    cases hfound

/-- Where all operands have values, what fails is attached to the expression, or it is a failure to
report a missing key. -/
theorem Place.IsInnermost.fault_cases (h : p.IsInnermost limits text fault t)
    (hclosed : p.IsClosed limits text) :
    fault = .tooDeep ∨ (∃ error, fault = .error error ∧ error.source = some (p.expr.source text)) ∨
      ∃ f, fault = .unreported f ∧ NodeEscapes limits p.levels text p.expr p.state f := by
  obtain ⟨hfails, hoperands⟩ := h
  obtain ⟨levels, e, s⟩ := p
  cases levels with
  | zero =>
    cases hfails
    exact .inl rfl
  | succ n =>
    rcases Place.outcome_error hfails with ⟨inner, hvalue, rfl⟩ | ⟨f, hfound, rfl⟩
    · -- No operand fails, so it is the expression itself or the function that it calls.
      have hdetached : inner.isDetached = true := by
        cases Evaluation.blame_of_nodeValue hvalue with
        | operand hoperand hx =>
          obtain ⟨v, u, hok⟩ := hoperands _ hoperand
          rw [hx] at hok
          cases hok
        | own hdetached => exact hdetached
        | call hcalls hcall => exact (hclosed _ _ _ hcalls).isDetached hcall
      cases hfault : inner.within (e.source text) with
      | error error => exact .inr (.inl ⟨error, rfl, Fault.within_detached hdetached hfault⟩)
      | tooDeep => exact .inl rfl
      | failure f => cases inner <;> cases hfault
      | unreported f => cases inner <;> cases hfault
    · exact .inr (.inr ⟨f, rfl, Evaluation.evaluateNode_fails_iff.mp ⟨_, _, hfails, rfl⟩⟩)

/-- What the evaluation at a place fails with is attached to the innermost expression that fails, or to the
expression around it. Only the failure to report a missing key may be attached to nothing yet. -/
theorem Place.attaches (hclosed : ∀ q, Comes limits text p q → q.IsClosed limits text)
    (hfails : p.outcome limits text = .error fault t) :
    fault = .tooDeep ∨ (∃ error, fault = .error error ∧ p.Attaches limits text t error) ∨
      ∃ f, fault = .unreported f ∧ p.IsInnermost limits text (.unreported f) t ∧
        NodeEscapes limits p.levels text p.expr p.state f := by
  -- An operand has less room than the expression.
  induction hlevels : p.levels using Nat.strongRecOn generalizing p fault with
  | ind levels ih =>
    subst hlevels
    by_cases hall : ∀ x, Operand limits text p x → ∃ v u, x.outcome limits text = .ok v u
    · have hinnermost : p.IsInnermost limits text fault t := ⟨hfails, hall⟩
      rcases hinnermost.fault_cases (hclosed p .refl) with hdeep | ⟨error, rfl, hsource⟩ | ⟨f, rfl, hf⟩
      · exact .inl hdeep
      · exact .inr (.inl ⟨error, rfl, .innermost .refl hinnermost hsource⟩)
      · exact .inr (.inr ⟨f, rfl, hinnermost, hf⟩)
    · obtain ⟨x, hx⟩ := not_forall.mp hall
      obtain ⟨hoperand, hnone⟩ := Classical.not_imp.mp hx
      -- There is no choice of the operand that fails: nothing behind it is come to.
      cases houtcome : x.outcome limits text with
      | ok v u => exact absurd ⟨v, u, houtcome⟩ hnone
      | error inner u =>
        obtain ⟨rfl, rfl⟩ := hoperand.outcome_error houtcome hfails
        rcases ih x.levels hoperand.levels_lt (fun q hq => hclosed q (.head hoperand hq)) houtcome rfl
          with rfl | ⟨error, rfl, hattaches⟩ | ⟨f, rfl, hinnermost, hf⟩
        · exact .inl rfl
        · obtain ⟨source, hsource⟩ := hattaches.source
          exact .inr (.inl ⟨error, congrArg Fault.error (ScriptError.attach_of_some hsource),
            hattaches.up hoperand⟩)
        · exact .inr (.inl ⟨_, rfl, .around .refl hoperand hinnermost hf⟩)

end

/-! ## Whole texts -/

/-- The fault is an error that the test holds of. -/
def Fault.isError (test : ScriptError → Bool) : Fault → Bool
  | .error e => test e
  | _ => false

namespace Evaluation

section

variable (limits : Limits) (n : Nat) (text : Text) (s : State)

/-- No call that the evaluation of the text comes to evaluates or executes another text. -/
def IsClosed : Prop :=
  ∀ e p, read n text.trim = .ok e → Comes limits text.trim ⟨n, e, s⟩ p → p.IsClosed limits text.trim

end

variable {limits : Limits} {n : Nat} {text : Text} {s t : State} {error : ScriptError}

/-- The evaluation of a text without calls is closed. -/
theorem isClosed_of_no_call {e : Expr} {depth : Nat} (hread : read n text.trim = .ok e)
    (hnodes : e.allNodes (fun m => !m.isCall) depth = true) : IsClosed limits n text s := by
  intro e' p hread' hcomes f given u hcalls
  obtain rfl : e = e' := Except.ok.inj (hread.symm.trans hread')
  have hnode := Expr.of_allNodes hnodes hcomes.hasNode
  cases hcalls with
  | call _ _ _ _ => cases hnode

/-- The error of what is nested too deep. -/
def tooDeep (text : Text) : ScriptError := ⟨.limit, "expression is nested too deeply", some text⟩

/-- A text fails as it is read or as its expression does. -/
theorem evaluate_error (herror : evaluate (room limits n) text s = .error (.error error) t) :
    ∃ fault, fault.leaving text.trim = .error error ∧
      (read n text.trim = .error fault ∨ ∃ e, read n text.trim = .ok e ∧
        Place.outcome limits text.trim ⟨n, e, s⟩ = .error fault t) := by
  have hleaving : Run.mapFault (Fault.leaving text.trim) (do
      let e ← read n text.trim
      (Engine.tower limits n 0).evaluateNode text.trim e) s = .error (.error error) t := herror
  rw [Run.mapFault_apply] at hleaving
  split at hleaving
  · cases hleaving
  rename_i fault u hfault
  injection hleaving with hleaves hstates
  subst hstates
  refine ⟨fault, hleaves, ?_⟩
  rcases Run.bind_error hfault with hread | ⟨e, s', hread, hnode⟩
  · rw [Run.liftM_apply] at hread
    split at hread
    · cases hread
    · cases hread
      exact .inl ‹_›
  · obtain ⟨hok, rfl⟩ := Run.liftM_ok_iff.mp hread
    exact .inr ⟨e, hok, hnode⟩

/-- An error is attached to the whole text, which is not read or nested too deep, or to the innermost
expression that fails. Only a failure to report a missing key is attached to the expression around that
one. -/
theorem evaluate_attached (hclosed : IsClosed limits n text s)
    (herror : evaluate (room limits n) text s = .error (.error error) t) :
    (error.source = some text.trim ∧
        (read n text.trim = .error (.error error) ∨ error = tooDeep text.trim)) ∨
      ∃ e, read n text.trim = .ok e ∧
        Place.Attaches limits text.trim ⟨n, e, s⟩ t error := by
  obtain ⟨fault, hleaves, hread | ⟨e, hread, hnode⟩⟩ := evaluate_error herror
  · -- The text is not read, or it is nested too deep.
    cases fault with
    | tooDeep =>
      cases hleaves
      exact .inl ⟨rfl, .inr rfl⟩
    | failure f => cases hleaves
    | unreported f => cases hleaves
    | error inner =>
      obtain ⟨message, rfl⟩ := read_error hread
      cases hleaves
      rw [Text.trim_trim] at hread ⊢
      exact .inl ⟨rfl, .inl hread⟩
  · rcases Place.attaches (fun q hq => hclosed e q hread hq) hnode with
      rfl | ⟨inner, rfl, hattaches⟩ | ⟨f, rfl, -, -⟩
    · cases hleaves
      exact .inl ⟨rfl, .inr rfl⟩
    · obtain ⟨source, hsource⟩ := hattaches.source
      have hsame : inner.attach text.trim = error := Fault.error.inj hleaves
      rw [ScriptError.attach_of_some hsource] at hsame
      exact .inr ⟨e, hread, hsame ▸ hattaches⟩
    · cases hleaves

/-- What is said of the name in the sum `1 + x`. -/
def undefinedName : ScriptError := ⟨.badName, "name 'x' is not defined", some "x"⟩

/-- The error of a name that is not defined is attached to the name. -/
theorem evaluate_attached_name :
    IsClosed .standard 60 "1 + x" (.initial ⟨0⟩ 0) ∧
      ∃ t, evaluate (room .standard 60) "1 + x" (.initial ⟨0⟩ 0) = .error (.error undefinedName) t ∧
        ((undefinedName.source = some (Text.ofString "1 + x").trim ∧
            (read 60 (Text.ofString "1 + x").trim = .error (.error undefinedName) ∨
              undefinedName = tooDeep (Text.ofString "1 + x").trim)) ∨
          ∃ e, read 60 (Text.ofString "1 + x").trim = .ok e ∧
            Place.Attaches .standard (Text.ofString "1 + x").trim ⟨60, e, .initial ⟨0⟩ 0⟩ t
              undefinedName) := by
  have htests : (read 60 (Text.ofString "1 + x").trim).toOption.any
      (Expr.allNodes (fun m => !m.isCall) 5) = true := by
    decide +kernel
  obtain ⟨e, hread, hnodes⟩ := exists_read htests
  have hclosed : IsClosed .standard 60 "1 + x" (.initial ⟨0⟩ 0) := isClosed_of_no_call hread hnodes
  have hfault : Run.fault? (evaluate (room .standard 60) "1 + x" (.initial ⟨0⟩ 0)) =
      some (.error undefinedName) := by
    decide +kernel
  obtain ⟨t, herror⟩ := Run.fault?_eq_some_iff.mp hfault
  exact ⟨hclosed, t, herror, evaluate_attached hclosed herror⟩

/-! ## A key whose text cannot be made -/

/-- A sum with the look-up of a key that has too many digits. -/
def longKeyText : Text := "\x7b\x7d[10 ** 5000] + 1"

/-- The computations with the sum, in one evaluation: its text as it is trimmed, what it is read as and
how its first operand ends, and the failure it ends with. -/
theorem longKey_computed :
    longKeyText.trim = longKeyText ∧
      (read 60 longKeyText).toOption.any (fun e =>
        e.allNodes (fun m => !m.isCall) 5 &&
          (e.first? .standard).any (fun x =>
            (Run.fault? (Place.outcome .standard longKeyText ⟨58, x, .initial ⟨0⟩ 0⟩)).isSome) &&
          e.children.all (Expr.allNodes (fun m => m.source longKeyText != longKeyText) 5)) = true ∧
      (Run.fault? (evaluate (room .standard 60) longKeyText (.initial ⟨0⟩ 0))).any
        (Fault.isError fun e => e.kind == .badValue && e.source == some longKeyText) = true := by
  decide +kernel

/-- The whole sum is read, without calls; its first operand fails, and no node below it is the whole
text. -/
theorem exists_read_longKey : ∃ e x, read 60 longKeyText = .ok e ∧
    e.allNodes (fun m => !m.isCall) 5 = true ∧ e.first? .standard = some x ∧
      (Run.fault? (Place.outcome .standard longKeyText ⟨58, x, .initial ⟨0⟩ 0⟩)).isSome = true ∧
        ∀ m : Expr, m.IsBelow e → m.source longKeyText ≠ longKeyText := by
  obtain ⟨e, hread, htests⟩ := exists_read longKey_computed.2.1
  simp only [Bool.and_eq_true, Option.any_eq_true, List.all_eq_true] at htests
  obtain ⟨⟨hcalls, x, hfirst, hfails⟩, hbelow⟩ := htests
  refine ⟨e, x, hread, hcalls, hfirst, hfails, ?_⟩
  rintro m ⟨child, hchild, hm⟩
  exact bne_iff_ne.mp (Expr.of_allNodes (hbelow child hchild) hm)

/-- The sum stops with the failure to make the text of the key, attached to the whole sum. -/
theorem exists_error_longKey : ∃ error t,
    evaluate (room .standard 60) longKeyText (.initial ⟨0⟩ 0) = .error (.error error) t ∧
      error.kind = .badValue ∧ error.source = some longKeyText := by
  obtain ⟨fault, hfault, htest⟩ := (Option.any_eq_true _ _).mp longKey_computed.2.2
  obtain ⟨t, herror⟩ := Run.fault?_eq_some_iff.mp hfault
  cases fault with
  | error error =>
    obtain ⟨hkind, hsource⟩ := Bool.and_eq_true_iff.mp htest
    exact ⟨error, t, herror, beq_iff_eq.mp hkind, beq_iff_eq.mp hsource⟩
  | _ => cases htest

/-- The error of a text is not always attached to the innermost expression that fails, nor to a text that
is no expression or nested too deep. -/
theorem not_attached_innermost :
    ¬ ∀ (limits : Limits) (n : Nat) (text : Text) (s t : State) (error : ScriptError),
      IsClosed limits n text s → evaluate (room limits n) text s = .error (.error error) t →
      (error.source = some text.trim ∧
          (read n text.trim = .error (.error error) ∨ error = tooDeep text.trim)) ∨
        ∃ e q fault u, read n text.trim = .ok e ∧ Comes limits text.trim ⟨n, e, s⟩ q ∧
          q.IsInnermost limits text.trim fault u ∧ error.source = some (q.expr.source text.trim) := by
  intro hclaim
  obtain ⟨e, x, hread, hcalls, hfirst, hfails, hbelow⟩ := exists_read_longKey
  have hclosed : IsClosed .standard 60 longKeyText (.initial ⟨0⟩ 0) :=
    isClosed_of_no_call (by rw [longKey_computed.1]; exact hread) hcalls
  obtain ⟨error, t, herror, hkind, hwhole⟩ := exists_error_longKey
  have hattached := hclaim _ _ _ _ _ _ hclosed herror
  rw [longKey_computed.1] at hattached
  rcases hattached with ⟨-, hunread | hdeep⟩ | ⟨e', q, fault, u, hread', hcomes, hinnermost, hsource⟩
  · rw [hread] at hunread
    cases hunread
  · rw [hdeep] at hkind
    cases hkind
  · obtain rfl : e = e' := Except.ok.inj (hread.symm.trans hread')
    rcases Comes.eq_or_isBelow hcomes with rfl | hq
    · -- The whole text fails as its first operand does.
      obtain ⟨v, r, hok⟩ := hinnermost.operands ⟨58, x, .initial ⟨0⟩ 0⟩ (.first hfirst)
      rw [hok] at hfails
      cases hfails
    · exact hbelow _ hq (Option.some.inj (hwhole.symm.trans hsource)).symm

end Evaluation

end Scriptlet
