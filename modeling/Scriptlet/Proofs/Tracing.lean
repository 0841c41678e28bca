import Mathlib.Data.List.Forall2
import Scriptlet.Telemetry.Span

/-
  Spans are brackets.

  A recording is told when a span begins and when one ends. Which begin an end belongs to, it is not
  told: it keeps the open spans in a stack, what the spans are started with keeps the current span by
  itself, and the calls of tools are counted in a third place. What a recording comes to is read off the
  sequence of begins and ends alone, whatever the spans are started with.

  An end belongs to the latest begin before it to which no end before it belongs; there may be none.

  The failure that a span ends with has a text. An end with a failure whose text cannot be made is no
  step of such a sequence: it leaves its span on the stack, and every end behind it does nothing.

  What is proved:
    1. `Stacked.begin`, `Stacked.finish` — how one more begin or end changes which begins are open.
    2. `Records.step` — one step of a recording keeps its stack, the current span, the ended spans and
       the counts in line with the sequence.
    3. `run_brackets` — so they are in line after every sequence.
    4. `finishUntold_stays` — what an end with a failure without a text leaves behind.
-/

namespace Scriptlet

namespace Telemetry

/-- What a recording is told: that a span begins, or that one ends, perhaps with a failure. -/
inductive Step where
  | begin (name : Text) (tool : Option Text) (further : Attributes)
  | finish (failure : Option Exception)

namespace Step

def isBegin : Step → Bool
  | .begin _ _ _ => true
  | .finish _ => false

/-- The tool that a span begins for. -/
def tool? : Step → Option Text
  | .begin _ tool _ => tool
  | .finish _ => none

/-- Whether an end is one without a failure. -/
def isSuccess? : Step → Option Bool
  | .begin _ _ _ => none
  | .finish failure => some failure.isNone

end Step

variable {sdk : Sdk}

namespace Recording

/-- The recording after a step. -/
def step (r : Recording sdk) : Step → Recording sdk
  | .begin name tool further => r.begin name tool further
  | .finish failure => r.finish failure

/-- The recording after some steps. -/
def run (r : Recording sdk) (steps : List Step) : Recording sdk := steps.foldl step r

/-- The open spans have been made current one inside the other, and none of them has ended. -/
def Holds (r : Recording sdk) : Prop :=
  sdk.Holds r.state (r.spans.map fun s => (s.handle, s.token))

end Recording

variable {steps : List Step} {n i j k : Nat}

/-! ## Which begin an end belongs to -/

/-- A span begins at place `i`. -/
def Begins (steps : List Step) (i : Nat) : Prop :=
  ∃ name tool further, steps[i]? = some (.begin name tool further)

/-- A span ends at place `j`, if one is open. -/
def Ends (steps : List Step) (j : Nat) : Prop := ∃ failure, steps[j]? = some (.finish failure)

/-- The end at place `j` belongs to the begin at place `i`: no end before it does, and to each begin in
between an end before it belongs. -/
def Matches (steps : List Step) (j i : Nat) : Prop :=
  Ends steps j ∧ (i < j ∧ Begins steps i ∧ ∀ k, k < j → ¬ Matches steps k i) ∧
    ∀ later, i < later → later < j → Begins steps later → ∃ k, ∃ _ : k < j, Matches steps k later
  termination_by j

/-- The span that begins at place `i` has not ended before place `n`. -/
def IsOpen (steps : List Step) (n i : Nat) : Prop :=
  i < n ∧ Begins steps i ∧ ∀ k < n, ¬ Matches steps k i

/-- Of the spans that are open at place `n` that at place `i` has begun last. -/
def IsInnermost (steps : List Step) (n i : Nat) : Prop :=
  IsOpen steps n i ∧ ∀ other, IsOpen steps n other → other ≤ i

/-- The number of spans that have begun before place `i`. -/
def begun (steps : List Step) (i : Nat) : Nat := (steps.take i).countP Step.isBegin

theorem matches_iff : Matches steps j i ↔ Ends steps j ∧ IsInnermost steps j i := by
  rw [Matches]
  refine and_congr_right fun _ => and_congr_right fun hopen => ?_
  constructor
  · intro hbetween later hlater
    refine Nat.le_of_not_lt fun hlt => ?_
    obtain ⟨k, hk, hmatch⟩ := hbetween later hlt hlater.1 hlater.2.1
    exact hlater.2.2 k hk hmatch
  · intro hlast later hlt hlater hbegins
    refine Classical.byContradiction fun hnone => Nat.not_le_of_lt hlt ?_
    exact hlast later ⟨hlater, hbegins, fun k hk hmatch => hnone ⟨k, hk, hmatch⟩⟩

theorem Begins.not_ends (hbegins : Begins steps n) : ¬ Ends steps n := by
  rintro ⟨failure, hfinish⟩
  obtain ⟨name, tool, further, hbegin⟩ := hbegins
  rw [hbegin] at hfinish
  cases hfinish

theorem Begins.not_matches (hbegins : Begins steps n) : ¬ Matches steps n i :=
  fun hmatch => hbegins.not_ends (matches_iff.mp hmatch).1

/-- What is open one step later: what that step begins, and what was open and does not end with it. -/
theorem isOpen_succ_iff :
    IsOpen steps (n + 1) k ↔ (k = n ∧ Begins steps n) ∨ (IsOpen steps n k ∧ ¬ Matches steps n k) := by
  constructor
  · rintro ⟨hk, hbegins, hunmatched⟩
    rcases Nat.lt_succ_iff_lt_or_eq.mp hk with hlt | rfl
    · refine .inr ⟨⟨hlt, hbegins, fun j hj => hunmatched j (Nat.lt_succ_of_lt hj)⟩, ?_⟩
      exact hunmatched n (Nat.lt_succ_self n)
    · exact .inl ⟨rfl, hbegins⟩
  · rintro (⟨rfl, hbegins⟩ | ⟨⟨hk, hbegins, hunmatched⟩, hnot⟩)
    · refine ⟨Nat.lt_succ_self k, hbegins, fun j hj hmatch => ?_⟩
      have hlater : k < j := (matches_iff.mp hmatch).2.1.1
      exact absurd hj (Nat.not_lt_of_le hlater)
    · refine ⟨Nat.lt_succ_of_lt hk, hbegins, fun j hj => ?_⟩
      rcases Nat.lt_succ_iff_lt_or_eq.mp hj with hlt | rfl
      · exact hunmatched j hlt
      · exact hnot

/-- What ends one step later has ended before, if it does not end with that step. -/
theorem lt_succ_and_matches_iff (hnot : ¬ Matches steps n i) :
    j < n + 1 ∧ Matches steps j i ↔ j < n ∧ Matches steps j i := by
  refine and_congr_left fun hmatch => ⟨fun hj => ?_, Nat.lt_succ_of_lt⟩
  refine Nat.lt_of_le_of_ne (Nat.le_of_lt_succ hj) fun hn => ?_
  exact hnot (hn ▸ hmatch)

/-! ## The places of the open spans -/

/-- The places of the spans that are open at place `n`, the last one first: below each of them are the
places of the spans that were open when it began. -/
def Stacked (steps : List Step) : List Nat → Nat → Prop
  | [], n => ∀ k, ¬ IsOpen steps n k
  | i :: outer, n => (∀ k, IsOpen steps n k ↔ k ∈ i :: outer) ∧ Stacked steps outer i

namespace Stacked

variable {places outer : List Nat}

theorem isOpen_iff (h : Stacked steps places n) : IsOpen steps n k ↔ k ∈ places := by
  cases places with
  | nil => exact ⟨fun hopen => absurd hopen (h k), fun hmem => by cases hmem⟩
  | cons i outer => exact h.1 k

theorem of_isOpen_iff {m : Nat} (h : Stacked steps places m)
    (hopen : ∀ k, IsOpen steps n k ↔ IsOpen steps m k) : Stacked steps places n := by
  cases places with
  | nil => exact fun k hk => h k ((hopen k).mp hk)
  | cons i outer => exact ⟨fun k => (hopen k).trans (h.1 k), h.2⟩

theorem lt_of_mem (h : Stacked steps (i :: outer) n) (hk : k ∈ outer) : k < i :=
  (h.2.isOpen_iff.mpr hk).1

/-- The first place is that of the innermost span. -/
theorem isInnermost_iff (h : Stacked steps places n) :
    IsInnermost steps n k ↔ places.head? = some k := by
  cases places with
  | nil => exact ⟨fun hin => absurd hin.1 (h k), fun hnone => by cases hnone⟩
  | cons i outer =>
    have hfirst : IsInnermost steps n i := by
      refine ⟨(h.1 i).mpr List.mem_cons_self, fun other hopen => ?_⟩
      rcases List.mem_cons.mp ((h.1 other).mp hopen) with rfl | hother
      · exact Nat.le_refl other
      · exact Nat.le_of_lt (h.lt_of_mem hother)
    constructor
    · intro hin
      exact congrArg some (Nat.le_antisymm (hin.2 i hfirst.1) (hfirst.2 k hin.1))
    · intro hk
      cases hk
      exact hfirst

/-- A span that begins is open on top of those that are open. -/
theorem begin (h : Stacked steps places n) (hbegins : Begins steps n) :
    Stacked steps (n :: places) (n + 1) := by
  refine ⟨fun k => ?_, h⟩
  rw [isOpen_succ_iff, h.isOpen_iff, List.mem_cons]
  exact or_congr (and_iff_left hbegins) (and_iff_left hbegins.not_matches)

theorem matches_finish (h : Stacked steps (i :: outer) n) (hends : Ends steps n) :
    Matches steps n k ↔ k = i := by
  rw [matches_iff, and_iff_right hends, h.isInnermost_iff]
  exact ⟨fun hk => (Option.some.inj hk).symm, fun hk => congrArg some hk.symm⟩

/-- The end of a span leaves those open that were open when it began. -/
theorem finish (h : Stacked steps (i :: outer) n) (hends : Ends steps n) :
    Stacked steps outer (n + 1) := by
  refine h.2.of_isOpen_iff fun k => ?_
  have hbegins : ¬ Begins steps n := fun hbegins => hbegins.not_ends hends
  rw [isOpen_succ_iff, h.matches_finish hends, h.isOpen_iff, h.2.isOpen_iff, List.mem_cons]
  constructor
  · rintro (⟨-, hbegin⟩ | ⟨rfl | hk, hne⟩)
    · exact absurd hbegin hbegins
    · exact absurd rfl hne
    · exact hk
  · intro hk
    exact .inr ⟨.inr hk, Nat.ne_of_lt (h.lt_of_mem hk)⟩

/-- An end without an open span leaves none open. -/
theorem surplus (h : Stacked steps [] n) (hends : Ends steps n) : Stacked steps [] (n + 1) := by
  intro k hopen
  rcases isOpen_succ_iff.mp hopen with ⟨-, hbegins⟩ | ⟨hopen, -⟩
  · exact hbegins.not_ends hends
  · exact h k hopen

theorem not_matches_surplus (h : Stacked steps [] n) : ¬ Matches steps n k :=
  fun hmatch => h k (matches_iff.mp hmatch).2.1

end Stacked

/-! ## What is recorded -/

/-- The number of the span that is current at place `n`: of the one that is innermost there, if one is
open. -/
def IsCurrent (steps : List Step) (n : Nat) (current : Option Nat) : Prop :=
  ∀ number, current = some number ↔ ∃ k, IsInnermost steps n k ∧ begun steps k = number

/-- The span that begins at place `i` for a server. -/
structure Starts (sdk : Sdk) (server : Text) (steps : List Step) (i : Nat) (span : Span)
    (tool : Option Text) : Prop where
  number : span.number = begun steps i
  parent : IsCurrent steps i span.parent
  begins : ∃ further, steps[i]? = some (.begin span.name tool further) ∧
    span.attributes = sdk.kept (attributesOf server tool further)

/-- The span that begins at place `i` and ends at place `j`. -/
structure Exports (sdk : Sdk) (server : Text) (steps : List Step) (i j : Nat) (ended : EndedSpan) :
    Prop where
  starts : ∃ tool, Starts sdk server steps i ended.toSpan tool
  ends : steps[j]? = some (.finish ended.failure)

/-- Whether the span between two places is a call of a tool that ends so. -/
def IsCall (steps : List Step) (tool : Text) (isSuccess : Bool) (places : Nat × Nat) : Bool :=
  steps[places.1]?.bind Step.tool? == some tool &&
    steps[places.2]?.bind Step.isSuccess? == some isSuccess

/-- The open span that begins at place `i` is kept with what was current before it. -/
structure Keeps (server : Text) (steps : List Step) (i : Nat) (kept : OpenSpan sdk) : Prop where
  starts : Starts sdk server steps i (sdk.span kept.handle) kept.tool
  before : IsCurrent steps i (sdk.before kept.token)
  isOpen : kept.hasEnded = false

/-- What has been recorded before place `n`, with the places of the open spans and the places where spans
that have ended begin and end. -/
structure Records (server : Text) (steps : List Step) (n : Nat) (places : List Nat)
    (pairs : List (Nat × Nat)) (r : Recording sdk) : Prop where
  isStarted : r.isStarted = true
  serves : r.server = server
  holds : r.Holds
  started : r.seen.started = begun steps n
  stacked : Stacked steps places n
  kept : List.Forall₂ (Keeps server steps) places r.spans
  current : IsCurrent steps n r.seen.current
  matched : ∀ i j, (i, j) ∈ pairs ↔ j < n ∧ Matches steps j i
  ordered : pairs.Pairwise fun p q => p.2 < q.2
  ended : List.Forall₂ (fun p => Exports sdk server steps p.1 p.2) pairs r.ended
  counted : ∀ tool isSuccess, tool ≠ [] →
    r.calls.count ⟨server, tool, isSuccess⟩ = pairs.countP (IsCall steps tool isSuccess)
  labelled : ∀ c ∈ r.calls, c.server = server ∧ c.tool ≠ []

/-! ## One step of a recording -/

namespace Recording

variable {r : Recording sdk} {name : Text} {tool : Option Text} {further : Attributes}
  {top : OpenSpan sdk} {outer : List (OpenSpan sdk)} {failure : Option Exception}

/-- Whom a call is counted for does not depend on the spans. -/
theorem countCall_eq (state : sdk.State) (spans : List (OpenSpan sdk)) (isGood : Bool) :
    ({ r with state := state, spans := spans }).countCall tool isGood = { r with
      state := state
      spans := spans
      calls := (r.countCall tool isGood).calls } := by
  unfold countCall
  cases tool with
  | none => rfl
  | some name => by_cases hname : name.isEmpty = true <;> simp only [hname] <;> rfl

/-- A span that begins is started inside the current one and is current itself. -/
theorem exists_begin_eq (name : Text) (tool : Option Text) (further : Attributes)
    (hstarted : r.isStarted = true) (hholds : r.Holds) : ∃ handle token state,
      r.begin name tool further =
        { r with state := state, spans := ⟨handle, token, tool, false⟩ :: r.spans } ∧
      sdk.span handle = ⟨r.seen.started, r.seen.current, name,
        sdk.kept (attributesOf r.server tool further)⟩ ∧
      sdk.before token = r.seen.current ∧
      sdk.view state = { r.seen with
        started := r.seen.started + 1
        current := some r.seen.started } ∧
      (r.begin name tool further).Holds := by
  have hspan := sdk.start_eq r.state name (attributesOf r.server tool further)
  have hheld := sdk.holds_attach name (attributesOf r.server tool further) hholds
  cases hstart : sdk.start r.state name (attributesOf r.server tool further) with
  | mk handle inner =>
  rw [hstart] at hspan hheld
  obtain ⟨hspan, hinner⟩ := Prod.mk.inj hspan
  have hbefore := sdk.attach_eq inner handle
  cases hattach : sdk.attach inner handle with
  | mk token state =>
  rw [hattach, hinner, hspan] at hbefore
  obtain ⟨hbefore, hview⟩ := Prod.mk.inj hbefore
  have hbegin : r.begin name tool further =
      { r with state := state, spans := ⟨handle, token, tool, false⟩ :: r.spans } := by
    rw [begin, if_pos hstarted]
    simp only [hstart, hattach]
  refine ⟨handle, token, state, hbegin, hspan, hbefore, hview, ?_⟩
  rw [hbegin]
  simp only [hattach] at hheld
  exact hheld

/-- The end of the span on top takes it off and makes current what was current before it. -/
theorem exists_finish_eq (failure : Option Exception) (hstarted : r.isStarted = true)
    (hholds : r.Holds) (hspans : r.spans = top :: outer) (hopen : top.hasEnded = false) :
    ∃ state, r.finish failure = { r with
        state := state
        spans := outer
        calls := (r.countCall top.tool failure.isNone).calls } ∧
      sdk.view state = { r.seen with
        ended := r.ended ++ [{ sdk.span top.handle with failure := failure }]
        current := sdk.before top.token } ∧
      (r.finish failure).Holds := by
  have hfinish : r.finish failure = { r with
      state := sdk.detach (sdk.finish r.state top.handle failure) top.token
      spans := outer
      calls := (r.countCall top.tool failure.isNone).calls } := by
    rw [finish, if_pos hstarted]
    simp only [hspans, hopen, Bool.false_eq_true, if_false, countCall_eq, List.tail_cons]
  have htop : sdk.Holds r.state
      ((top.handle, top.token) :: outer.map fun s => (s.handle, s.token)) := by
    rw [Holds, hspans] at hholds
    exact hholds
  refine ⟨_, hfinish, ?_, ?_⟩
  · rw [sdk.detach_eq failure htop, sdk.finish_eq failure htop]
    rfl
  · rw [hfinish]
    exact sdk.holds_detach failure htop

/-- A span that ends as soon as it has begun leaves the others as they were. -/
theorem exists_finish_begin (name : Text) (tool : Option Text) (further : Attributes)
    (failure : Option Exception) (hstarted : r.isStarted = true) (hholds : r.Holds) :
    ∃ state, (r.begin name tool further).finish failure = { r with
        state := state
        calls := (r.countCall tool failure.isNone).calls } ∧
      sdk.view state = {
        started := r.seen.started + 1
        current := r.seen.current
        ended := r.ended ++ [⟨⟨r.seen.started, r.seen.current, name,
          sdk.kept (attributesOf r.server tool further)⟩, failure⟩] } ∧
      ((r.begin name tool further).finish failure).Holds := by
  obtain ⟨handle, token, inner, hbegin, hspan, hbefore, hinner, hheld⟩ :=
    exists_begin_eq name tool further hstarted hholds
  have hbegun : (r.begin name tool further).isStarted = true := by
    rw [hbegin]
    exact hstarted
  have hspans : (r.begin name tool further).spans = ⟨handle, token, tool, false⟩ :: r.spans := by
    rw [hbegin]
  obtain ⟨state, hfinish, hview, hleft⟩ := exists_finish_eq failure hbegun hheld hspans rfl
  refine ⟨state, ?_, ?_, hleft⟩
  · rw [hfinish, hbegin, countCall_eq]
  · rw [hview, hspan, hbefore, hbegin, ended, seen, hinner]
    rfl

theorem finish_surplus (hspans : r.spans = []) : r.finish failure = r := by
  unfold finish
  split
  · rw [hspans]
  · rfl

/-- A call adds to the count of its own labels and to no other. -/
theorem count_countCall {given : Text} {isSuccess isGood : Bool} (hgiven : given ≠ []) :
    (r.countCall tool isGood).calls.count ⟨r.server, given, isSuccess⟩ =
      r.calls.count ⟨r.server, given, isSuccess⟩ +
        if (tool == some given && some isGood == some isSuccess) = true then 1 else 0 := by
  unfold countCall
  cases tool with
  | none => rfl
  | some name =>
    cases name with
    | nil =>
      have hne : (some ([] : Text) == some given) = false :=
        beq_eq_false_iff_ne.mpr fun heq => hgiven (Option.some.inj heq).symm
      rw [hne]
      rfl
    | cons c rest =>
      show List.count _ (r.calls ++ [_]) = _
      rw [List.count_append, List.count_singleton]
      congr 1
      simp [Bool.beq_eq_decide_eq]

theorem mem_countCall {isGood : Bool} {c : CallLabels}
    (hc : c ∈ (r.countCall tool isGood).calls) : c ∈ r.calls ∨ (c.server = r.server ∧ c.tool ≠ []) := by
  unfold countCall at hc
  cases tool with
  | none => exact .inl hc
  | some name =>
    cases name with
    | nil => exact .inl hc
    | cons c' rest =>
      rcases List.mem_append.mp hc with hold | hnew
      · exact .inl hold
      · cases List.mem_singleton.mp hnew
        exact .inr ⟨rfl, List.cons_ne_nil c' rest⟩

end Recording

theorem begun_succ {step : Step} (hstep : steps[n]? = some step) :
    begun steps (n + 1) = begun steps n + if step.isBegin then 1 else 0 := by
  unfold begun
  rw [List.take_add_one, hstep, List.countP_append, Option.toList_some, List.countP_singleton]

namespace Records

variable {server : Text} {places : List Nat} {pairs : List (Nat × Nat)} {r : Recording sdk}

theorem begin {name : Text} {tool : Option Text} {further : Attributes}
    (h : Records server steps n places pairs r)
    (hstep : steps[n]? = some (.begin name tool further)) :
    Records server steps (n + 1) (n :: places) pairs (r.begin name tool further) := by
  have hbegins : Begins steps n := ⟨name, tool, further, hstep⟩
  have hstacked := h.stacked.begin hbegins
  obtain ⟨handle, token, state, hbegin, hspan, hbefore, hview, hholds⟩ :=
    Recording.exists_begin_eq name tool further h.isStarted h.holds
  have hstarts : Starts sdk server steps n (sdk.span handle) tool := by
    rw [hspan]
    exact ⟨h.started, h.current, further, hstep, by rw [h.serves]⟩
  rw [hbegin] at hholds ⊢
  exact { h with
    holds := hholds
    started := by
      rw [begun_succ hstep, ← h.started, Recording.seen, hview]
      rfl
    stacked := hstacked
    kept := .cons ⟨hstarts, hbefore ▸ h.current, rfl⟩ h.kept
    current := fun number => by
      rw [Recording.seen, hview]
      simp only [hstacked.isInnermost_iff, List.head?_cons, Option.some.injEq, exists_eq_left',
        h.started]
    ended := by
      rw [Recording.ended, Recording.seen, hview]
      exact h.ended
    matched := fun i j => (h.matched i j).trans (lt_succ_and_matches_iff hbegins.not_matches).symm }

theorem finish {failure : Option Exception} {i : Nat} {outer : List Nat}
    (h : Records server steps n (i :: outer) pairs r)
    (hstep : steps[n]? = some (.finish failure)) :
    Records server steps (n + 1) outer (pairs ++ [(i, n)]) (r.finish failure) := by
  have hends : Ends steps n := ⟨failure, hstep⟩
  have hstacked := h.stacked.finish hends
  cases hspans : r.spans with
  | nil =>
    have hkept := h.kept
    rw [hspans] at hkept
    cases hkept
  | cons top rest =>
    have hkept := h.kept
    rw [hspans] at hkept
    cases hkept with
    | cons htop hrest =>
    -- The span on top is the one that begins at the first place; its tool is what is counted.
    obtain ⟨name, further, hbegin⟩ : ∃ name further, steps[i]? = some (.begin name top.tool further) :=
      let ⟨further, hbegin, _⟩ := htop.starts.begins
      ⟨_, further, hbegin⟩
    obtain ⟨state, hfinish, hview, hholds⟩ :=
      Recording.exists_finish_eq failure h.isStarted h.holds hspans htop.isOpen
    rw [hfinish] at hholds ⊢
    exact { h with
      holds := hholds
      started := by
        rw [begun_succ hstep, ← h.started, Recording.seen, hview]
        rfl
      stacked := hstacked
      kept := hrest
      current := fun number => by
        rw [Recording.seen, hview, htop.before number]
        simp only [hstacked.isInnermost_iff, h.stacked.2.isInnermost_iff]
      matched := fun k j => by
        rw [List.mem_append, h.matched, List.mem_singleton, Prod.mk.injEq, Nat.lt_succ_iff_lt_or_eq]
        constructor
        · rintro (⟨hj, hmatch⟩ | ⟨rfl, rfl⟩)
          · exact ⟨.inl hj, hmatch⟩
          · exact ⟨.inr rfl, (h.stacked.matches_finish hends).mpr rfl⟩
        · rintro ⟨hj | rfl, hmatch⟩
          · exact .inl ⟨hj, hmatch⟩
          · exact .inr ⟨(h.stacked.matches_finish hends).mp hmatch, rfl⟩
      ordered := by
        refine List.pairwise_append.mpr ⟨h.ordered, List.pairwise_singleton _ _, fun p hp q hq => ?_⟩
        cases List.mem_singleton.mp hq
        exact ((h.matched p.1 p.2).mp hp).1
      ended := by
        rw [Recording.ended, Recording.seen, hview]
        exact List.rel_append h.ended (.cons ⟨⟨top.tool, htop.starts⟩, hstep⟩ .nil)
      counted := fun tool isSuccess htool => by
        have hcall : IsCall steps tool isSuccess (i, n) =
            (top.tool == some tool && some failure.isNone == some isSuccess) := by
          simp only [IsCall, hbegin, hstep, Option.bind_some, Step.tool?, Step.isSuccess?]
        rw [List.countP_append, List.countP_singleton, hcall, ← h.counted tool isSuccess htool,
          ← h.serves]
        exact Recording.count_countCall htool
      labelled := fun c hc => by
        rcases Recording.mem_countCall hc with hold | ⟨hserver, htool⟩
        · exact h.labelled c hold
        · exact ⟨hserver.trans h.serves, htool⟩ }

theorem spans_eq_nil (h : Records server steps n [] pairs r) : r.spans = [] := by
  have hkept := h.kept
  cases hspans : r.spans with
  | nil => rfl
  | cons top rest =>
    rw [hspans] at hkept
    cases hkept

theorem surplus {failure : Option Exception} (h : Records server steps n [] pairs r)
    (hstep : steps[n]? = some (.finish failure)) :
    Records server steps (n + 1) [] pairs (r.finish failure) := by
  have hstacked := h.stacked.surplus ⟨failure, hstep⟩
  rw [Recording.finish_surplus h.spans_eq_nil]
  exact { h with
    started := by
      rw [begun_succ hstep, ← h.started]
      rfl
    stacked := hstacked
    current := fun number => by
      rw [h.current number]
      simp only [hstacked.isInnermost_iff, h.stacked.isInnermost_iff]
    matched := fun i j =>
      (h.matched i j).trans (lt_succ_and_matches_iff h.stacked.not_matches_surplus).symm }

/-- A step keeps what is recorded in line with the sequence. -/
theorem step {step : Step} (h : Records server steps n places pairs r) (hstep : steps[n]? = some step) :
    ∃ places pairs, Records server steps (n + 1) places pairs (r.step step) := by
  cases step with
  | begin name tool further => exact ⟨_, _, h.begin hstep⟩
  | finish failure =>
    cases places with
    | nil => exact ⟨_, _, h.surplus hstep⟩
    | cons i outer => exact ⟨_, _, h.finish hstep⟩

end Records

/-! ## Runs of a recording -/

section

variable {server : Text} {places : List Nat} {pairs : List (Nat × Nat)} {r : Recording sdk}

theorem begun_lt (hi : Begins steps i) (hlt : i < k) : begun steps i < begun steps k := by
  obtain ⟨name, tool, further, hbegin⟩ := hi
  calc begun steps i < begun steps (i + 1) := by
        rw [begun_succ hbegin]
        exact Nat.lt_succ_self _
    _ ≤ begun steps k := ((List.take_prefix_take_left hlt).sublist).countP_le

theorem begun_injective (hi : Begins steps i) (hk : Begins steps k)
    (h : begun steps i = begun steps k) : i = k := by
  rcases Nat.lt_trichotomy i k with hlt | rfl | hlt
  · exact absurd h (Nat.ne_of_lt (begun_lt hi hlt))
  · rfl
  · exact absurd h.symm (Nat.ne_of_lt (begun_lt hk hlt))

/-- No span is exported twice. -/
theorem Records.nodup (h : Records server steps n places pairs r) :
    (r.ended.map fun e => e.number).Nodup := by
  have hnumbers : r.ended.map (fun e => e.number) = pairs.map fun p => begun steps p.1 := by
    have hended := h.ended
    generalize r.ended = ended at hended
    clear h
    induction hended with
    | nil => rfl
    | cons hexport _ ih =>
      obtain ⟨tool, hstarts⟩ := hexport.starts
      rw [List.map_cons, List.map_cons, hstarts.number, ih]
  rw [hnumbers]
  refine List.pairwise_map.mpr (h.ordered.imp_of_mem fun {p q} hp hq hlt heq => ?_)
  have hmatch := ((h.matched p.1 p.2).mp hp).2
  have hother := ((h.matched q.1 q.2).mp hq).2
  have hopen := (matches_iff.mp hother).2.1
  have hplace := begun_injective (matches_iff.mp hmatch).2.1.2.1 hopen.2.1 heq
  exact hopen.2.2 p.2 hlt (hplace ▸ hmatch)

end

/-- Of two spans the inner one ends first; the end behind them belongs to none. -/
example : ((Recording.empty true "calculator" : Recorder).run
    [.begin "outer" none [], .begin "inner" none [], .finish none, .finish none, .finish none]).ended.map
      (fun e => (e.number, e.parent)) = [(1, some 0), (0, none)] := rfl

/-! ## Failures without a text -/

theorem Recording.finish_of_hasEnded {r : Recording sdk} {top : OpenSpan sdk}
    {outer : List (OpenSpan sdk)} {failure : Option Exception} (hspans : r.spans = top :: outer)
    (hended : top.hasEnded = true) : r.finish failure = r := by
  unfold finish
  split
  · simp only [hspans, hended, if_true]
  · rfl

/-- An end with a failure whose text cannot be made ends and counts nothing. The span stays open and
current, and from then on every end is without effect. -/
theorem finishUntold_stays (r : Recording sdk) (failures : List (Option Exception))
    (hstarted : r.isStarted = true) (hopen : r.spans ≠ []) :
    r.finishUntold.seen = r.seen ∧ r.finishUntold.calls = r.calls ∧
      r.finishUntold.spans.map (fun s => s.handle) = r.spans.map (fun s => s.handle) ∧
      r.finishUntold.run (failures.map .finish) = r.finishUntold := by
  obtain ⟨top, outer, hspans⟩ := List.exists_cons_of_ne_nil hopen
  have huntold : r.finishUntold =
      { r with spans := { top with hasEnded := true } :: outer } := by
    rw [Recording.finishUntold, if_pos hstarted, hspans]
  rw [huntold, hspans]
  refine ⟨rfl, rfl, rfl, ?_⟩
  induction failures with
  | nil => rfl
  | cons failure rest ih =>
    refine (congrArg (Recording.run · (rest.map .finish)) ?_).trans ih
    exact Recording.finish_of_hasEnded rfl rfl

end Telemetry

end Scriptlet
