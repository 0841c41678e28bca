import Scriptlet.Proofs.Assignment.Lines
import Scriptlet.Proofs.Malformed
import Scriptlet.Proofs.Parse.Names

/-
  Several names on the left.

  An assignment to several names evaluates its right side once. If the value is no list or tuple of as
  many elements, the assignment fails and binds nothing; else all elements are taken before the first name
  is bound, so a value that mentions the names is that of before. A loop with several targets does the same
  with each of its elements, before its body runs.

  A list of names is parsed in any room that the right side could be parsed in, so it cannot happen that
  the value is there and the names are too deep.

  What is proved:
    1. `Text.Lists.isLeftSide` — names with commas and blanks between them are a left side.
    2. `Execution.bindTarget_names` — all names are bound, or none.
    3. `binds_together` — assignments to several names and loops with several targets.
    4. `not_binds_together_import` — but a line that begins with the word `import` is no assignment.
-/

namespace Scriptlet

open Engine (room)
open Execution

/-! ## The text of names -/

/-- The text is these names, the first and the others, with commas and any blanks between them. -/
inductive Text.Lists : Text → List Text → Text → Prop
  | last {name : Text} : Lists name [] name
  | more {name next pad gap t : Text} {names : List Text} : (∀ c ∈ pad, c.isBlank = true) →
      (∀ c ∈ gap, c.isBlank = true) → Lists next names t →
      Lists name (next :: names) (name ++ (pad ++ ("," ++ (gap ++ t))))

namespace IsTarget

variable {name : Text}

theorem cuts (h : IsTarget name) {rest : Text} (hrest : Token.Ends rest) :
    Token.Cuts name rest [⟨.name, name⟩] := by
  have hid := h.identifier
  cases name with
  | nil => cases hid
  | cons c more =>
    rw [Text.isIdentifier, Bool.and_eq_true, List.all_eq_true] at hid
    exact .token (Token.lexeme_name hid.1 hid.2 hrest)

theorem nonempty (h : IsTarget name) : name ≠ [] := by
  obtain ⟨c, more, rfl, -⟩ := h.exists_cons
  exact List.cons_ne_nil _ _

end IsTarget

namespace Text.Lists

open Token

variable {first : Text} {others : List Text} {t : Text}

theorem ends_comma {pad : Text} (hpad : ∀ c ∈ pad, c.isBlank = true) (rest : Text) :
    Ends (pad ++ ("," ++ rest)) := by
  refine .blanks_append hpad fun c hc => ?_
  cases hc
  decide

theorem cuts (h : Lists first others t) (hnames : ∀ name ∈ first :: others, IsTarget name) :
    ∀ rest, Ends rest → Cuts t rest (Word.row first others) := by
  intro rest hrest
  induction h with
  | last => exact (hnames _ List.mem_cons_self).cuts hrest
  | @more name next pad gap t names hpad hgap _ ih =>
    obtain ⟨hname, hothers⟩ := List.forall_mem_cons.mp hnames
    have hcomma : Cuts "," (gap ++ t ++ rest) [.of ","] := .sign (by decide) (by decide)
    have hends : Ends (pad ++ ("," ++ (gap ++ t)) ++ rest) := by
      rw [List.append_assoc, List.append_assoc]
      exact ends_comma hpad _
    exact (hname.cuts hends).append ((Cuts.blanks hpad).append (hcomma.append
      ((Cuts.blanks hgap).append (ih hothers))))

theorem head (h : Lists first others t) (hfirst : IsTarget first) : ∀ c ∈ t.head?, c.isBlank = false := by
  intro c hc
  cases h with
  | last => exact hfirst.not_isBlank c (List.mem_of_mem_head? hc)
  | more =>
    rw [List.head?_append_of_ne_nil _ hfirst.nonempty] at hc
    exact hfirst.not_isBlank c (List.mem_of_mem_head? hc)

theorem last_not_blank (h : Lists first others t) (hnames : ∀ name ∈ first :: others, IsTarget name) :
    t ≠ [] ∧ ∀ c ∈ t.getLast?, c.isBlank = false := by
  induction h with
  | last =>
    have hname := hnames _ List.mem_cons_self
    exact ⟨hname.nonempty, fun c hc => hname.not_isBlank c (List.mem_of_mem_getLast? hc)⟩
  | more _ _ _ ih =>
    obtain ⟨hne, hlast⟩ := ih (List.forall_mem_cons.mp hnames).2
    refine ⟨by simp [hne], fun c hc => hlast c ?_⟩
    simpa only [← List.append_assoc, List.getLast?_append_of_ne_nil _ hne] using hc

/-- Names with commas and blanks between them are a left side, if a line can begin with the first. -/
theorem isLeftSide (h : Lists first others t) (hnames : ∀ name ∈ first :: others, IsTarget name)
    (hfirst : first ∉ statementWords) : IsLeftSide t (Word.row first others) where
  begins := by
    cases h with
    | last => exact ⟨first, [], (List.append_nil _).symm, hnames _ List.mem_cons_self, hfirst, nofun⟩
    | more hpad =>
      exact ⟨first, _, rfl, hnames _ List.mem_cons_self, hfirst,
        fun c hc => (ends_comma hpad _ c hc).1⟩
  trimmed := trim_eq_self_iff.mpr ⟨h.head (hnames _ List.mem_cons_self), (h.last_not_blank hnames).2⟩
  cuts := h.cuts hnames
  calm := by
    have hothers : AssignsNothing (Word.behindCommas others) := by
      clear h hnames hfirst
      induction others with
      | nil => exact .nil
      | cons name others ih => exact .cons (.of (by decide)) (.cons (.of_kind (by simp)) ih)
    exact .cons (.of_kind (by simp)) hothers

end Text.Lists

/-! ## Names that are bound together -/

/-- The state with these names bound to the elements of a value, if it is a list or tuple of as many. -/
def State.spread? (s : State) (names : List Text) (v : Value) : Option State :=
  match s.heap.sequence? v with
  | some items => if items.length = names.length then some (s.bindAll (names.zip items)) else none
  | none => none

/-- It goes on in the state with all names bound, or it fails in the state in which none is. -/
def BindsAll (s : State) (names : List Text) (v : Value) (next : State → Ending) (ending : Ending) : Prop :=
  match s.spread? names v with
  | some t => ending = next t
  | none => ∃ fault, ending = .error fault s

theorem Heap.unpack_cases (h : Heap) (levels count : Nat) (v : Value) :
    (∃ items, h.sequence? v = some items ∧ items.length = count ∧
        h.unpack levels v count = .ok items) ∨
      ((∀ items, h.sequence? v = some items → items.length ≠ count) ∧
        ∃ fault, h.unpack levels v count = .error fault) := by
  -- What refuses a value reports it, and where there is no report this is what stops.
  have hrefuse : ∀ {x : Except Fault Text} {f : Text → Fault},
      ∃ fault, (x >>= fun t => throw (f t) : Except Fault (List Value)) = .error fault := by
    intro x f
    cases x with
    | ok t => exact ⟨f t, rfl⟩
    | error fault => exact ⟨fault, rfl⟩
  have hsequence : ∀ {items : Array Value} {refuse : Except Fault (List Value)},
      (∃ fault, refuse = .error fault) → (∃ found, some items.toList = some found ∧ found.length = count ∧
        (if items.size = count then Except.ok items.toList else refuse) = .ok found) ∨
      ((∀ found, some items.toList = some found → found.length ≠ count) ∧
        ∃ fault, (if items.size = count then Except.ok items.toList else refuse) = .error fault) := by
    intro items refuse hrefuse
    by_cases hsize : items.size = count
    · exact .inl ⟨items.toList, rfl, hsize, if_pos hsize⟩
    · refine .inr ⟨fun found hfound => ?_, by rw [if_neg hsize]; exact hrefuse⟩
      obtain rfl := Option.some.inj hfound
      exact hsize
  cases v with
  | list r => exact hsequence hrefuse
  | tuple r => exact hsequence hrefuse
  | complex re im => exact .inr ⟨nofun, _, rfl⟩
  | _ => exact .inr ⟨nofun, hrefuse⟩

/-- What is done with the elements of a value that is taken apart. -/
theorem BindsAll.of_unpack {s : State} {names : List Text} {v : Value} {next : State → Ending}
    {ending : Ending} (levels : Nat)
    (h : ending = match s.heap.unpack levels v names.length with
      | .ok values => next (s.bindAll (names.zip values))
      | .error fault => .error fault s) : BindsAll s names v next ending := by
  unfold BindsAll State.spread?
  rcases s.heap.unpack_cases levels names.length v with
    ⟨items, hitems, hlength, hunpack⟩ | ⟨hnone, fault, hunpack⟩
  · rw [hunpack] at h
    rw [hitems]
    simp only [hlength, if_true]
    exact h
  · rw [hunpack] at h
    cases hitems : s.heap.sequence? v with
    | none => exact ⟨fault, h⟩
    | some items =>
      simp only [hnone items hitems, if_false]
      exact ⟨fault, h⟩

/-- Names that are read as a tuple are bound to the elements of the value. -/
theorem Execution.bindTarget_names {limits : Limits} {levels : Nat} {target : Text} {v : Value} {s : State}
    {span : Span} {es : List Expr} {names : List Text}
    (hread : Evaluation.read levels target = .ok (.tuple span es)) (hes : Parse.AreNames es names) :
    bindTarget (room limits levels) target v false s =
      match s.heap.unpack (levels / 2) v names.length with
      | .ok values => .ok () (s.bindAll (names.zip values))
      | .error fault => .error fault s := by
  have hassign : ∀ values s, (forIn (es.zip values) PUnit.unit fun p _ => do
      Evaluation.assign ((room limits levels).below 4) target.trim p.1 p.2
      pure (ForInStep.yield PUnit.unit) : Run PUnit) s = .ok PUnit.unit (s.bindAll (names.zip values)) := by
    clear hread
    intro values s
    induction hes generalizing values s with
    | nil => rfl
    | cons hname _ ih =>
      obtain ⟨place, rfl⟩ := hname
      cases values with
      | nil => rfl
      | cons w values =>
        rw [List.zip_cons_cons, Run.forIn_cons_apply]
        exact ih values _
  unfold bindTarget
  rw [show (room limits levels).levels = levels from rfl, hread, ← hes.length_eq]
  show (do
    let values ← Run.look fun h => h.unpack (levels / 2) v es.length
    for part in es.zip values do
      Evaluation.assign ((room limits levels).below 4) target.trim part.1 part.2 : Run Unit) s = _
  rw [Run.bind_apply, Run.look_apply]
  cases s.heap.unpack (levels / 2) v es.length with
  | error fault => rfl
  | ok values =>
    dsimp only
    rw [Run.bind_apply]
    rw [hassign]
    rfl

/-! ## Assignments -/

section

variable {limits : Limits} {levels : Nat} {first second : Text} {others : List Text} {t lead pad e : Text}
  {s : State}

/-- Names are read as a tuple of them wherever the right side has been parsed. -/
theorem Text.Lists.read (h : Text.Lists first (second :: others) t)
    (hnames : ∀ name ∈ first :: second :: others, IsTarget name) (hlevels : 13 ≤ levels) :
    ∃ span es, Evaluation.read levels t = .ok (.tuple span es) ∧
      Parse.AreNames es (first :: second :: others) := by
  obtain ⟨tokens, hscan, hwords⟩ := Token.Cuts.exists_scan (h.cuts hnames [] nofun)
  obtain ⟨span, es, hparse, hes⟩ := Expr.parseWhole_names hscan hwords
    (fun name hname => (hnames name hname).identifier) (fun name hname => (hnames name hname).notKeyword)
    (show 10 ≤ levels - 3 by omega)
  have htrim : t.trim = t := Text.trim_eq_self_iff.mpr
    ⟨h.head (hnames _ List.mem_cons_self), (h.last_not_blank hnames).2⟩
  refine ⟨span, es, Evaluation.read_ok_iff.mpr ?_, hes⟩
  rw [Expr.parse, htrim]
  exact hparse

/-- A name is read as the name wherever something has been parsed. -/
theorem IsTarget.read {name : Text} (h : IsTarget name) (hlevels : 13 ≤ levels) :
    ∃ span, Evaluation.read levels name = .ok (.name span name) := by
  have hcuts : Token.Cuts name [] [⟨.name, name⟩] := h.cuts nofun
  obtain ⟨tokens, hscan, hwords⟩ := hcuts.exists_scan
  obtain ⟨span, hparse⟩ := Expr.parseWhole_name hscan hwords h.identifier h.notKeyword
    (show 10 ≤ levels - 3 by omega)
  have htrim : name.trim = name := Text.trim_eq_self_iff.mpr
    ⟨fun c hc => h.not_isBlank c (List.mem_of_mem_head? hc),
      fun c hc => h.not_isBlank c (List.mem_of_mem_getLast? hc)⟩
  refine ⟨span, Evaluation.read_ok_iff.mpr ?_⟩
  rw [Expr.parse, htrim]
  exact hparse

/-- An assignment to several names fails as its right side does, or else binds all names or none. -/
theorem sequence_names (hnames : ∀ name ∈ first :: second :: others, IsTarget name)
    (hfirst : first ∉ statementWords) (ht : Text.Lists first (second :: others) t)
    (hlead : ∀ c ∈ lead, c.isBlank = true) (hpad : ∀ c ∈ pad, c.isBlank = true)
    (he : e.head? ≠ some (CodePoint.ofChar '=')) :
    match ((room limits levels).below 2).evaluate e s with
    | .error _ u => ∃ fault,
        sequence limits (room limits levels) [lead ++ (t ++ (pad ++ ("=" ++ e)))] s = .error fault u
    | .ok v u => BindsAll u (first :: second :: others) v (.ok ())
        (sequence limits (room limits levels) [lead ++ (t ++ (pad ++ ("=" ++ e)))] s) := by
  have hside := ht.isLeftSide hnames hfirst
  have hline := hside.sequence_apply limits levels s hlead hpad
    (show Text.ofString "=" ∈ Token.assignments by decide) (fun _ => he)
  have htarget : t.isEmpty = false := List.isEmpty_eq_false_iff.mpr hside.nonempty
  have hassign : e.trim ≠ [] → assignment (room limits levels) t "=" e.trim = (do
      let v ← ((room limits levels).below 2).evaluate e
      bindTarget (room limits levels) t v false) := by
    intro hne
    rw [assignment_eq (by rw [htarget, List.isEmpty_eq_false_iff.mpr hne]; rfl)]
    exact congrArg (· >>= fun v => bindTarget (room limits levels) t v false)
      (Engine.evaluate_trim levels 2 e)
  rw [hline]
  cases hparse : Expr.parse (levels - 6) e with
  | ok tree =>
    obtain ⟨tokens, p, hscan, -, hwords, -⟩ := Expr.exists_located hparse
    have hne : e.trim ≠ [] := by
      refine Token.ne_nil_of_scan hscan ?_
      rintro rfl
      exact Parse.words_ne_nil p hwords.symm
    obtain ⟨span, es, hread, hes⟩ := ht.read hnames
      (show 13 ≤ levels by have := Expr.le_of_parseWhole hparse; omega)
    rw [hscan]
    simp only [hassign hne, Run.bind_apply]
    cases ((room limits levels).below 2).evaluate e s with
    | error fault u => exact ⟨fault, rfl⟩
    | ok v u => exact .of_unpack _ (bindTarget_names hread hes)
  | error refusal =>
    -- Nothing is parsed, and nothing is evaluated.
    obtain ⟨fault, -, hfails⟩ := Engine.evaluate_below_refused limits levels hparse
    rw [hfails s]
    cases Token.scan e.trim with
    | error refusal => exact ⟨_, rfl⟩
    | ok tokens =>
      by_cases hne : e.trim = []
      · obtain ⟨e, hrefused, -⟩ := assignment_blank (room limits levels) t "=" s
        dsimp only
        rw [hne]
        exact ⟨_, hrefused⟩
      · simp only [hassign hne, Run.bind_apply, hfails]
        exact ⟨fault, rfl⟩

/-! ## Loops -/

/-- One element of a loop with several targets. -/
theorem turns_names {names : List Text} (hnames : 2 ≤ names.length) (body : List Text) (item : Value)
    (items : List Value) : BindsAll s names item (fun t =>
        match ((room limits levels).below 1).runLines body t with
        | .ok () u => Program.turns limits levels names body items u
        | .error fault u => .error fault u)
      (Program.turns limits levels names body (item :: items) s) := by
  refine .of_unpack (levels / 2) ?_
  rw [Program.turns_cons_apply, Program.turn_apply, Program.shares, if_neg (by omega),
    ← Program.runLines_below]
  cases s.heap.unpack (levels / 2) item names.length <;> rfl

end

/-! ## What a name is bound to -/

theorem Variables.lookup_cons (name other : Text) (v : Value) (rest : List (Text × Value)) :
    ((name, v) :: rest).lookup other = if other = name then some v else rest.lookup other := by
  rw [List.lookup_cons]
  by_cases h : other = name
  · rw [if_pos h, beq_iff_eq.mpr h]
  · rw [if_neg h, beq_eq_false_iff_ne.mpr h]

theorem Variables.find?_set (vars : Variables) (name other : Text) (v : Value) :
    (vars.set name v).find? other = if other = name then some v else vars.find? other := by
  obtain ⟨bindings⟩ := vars
  show (bind name v bindings).lookup other = if other = name then some v else bindings.lookup other
  induction bindings with
  | nil => exact lookup_cons name other v []
  | cons binding rest ih =>
    obtain ⟨key, old⟩ := binding
    rw [bind]
    by_cases hkey : key = name
    · rw [if_pos hkey, lookup_cons, lookup_cons, hkey]
      split <;> rfl
    · rw [if_neg hkey, lookup_cons, lookup_cons, ih]
      by_cases h : other = key
      · rw [if_pos h, if_pos h, if_neg (h ▸ hkey)]
      · rw [if_neg h, if_neg h]

/-- Of several bindings of a name the last one holds. -/
theorem State.find?_bindAll (s : State) (bindings : List (Text × Value)) (name : Text) :
    (s.bindAll bindings).vars.find? name = (bindings.reverse.lookup name).or (s.vars.find? name) := by
  induction bindings generalizing s with
  | nil => rfl
  | cons binding rest ih =>
    refine (ih { s with vars := s.vars.set binding.1 binding.2 }).trans ?_
    rw [List.reverse_cons, List.lookup_append, Option.or_assoc, Variables.find?_set, Variables.lookup_cons]
    split <;> rfl

/-- Binding variables changes nothing but the variables. -/
theorem State.bindAll_eq (s : State) (bindings : List (Text × Value)) :
    s.bindAll bindings = { s with vars := (s.bindAll bindings).vars } := by
  induction bindings generalizing s with
  | nil => rfl
  | cons binding rest ih => exact ih { s with vars := s.vars.set binding.1 binding.2 }

/-! ## Together -/

/-- Several names are bound to the elements of one value, all of them or none.

For each line with names, an equals sign and a right side, the right side is evaluated once, and the line
fails as that does; for each element of a loop with several targets it is the same before the body runs. All
elements are those that the value has before the first name is bound, and of a name that is there twice the
last one holds. -/
theorem binds_together (limits : Limits) (levels : Nat) (s : State) :
    (∀ (first second : Text) (others : List Text) (t lead pad e : Text),
      (∀ name ∈ first :: second :: others, IsTarget name) → first ∉ statementWords →
      Text.Lists first (second :: others) t → (∀ c ∈ lead, c.isBlank = true) →
      (∀ c ∈ pad, c.isBlank = true) → e.head? ≠ some (CodePoint.ofChar '=') →
      match ((room limits levels).below 2).evaluate e s with
      | .error _ u => ∃ fault,
          sequence limits (room limits levels) [lead ++ (t ++ (pad ++ ("=" ++ e)))] s = .error fault u
      | .ok v u => BindsAll u (first :: second :: others) v (.ok ())
          (sequence limits (room limits levels) [lead ++ (t ++ (pad ++ ("=" ++ e)))] s)) ∧
    (∀ (names : List Text) (text : Text) (body : List Text),
      header (room limits levels) (.forEach names text) body s =
        match Program.value limits levels text s with
        | .ok v u =>
          match u.heap.sequence? v with
          | some items => Program.turns limits levels names body items u
          | none => .error (Program.notIterable text v) u
        | .error fault u => .error fault u) ∧
    (∀ (names : List Text) (body : List Text) (item : Value) (items : List Value), 2 ≤ names.length →
      BindsAll s names item (fun t =>
          match ((room limits levels).below 1).runLines body t with
          | .ok () u => Program.turns limits levels names body items u
          | .error fault u => .error fault u)
        (Program.turns limits levels names body (item :: items) s)) ∧
    ∀ (names : List Text) (items : List Value) (name : Text),
      (s.bindAll (names.zip items)).vars.find? name =
          ((names.zip items).reverse.lookup name).or (s.vars.find? name) ∧
        s.bindAll (names.zip items) = { s with vars := (s.bindAll (names.zip items)).vars } :=
  ⟨fun _ _ _ _ _ _ _ hnames hfirst ht hlead hpad he => sequence_names hnames hfirst ht hlead hpad he,
    fun names text body => Program.forEach_apply limits names text body s,
    fun _ body item items hnames => turns_names hnames body item items,
    fun names items name => ⟨s.find?_bindAll (names.zip items) name, s.bindAll_eq (names.zip items)⟩⟩

/-- The state with two variables. -/
def State.ofPair : State := (State.initial ⟨0⟩ 0).bindAll [("a", .int 1), ("b", .int 2)]

/-- Whether a run ends with these two integers in the variables. -/
def Ending.hasPair (m n : Int) : Ending → Bool
  | .ok () s => s.vars.find? "a" == some (.int m) && s.vars.find? "b" == some (.int n)
  | .error _ _ => false

theorem Text.Lists.pair : Text.Lists "a" ["b"] "a, b" :=
  show Text.Lists "a" ["b"] ("a" ++ (([] : Text) ++ ("," ++ (" " ++ "b")))) from
    .more (List.forall_mem_nil _) (by decide) .last

/-- Two variables change places, and a loop does not take a number apart. -/
theorem binds_together_swap :
    Ending.hasPair 2 1 (sequence .standard (room .standard 959) ["a, b = b, a"] .ofPair) = true ∧
      ∃ fault, Program.turns .standard 959 ["a", "b"] [] [.int 5] .ofPair = .error fault .ofPair := by
  have hnames : ∀ name ∈ [Text.ofString "a", "b"], IsTarget name := by decide
  have hswap := (binds_together .standard 959 .ofPair).1 "a" "b" [] "a, b" [] " " " b, a" hnames
    (by decide) .pair (by decide) (by decide) (by decide)
  have hline : ([] : Text) ++ ("a, b" ++ (" " ++ ("=" ++ " b, a"))) = "a, b = b, a" := by decide
  rw [hline] at hswap
  have hvalue : (match ((room .standard 959).below 2).evaluate " b, a" .ofPair with
      | .ok v u => (u.spread? ["a", "b"] v).any fun t => Ending.hasPair 2 1 (.ok () t)
      | .error _ _ => false) = true := by
    decide +kernel
  constructor
  · cases hresult : ((room .standard 959).below 2).evaluate " b, a" .ofPair with
    | error fault u =>
      rw [hresult] at hvalue
      cases hvalue
    | ok v u =>
      rw [hresult] at hvalue hswap
      dsimp only [BindsAll] at hvalue hswap
      cases ht : u.spread? ["a", "b"] v with
      | none =>
        rw [ht] at hvalue
        cases hvalue
      | some t =>
        rw [ht] at hvalue hswap
        rw [show sequence .standard (room .standard 959) ["a, b = b, a"] .ofPair = .ok () t from hswap]
        exact hvalue
  · exact (binds_together .standard 959 .ofPair).2.2.1 ["a", "b"] [] (.int 5) [] (by decide)

/-- A line that begins with the word `import` is taken for an import, also where it is a name. -/
theorem not_binds_together_import :
    ¬ ∀ (limits : Limits) (levels : Nat) (s : State) (first second : Text) (others : List Text)
      (t lead pad e : Text), (∀ name ∈ first :: second :: others, IsTarget name) →
      Text.Lists first (second :: others) t → (∀ c ∈ lead, c.isBlank = true) →
      (∀ c ∈ pad, c.isBlank = true) → e.head? ≠ some (CodePoint.ofChar '=') →
      match ((room limits levels).below 2).evaluate e s with
      | .error _ u => ∃ fault,
          sequence limits (room limits levels) [lead ++ (t ++ (pad ++ ("=" ++ e)))] s = .error fault u
      | .ok v u => BindsAll u (first :: second :: others) v (.ok ())
          (sequence limits (room limits levels) [lead ++ (t ++ (pad ++ ("=" ++ e)))] s) := by
  intro hclaim
  have hnames : ∀ name ∈ [Text.ofString "import", "x"], IsTarget name := by decide
  have hlists : Text.Lists "import" ["x"] "import, x" :=
    show Text.Lists "import" ["x"] ("import" ++ (([] : Text) ++ ("," ++ (" " ++ "x")))) from
      .more (List.forall_mem_nil _) (by decide) .last
  have hline := hclaim .standard 959 (.initial ⟨0⟩ 0) "import" "x" [] "import, x" [] " " " 1, 2" hnames
    hlists (by decide) (by decide) (by decide)
  have hvalue : (match ((room .standard 959).below 2).evaluate " 1, 2" (.initial ⟨0⟩ 0) with
      | .ok v u => (u.spread? ["import", "x"] v).isSome
      | .error _ _ => false) = true := by
    decide +kernel
  have hfails : (Run.fault? (sequence .standard (room .standard 959)
      [([] : Text) ++ ("import, x" ++ (" " ++ ("=" ++ " 1, 2")))] (.initial ⟨0⟩ 0))).isSome = true := by
    decide +kernel
  cases hresult : ((room .standard 959).below 2).evaluate " 1, 2" (.initial ⟨0⟩ 0) with
  | error fault u =>
    rw [hresult] at hvalue
    cases hvalue
  | ok v u =>
    rw [hresult] at hvalue hline
    obtain ⟨t, ht⟩ := Option.isSome_iff_exists.mp hvalue
    dsimp only [BindsAll] at hline
    rw [ht] at hline
    rw [show sequence .standard (room .standard 959) _ _ = .ok () t from hline] at hfails
    cases hfails

end Scriptlet
