import Scriptlet.Proofs.Kinds.Operations
import Scriptlet.Proofs.Printing.Parsing
import Scriptlet.Proofs.Steps
import Scriptlet.Proofs.Spans.Cutting
import Scriptlet.Proofs.Spans.Nodes
import Scriptlet.Proofs.Spans.Reading

/-
  Variables can be read.

  Names are bound by loops, assignments and imports, and each of these checks a name in its own way: the
  loop its targets, the parser the names of a target, the imports a fixed table. A name is read when it
  is cut from a text and looked up.

  A variable is an identifier, which begins with an ASCII letter or an underscore, and no word that the
  parser has its own use for.

  What is proved:
    1. `Text.IsBound.isVariable` — all names that statements bind are variables.
    2. `Text.IsVariable.read` — a variable is read as the name that it is.
    3. `Session.variables_readable` — in every state that comes up, all names are variables and evaluate
       to what is bound to them.
-/

namespace Scriptlet

/-! ## Names in texts -/

namespace Token

theorem lexeme_isIdentifier {c : CodePoint} {rest : Text} {n : Nat}
    (h : lexeme c rest = .ok (some .name, n)) : Text.isIdentifier (c :: rest.take n) := by
  unfold lexeme at h
  dsimp only at h
  -- Blanks, numbers, strings, names and operators are tried in this order.
  split at h
  · cases h
  split at h
  · cases h
  split at h
  · split at h <;> cases h
  split at h
  · rename_i hstarts
    cases h
    have hword : rest.take (rest.takeWhile CodePoint.isWord).length = rest.takeWhile CodePoint.isWord :=
      (List.prefix_iff_eq_take.mp (List.takeWhile_prefix _)).symm
    rw [hword, Text.isIdentifier, hstarts, Bool.true_and]
    exact List.all_takeWhile
  · split at h <;> cases h

/-- The text of a name is an identifier. -/
theorem Lexes.isIdentifier {start : Nat} {t : Text} {tokens : List Token}
    (h : Lexes start t tokens) : ∀ token ∈ tokens, token.kind = .name → token.text.isIdentifier := by
  induction h with
  | nil => exact fun _ htoken => absurd htoken List.not_mem_nil
  | blank _ _ ih => exact ih
  | token hlexeme _ ih =>
    refine List.forall_mem_cons.mpr ⟨fun hkind => ?_, ih⟩
    obtain rfl := hkind
    exact lexeme_isIdentifier hlexeme

end Token

/-! ## Names in expressions -/

namespace Phrase

/-- What is said of the phrases of each symbol: a name is the word that is written, and tails and
suffixes build no names. -/
def NamesAreWords : {s : Symbol} → Phrase s → Prop
  | .level _, p => ∀ span i place id, p.located span i i = .name place id →
      ⟨.name, id⟩ ∈ p.words ∧ id ∉ Token.keywords
  | .tail _, rest => ∀ span origin i left place id,
      rest.located span origin i left = .name place id → left = .name place id
  | .suffixes, rest => ∀ span origin i left place id,
      rest.located span origin i left = .name place id → left = .name place id
  | _, _ => True

theorem names_are_words {s : Symbol} (p : Phrase s) : p.NamesAreWords := by
  induction p with
  | single e ih => exact ih
  -- A tail builds no names, so a chain that is a name is its first phrase; so with suffixes.
  | chain first rest hfirst hrest =>
    intro span i place id hname
    obtain ⟨hword, hkeyword⟩ := hfirst _ _ _ _ (hrest _ _ _ _ _ _ hname)
    exact ⟨List.mem_append_left _ hword, hkeyword⟩
  | tailEnd => exact fun _ _ _ _ _ _ hname => hname
  | tailMore op hop e rest _ hrest =>
    intro span origin i left place id hname
    have hbuilt := hrest _ _ _ _ _ _ hname
    cases op <;> cases hbuilt
  | compared e ih => exact ih
  | comparison first rest hfirst _ =>
    intro span i place id hname
    rw [located] at hname
    cases hoperands : rest.located span (i + first.count) (i + first.count) with
    | nil =>
      rw [hoperands] at hname
      obtain ⟨hword, hkeyword⟩ := hfirst _ _ _ _ hname
      exact ⟨List.mem_append_left _ hword, hkeyword⟩
    | cons operand operands =>
      rw [hoperands] at hname
      cases hname
  | unsigned e ih => exact ih
  | base e ih => exact ih
  | primary e rest he hrest =>
    intro span i place id hname
    obtain ⟨hword, hkeyword⟩ := he _ _ _ _ (hrest _ _ _ _ _ _ hname)
    exact ⟨List.mem_append_left _ hword, hkeyword⟩
  | suffixesEnd => exact fun _ _ _ _ _ _ hname => hname
  | call args rest _ hrest | attr label hlabel rest hrest =>
    intro span origin i left place id hname
    have hbuilt := hrest _ _ _ _ _ _ hname
    cases hbuilt
  | subscript inner rest _ hrest =>
    intro span origin i left place id hname
    have hbuilt := hrest _ _ _ _ _ _ hname
    cases hinner : inner.located span (i + 1) (i + 1) with
    | single e | slice bounds lower upper step =>
      rw [hinner] at hbuilt
      cases hbuilt
  | name text hkeyword =>
    intro span i place id hname
    cases hname
    exact ⟨List.mem_singleton_self _, hkeyword⟩
  | group e ih =>
    intro span i place id hname
    obtain ⟨hword, hkeyword⟩ := ih _ _ _ _ hname
    exact ⟨List.mem_cons_of_mem _ (List.mem_append_left _ hword), hkeyword⟩
  | commas | not | signed | power | number | string | constant | unit | tuple | list | dict | singleton |
    set =>
    intro span i place id hname
    cases hname
  | _ => exact trivial

end Phrase

/-- All names in a parsed expression are variables. -/
theorem Expr.isVariable_of_hasNode {room : Nat} {text id : Text} {e : Expr} {span : Span}
    (hparse : parseWhole room text = .ok e) (hnode : e.HasNode (.name span id)) : id.IsVariable := by
  obtain ⟨tokens, p, hscan, hstands, -, rfl⟩ := exists_located hparse
  obtain ⟨q, i, hwords, hname, -⟩ := p.nodes_exact 0 hstands _ hnode
  obtain ⟨hword, hkeyword⟩ := q.names_are_words _ _ _ _ hname.symm
  refine ⟨?_, hkeyword⟩
  rw [← hwords.words_eq] at hword
  obtain ⟨token, htoken, hnamed⟩ := List.mem_map.mp hword
  obtain ⟨hkind, rfl⟩ := Word.mk.inj hnamed
  exact (Token.scan_iff.mp hscan).isIdentifier token
    (List.mem_of_mem_drop (List.mem_of_mem_take htoken)) hkind

/-! ## Names that are bound -/

theorem Line.isVariable_of_readFor {line rest items name : Text} {targets : List Text}
    (hread : readFor line rest = .ok (.forEach targets items)) (hname : name ∈ targets) :
    name.IsVariable := by
  unfold readFor at hread
  split at hread
  · cases hread
  · dsimp only at hread
    split at hread
    · cases hread
    · rename_i hnone
      cases hread
      have hvalid := List.find?_eq_none.mp hnone name hname
      simp only [Bool.or_eq_true, Bool.not_eq_true', not_or, Bool.not_eq_false,
        List.contains_iff_mem] at hvalid
      exact ⟨hvalid.1, hvalid.2⟩

/-- A loop over elements is read behind its first word. -/
theorem Line.exists_readFor {line items : Text} {targets : List Text}
    (hread : read line = .ok (.header (.forEach targets items))) :
    ∃ rest, readFor line rest = .ok (.forEach targets items) := by
  have hheader : ∀ {x : Except Fault Header} {h : Header},
      (do return .header (← x) : Except Fault Line) = .ok (.header h) → x = .ok h := by
    intro x h hx
    cases x <;> cases hx
    rfl
  unfold read at hread
  split at hread
  · exact ⟨_, hheader hread⟩
  · have hif := hheader hread
    unfold readIf at hif
    split at hif <;> cases hif
  · have hwhile := hheader hread
    unfold readWhile at hwhile
    split at hwhile <;> cases hwhile
  · split at hread
    · cases hread
    · cases hstatement : readStatement line with
      | error fault =>
        rw [hstatement] at hread
        cases hread
      | ok s =>
        rw [hstatement] at hread
        cases hread

/-- The members of all libraries have names that are variables. -/
theorem Library.isVariable_member (l : Library) : ∀ name ∈ l.members.map Prod.fst, name.IsVariable := by
  have hnames : ∀ name ∈ l.members.map Prod.fst, name.isIdentifier = true ∧ name ∉ Token.keywords := by
    cases l <;> decide
  exact fun name hname => ⟨(hnames name hname).1, (hnames name hname).2⟩

theorem Library.isVariable_of_ofName? {name : Text} {l : Library} (h : ofName? name = some l) :
    name.IsVariable := by
  have hnames : ∀ l ∈ importable,
      (Text.ofString l.name).isIdentifier = true ∧ Text.ofString l.name ∉ Token.keywords := by
    decide
  have hname := List.find?_some h
  obtain ⟨hidentifier, hkeyword⟩ := hnames l (List.mem_of_find?_eq_some h)
  rw [beq_iff_eq.mp hname] at hidentifier hkeyword
  exact ⟨hidentifier, hkeyword⟩

theorem Expr.hasNode_of_bound {e : Expr} {name : Text} (h : name ∈ e.bound) :
    ∃ span, e.HasNode (.name span name) := by
  cases e with
  | name span id =>
    cases List.mem_singleton.mp h
    exact ⟨span, .here _⟩
  | tuple span items =>
    obtain ⟨item, hitem, hname⟩ := List.mem_flatMap.mp h
    cases item with
    | name place id =>
      cases List.mem_singleton.mp hname
      exact ⟨place, .inside hitem (.here _)⟩
    | _ => cases hname
  | _ => cases h

theorem Evaluation.parse_of_read {levels : Nat} {text : Text} {e : Expr} (h : read levels text = .ok e) :
    Expr.parse (levels - readingLevels) text = .ok e := by
  unfold read at h
  split at h
  · rename_i hparse
    cases h
    exact hparse
  · cases h
  · split at h <;> cases h

/-- All names that statements bind are variables. -/
theorem Text.IsBound.isVariable {name : Text} (h : name.IsBound) : name.IsVariable := by
  cases h with
  | @header line h _ hread hname =>
    cases h with
    | forEach targets items =>
      obtain ⟨rest, hfor⟩ := Line.exists_readFor hread
      exact Line.isVariable_of_readFor hfor hname
    | onlyIf | whileTrue => cases hname
  | target hread hname =>
    obtain ⟨span, hnode⟩ := Expr.hasNode_of_bound hname
    exact Expr.isVariable_of_hasNode (Evaluation.parse_of_read hread) hnode
  | module hname => exact Library.isVariable_of_ofName? hname
  | member hfind =>
    exact Library.isVariable_member _ name (List.mem_map_of_mem (mem_of_lookup hfind))

/-! ## Reading a variable -/

/-- With room for one word, the text of a variable is read as the name. -/
theorem Text.IsVariable.read {name : Text} (h : name.IsVariable) {levels : Nat} (hlevels : 23 ≤ levels) :
    ∃ span, Evaluation.read levels name = .ok (.name span name) := by
  have hlexical : ∀ w ∈ [(⟨.name, name⟩ : Word)], w.IsLexical :=
    List.forall_mem_singleton.mpr (Word.isLexical_name h.identifier)
  obtain ⟨tokens, hscan, hwords⟩ := Token.scan_join hlexical
  rw [← Token.trim_join hlexical, List.map_singleton, Text.join_singleton] at hscan
  have hname : (Expr.name Expr.nowhere name).IsPrintable := by
    rw [Expr.IsPrintable]
    exact h
  have hroom : 10 * ((Expr.name Expr.nowhere name).words fun _ => false).length + 10 ≤
      levels - Evaluation.readingLevels := by
    show 10 * 1 + 10 ≤ levels - 3
    omega
  obtain ⟨e, hparse, hbare⟩ := Expr.exists_parse (fun _ => false) hname hroom hscan hwords
  cases e with
  | name span id =>
    cases hbare
    exact ⟨span, by rw [Evaluation.read, hparse]⟩
  | _ => cases hbare

/-- A variable that is bound evaluates to its value, and nothing changes. -/
theorem Engine.evaluate_variable (limits : Limits) {s : State} {name : Text} {v : Value}
    (hname : name.IsVariable) (hv : s.vars.find? name = some v) {levels : Nat} (hlevels : 25 ≤ levels) :
    (tower limits levels 0).evaluate name s = .ok v s := by
  obtain ⟨n, rfl⟩ : ∃ n, levels = n + 2 := ⟨levels - 2, by omega⟩
  have hroom : 23 ≤ n + 1 := by omega
  obtain ⟨span, hread⟩ := hname.read hroom
  have htrim : name.trim = name := (Word.isLexical_name hname.identifier).trimmed
  have hlook : Evaluation.lookUp name s = .ok v s := by
    rw [Evaluation.lookUp, Run.bind_of_ok (Run.get_apply s), hv]
    rfl
  have hvalue : Evaluation.nodeValue limits (room limits n) name (.name span name) s = .ok (.ok v) s := by
    show (Evaluation.lookUp name >>= fun v => pure (.ok v) : Run Found) s = _
    rw [Run.bind_apply, hlook]
    rfl
  have hnode : (tower limits (n + 1) 0).evaluateNode name (.name span name) s = .ok v s := by
    show Evaluation.node limits (room limits n) name (.name span name) s = _
    unfold Evaluation.node
    rw [Run.bind_apply, Run.mapFault_apply, hvalue]
    rfl
  show Run.mapFault (Fault.leaving name.trim) (do
    let e ← liftM (Evaluation.read (n + 1) name.trim)
    (tower limits (n + 1) 0).evaluateNode name.trim e) s = _
  rw [htrim, hread, Run.mapFault_apply, Run.bind_apply, Run.liftM_apply]
  simp only [hnode]

/-! ## States -/

namespace Variables

/-- A name that is bound anew keeps its place, another one comes behind the others. -/
theorem names_bind (name : Text) (v : Value) (bindings : List (Text × Value)) :
    (bind name v bindings).map Prod.fst =
      if name ∈ bindings.map Prod.fst then bindings.map Prod.fst
      else bindings.map Prod.fst ++ [name] := by
  induction bindings with
  | nil => rfl
  | cons p rest ih =>
    obtain ⟨other, old⟩ := p
    unfold bind
    by_cases hother : other = name
    · rw [if_pos hother, if_pos (hother ▸ List.mem_cons_self)]
      exact congrArg (· :: rest.map Prod.fst) hother.symm
    · have hmem : name ∈ ((other, old) :: rest).map Prod.fst ↔ name ∈ rest.map Prod.fst := by
        rw [List.map_cons, List.mem_cons]
        exact or_iff_right (Ne.symm hother)
      rw [if_neg hother, List.map_cons, ih]
      simp only [hmem]
      split <;> rfl

/-- Each variable is bound once, under a name that can be read. -/
structure AreNamed (vars : Variables) : Prop where
  readable : ∀ p ∈ vars.bindings, p.1.IsVariable
  nodup : (vars.bindings.map Prod.fst).Nodup

namespace AreNamed

variable {vars : Variables} {name : Text} {v : Value}

theorem empty : Variables.empty.AreNamed := ⟨fun _ hp => absurd hp List.not_mem_nil, .nil⟩

theorem set (h : vars.AreNamed) (hname : name.IsVariable) (v : Value) : (vars.set name v).AreNamed := by
  refine ⟨fun p hp => ?_, ?_⟩
  · rcases Run.mem_bind hp with rfl | hp
    · exact hname
    · exact h.readable p hp
  · show ((bind name v vars.bindings).map Prod.fst).Nodup
    rw [names_bind]
    split
    · exact h.nodup
    · rename_i hnew
      exact List.nodup_append.mpr ⟨h.nodup, List.pairwise_singleton _ _, fun other hother fresh hfresh =>
        fun heq => hnew (List.mem_singleton.mp hfresh ▸ heq ▸ hother)⟩

theorem find? (h : vars.AreNamed) (hp : (name, v) ∈ vars.bindings) : vars.find? name = some v := by
  obtain ⟨before, behind, hsplit⟩ := List.append_of_mem hp
  have hnodup := h.nodup
  rw [hsplit, List.map_append, List.nodup_append] at hnodup
  refine List.lookup_eq_some_iff.mpr ⟨before, behind, hsplit, fun p hbefore => ?_⟩
  exact bne_iff_ne.mpr (hnodup.2.2 p.1 (List.mem_map_of_mem hbefore) name List.mem_cons_self).symm

end AreNamed

end Variables

theorem NamedEffects.areNamed {limits : Limits} {s t : State}
    (h : NamedEffects limits Text.IsVariable s t) (hs : s.vars.AreNamed) : t.vars.AreNamed := by
  induction h with
  | none | object | refused | written | drawn => exact hs
  | trans _ _ ihs iht => exact iht (ihs hs)
  | bound s value hname => exact hs.set hname value
  | block _ _ ih => exact ih hs

namespace State.Reachable

variable {limits : Limits} {s : State}

theorem areNamed (hs : s.Reachable limits) : s.vars.AreNamed :=
  hs.keeps (fun _ h => h.isVariable) (fun _ _ => .empty) (fun _ h => h) fun _ _ heffects =>
    heffects.areNamed

theorem evaluate_variable (hs : s.Reachable limits) {name : Text} {v : Value}
    (hbound : (name, v) ∈ s.vars.bindings) {levels : Nat} (hlevels : 25 ≤ levels) :
    (Engine.tower limits levels 0).evaluate name s = .ok v s :=
  Engine.evaluate_variable limits (hs.areNamed.readable _ hbound) (hs.areNamed.find? hbound) hlevels

end State.Reachable

namespace Session

/-- Behind any steps of a session, and in every state that comes up inside of steps, all names that are
bound are variables, and the text of each evaluates to the value that is bound to it and changes nothing. -/
theorem variables_readable (limits : Limits) (clock : Moment) (seed : Nat) (steps : List Step) :
    let s := (initial limits clock seed).performAll steps
    (∀ name v, (name, v) ∈ s.state.vars.bindings →
      name.IsVariable ∧ s.evaluate name = (.ok v, s)) ∧
    ∀ t : State, t.Reachable limits → ∀ name v, (name, v) ∈ t.vars.bindings →
      name.IsVariable ∧ ∀ levels, 25 ≤ levels →
        (Engine.tower limits levels 0).evaluate name t = .ok v t := by
  intro s
  refine ⟨fun name v hbound => ?_, fun t ht name v hbound => ?_⟩
  · have hs : s.state.Reachable limits := reachable limits clock seed steps
    have hlimits : s.limits = limits := performAll_limits _ steps
    have hlevels : 25 ≤ Engine.startLevels := by decide
    have hvalue := hs.evaluate_variable hbound hlevels
    rw [← hlimits] at hvalue
    refine ⟨hs.areNamed.readable _ hbound, ?_⟩
    show s.run ((Engine.tower s.limits Engine.startLevels 0).evaluate name) = _
    rw [run, hvalue]
  · exact ⟨ht.areNamed.readable _ hbound, fun _ hlevels => ht.evaluate_variable hbound hlevels⟩

/-- The second target of an assignment, which a script binds before it fails. -/
theorem variables_readable_failed :
    let s := (initial .standard ⟨0⟩ 0).performAll [.run "a, b = 1, 2\nc = d"]
    s.state.vars.bindings = [(("a" : Text), Value.int 1), (("b" : Text), .int 2)] ∧
      s.evaluate "b" = (.ok (.int 2), s) := by
  intro s
  have hbindings : s.state.vars.bindings = [(("a" : Text), Value.int 1), (("b" : Text), .int 2)] := by
    decide +kernel
  have hbound : (("b" : Text), Value.int 2) ∈ s.state.vars.bindings := by
    rw [hbindings]
    exact List.mem_cons_of_mem _ List.mem_cons_self
  exact ⟨hbindings, ((variables_readable _ _ _ _).1 _ _ hbound).2⟩

end Session

end Scriptlet
