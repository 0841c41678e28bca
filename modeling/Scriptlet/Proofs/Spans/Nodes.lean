import Scriptlet.Proofs.Spans.Standing

/-
  The nodes of an expression stand where their spans say.

  A node is exact if it is what a list of one expression means where that list stands, and its span goes
  from the first of the words there to the last. In the meaning of a phrase at its place, every node is
  exact. Chains and suffixes build from the left, so for these the induction carries the phrase of what
  has been built so far.

  What is proved:
    1. `Phrase.nodes_exact` — this, for the meanings of all symbols.
-/

namespace Scriptlet

namespace Expr

/-- The expressions right below. -/
def children : Expr → List Expr
  | .literal _ _ => []
  | .name _ _ => []
  | .list _ items => items
  | .tuple _ items => items
  | .set _ items => items
  | .dict _ entries => entries.flatMap fun entry => [entry.1, entry.2]
  | .attribute _ target _ => [target]
  | .subscript _ target index => [target, index]
  | .sliced _ target _ lower upper step =>
    target :: (lower.toList ++ (upper.toList ++ step.toList))
  | .call _ callee args keywords => callee :: (args ++ keywords.map (·.2.2))
  | .unary _ _ operand => [operand]
  | .binary _ _ left right => [left, right]
  | .boolean _ _ left right => [left, right]
  | .compare _ left rest => left :: rest.map (·.2)

/-- The nodes of an expression are itself and those of the expressions right below. -/
inductive HasNode : Expr → Expr → Prop
  | here (e : Expr) : HasNode e e
  | inside {e child n : Expr} : child ∈ e.children → HasNode child n → HasNode e n

end Expr

/-- The expressions that a meaning is made of, if it is not one itself and does not wait for one. -/
def Symbol.parts : (s : Symbol) → s.Meaning → List Expr
  | .level _, _ => []
  | .tail _, _ => []
  | .comparisons, m => m.map (·.2)
  | .suffixes, _ => []
  | .items, m => m
  | .entries, m => m.flatMap fun entry => [entry.1, entry.2]
  | .arguments _, m => m.1 ++ m.2.map (·.2.2)
  | .index, .single e => [e]
  | .index, .slice _ lower upper step => lower.toList ++ (upper.toList ++ step.toList)
  | .bounds _, m => m.flatMap Option.toList
  | .part, m => m.toList

open Parse (Stands spanAt)

variable {tokens : List Token} {i : Nat}

/-- The expression is what a list of one expression means where it stands, and its span says where. -/
def Expr.IsExact (tokens : List Token) (n : Expr) : Prop :=
  ∃ (p : Phrase (.level .list)) (i : Nat), Stands tokens i p.words ∧
    n = p.located (spanAt tokens) i i ∧ n.span = spanAt tokens i (i + p.count)

/-- All nodes of the expression are exact. -/
def Expr.NodesExact (tokens : List Token) (e : Expr) : Prop := ∀ n, e.HasNode n → n.IsExact tokens

namespace Phrase

theorem nodesExact {l : Level} {p : Phrase (.level l)} {j : Nat} (hp : Parse.Fills tokens i j p.words)
    (hspan : (p.located (spanAt tokens) i i).span = spanAt tokens i j)
    (hchildren : ∀ child ∈ (p.located (spanAt tokens) i i).children, child.NodesExact tokens) :
    (p.located (spanAt tokens) i i).NodesExact tokens := by
  intro n hn
  cases hn with
  | here =>
    obtain ⟨q, hwords, hlocated⟩ := p.exists_list
    refine ⟨q, i, hwords ▸ hp.stands, (hlocated _ _).symm, ?_⟩
    rw [hspan, hp.stop, count, hwords]
  | inside hchild hn => exact hchildren _ hchild n hn

section Loops

variable {s : Symbol} {run : Phrase s → Nat → Nat → Expr → Expr}

/-- What `run` builds of `left` with the phrase has exact nodes, if `left` has. Of `left` it is said
that phrases of the level begin with its words `ws`, whatever phrase comes behind it. -/
def BuildsExact (tokens : List Token) (l : Level) (run : Phrase s → Nat → Nat → Expr → Expr)
    (rest : Phrase s) : Prop :=
  ∀ (before : Phrase s → Phrase (.level l)) (ws : List Word) (origin i : Nat) (left : Expr),
    (∀ r, (before r).words = ws ++ r.words) → i = origin + ws.length →
    (∀ r, (before r).located (spanAt tokens) origin origin = run r origin i left) →
    Stands tokens origin (ws ++ rest.words) → left.NodesExact tokens →
      (run rest origin i left).NodesExact tokens

/-- One more step with the words `us` keeps this; `stop` is the phrase without a step. -/
theorem BuildsExact.cons (stop : Phrase s) (us : List Word) {l : Level} {rest : Phrase s}
    {grow : Phrase s → Phrase s} {next : Nat → Nat} {build : Nat → Nat → Expr → Expr}
    (hrest : BuildsExact tokens l run rest) (hwords : ∀ r, (grow r).words = us ++ r.words)
    (hnext : ∀ i, next i = i + us.length)
    (hrun : ∀ r origin i left, run (grow r) origin i left = run r origin (next i) (build origin i left))
    (hstop : stop.words = [] ∧ ∀ origin i left, run stop origin i left = left)
    (hspan : ∀ origin i left, (build origin i left).span = spanAt tokens origin (next i))
    (hchildren : ∀ origin i left, Stands tokens i us → left.NodesExact tokens →
      ∀ child ∈ (build origin i left).children, child.NodesExact tokens) :
    BuildsExact tokens l run (grow rest) := by
  rintro before ws origin i left hbefore rfl hlocated hstands hleft
  rw [hwords, ← List.append_assoc] at hstands
  obtain ⟨hbuilt, -⟩ := Parse.stands_append.mp hstands
  obtain ⟨-, hus⟩ := Parse.stands_append.mp hbuilt
  have hlocated' : ∀ r, (before (grow r)).located (spanAt tokens) origin origin =
      run r origin (next (origin + ws.length)) (build origin (origin + ws.length) left) :=
    fun r => (hlocated _).trans (hrun ..)
  have hbefore' : ∀ r, (before (grow r)).words = ws ++ us ++ r.words := fun r => by
    rw [hbefore, hwords, List.append_assoc]
  have hi : next (origin + ws.length) = origin + (ws ++ us).length := by
    rw [hnext, List.length_append, Nat.add_assoc]
  rw [hrun]
  refine hrest (fun r => before (grow r)) (ws ++ us) origin _ _ hbefore' hi hlocated' hstands ?_
  -- What has been built so far is what the phrase means that stops here.
  have hwhole : (before (grow stop)).words = ws ++ us := by
    rw [hbefore', hstop.1, List.append_nil]
  have hmeaning : (before (grow stop)).located (spanAt tokens) origin origin =
      build origin (origin + ws.length) left := by
    rw [hlocated', hstop.2]
  rw [← hmeaning]
  refine Phrase.nodesExact ⟨hwhole ▸ hbuilt, hwhole ▸ hi⟩ (by rw [hmeaning, hspan]) ?_
  rw [hmeaning]
  exact hchildren _ _ _ hus hleft

end Loops

/-- What is to be shown of the phrases of each symbol. -/
def NodesExact (tokens : List Token) : {s : Symbol} → Phrase s → Prop
  | .level _, p => ∀ i, Stands tokens i p.words →
      Expr.NodesExact tokens (p.located (spanAt tokens) i i)
  | .tail t, rest => BuildsExact tokens (.chain t)
      (fun r : Phrase (.tail t) => r.located (spanAt tokens)) rest
  | .suffixes, rest => BuildsExact tokens .primary
      (fun r : Phrase .suffixes => r.located (spanAt tokens)) rest
  | s, p => ∀ i, Stands tokens i p.words →
      ∀ e ∈ s.parts (p.located (spanAt tokens) i i), e.NodesExact tokens

theorem parts_sliceOf {bounds : Span} {lower : Option Expr} {parts : List (Option Expr)} {e : Expr}
    (he : e ∈ Symbol.index.parts (.sliceOf bounds lower parts)) :
    e ∈ lower.toList ∨ e ∈ parts.flatMap Option.toList := by
  match parts with
  | [] => simpa [Parse.Index.sliceOf, Symbol.parts] using he
  | [_] => simpa [Parse.Index.sliceOf, Symbol.parts] using he
  | _ :: _ :: _ =>
    simp only [Parse.Index.sliceOf, Symbol.parts, List.mem_append] at he
    simp only [List.flatMap_cons, List.mem_append]
    exact he.imp_right fun h => h.imp_right .inl

open Parse (stands_append)

/-- A step of a chain adds a node, whose children are what was built before and the operand. -/
theorem NodesExact.tailMore {t : Tier} {op : Joint} {hop : op.tier = some t}
    {e : Phrase (.level t.operand)} {rest : Phrase (.tail t)} (he : e.NodesExact tokens)
    (hrest : rest.NodesExact tokens) : (Phrase.tailMore op hop e rest).NodesExact tokens := by
  refine .cons tailEnd (op.word :: e.words) hrest (fun _ => rfl) (fun _ => Nat.add_right_comm ..)
    (fun _ _ _ _ => rfl) ⟨rfl, fun _ _ _ => rfl⟩ (fun _ _ _ => by cases op <;> rfl) ?_
  rintro origin i left ⟨-, hright⟩ hleft
  have hchildren := List.forall_mem_cons.mpr ⟨hleft, List.forall_mem_singleton.mpr (he _ hright)⟩
  cases op <;> exact hchildren

theorem NodesExact.comparison {first : Phrase (.level (.chain .sum))} {rest : Phrase .comparisons}
    (hfirst : first.NodesExact tokens) (hrest : rest.NodesExact tokens) :
    (Phrase.comparison first rest).NodesExact tokens := by
  intro i hi
  obtain ⟨he, hmore⟩ := stands_append.mp hi
  cases hlocated : rest.located (spanAt tokens) (i + first.count) (i + first.count) with
  | nil =>
    -- Nothing is compared, so there is no node here.
    rw [located, hlocated]
    exact hfirst i he
  | cons operand operands =>
    have hcompare : (Phrase.comparison first rest).located (spanAt tokens) i i =
        .compare (spanAt tokens i (i + first.count + rest.count))
          (first.located (spanAt tokens) i i) (operand :: operands) := by
      rw [located, hlocated]
      rfl
    have hoperands : ∀ e ∈ Symbol.comparisons.parts (operand :: operands), e.NodesExact tokens :=
      hlocated ▸ hrest _ hmore
    refine Phrase.nodesExact (he.fills.append hmore.fills) (by rw [hcompare]; rfl) ?_
    rw [hcompare]
    exact List.forall_mem_cons.mpr ⟨hfirst i he, hoperands⟩

theorem NodesExact.call {args : Phrase (.arguments false)} {rest : Phrase .suffixes}
    (hargs : args.NodesExact tokens) (hrest : rest.NodesExact tokens) :
    (Phrase.call args rest).NodesExact tokens := by
  refine .cons suffixesEnd (.of "(" :: (args.words ++ [.of ")"])) hrest (fun _ => ?_) (fun _ => ?_)
    (fun _ _ _ _ => rfl) ⟨rfl, fun _ _ _ => rfl⟩ (fun _ _ _ => rfl) ?_
  · simp only [words, List.cons_append, List.append_assoc, List.nil_append]
  · simp only [count, List.length_append, List.length_cons, List.length_nil]
    omega
  · rintro origin i target ⟨-, hi⟩ htarget
    exact List.forall_mem_cons.mpr ⟨htarget, hargs _ (stands_append.mp hi).1⟩

theorem NodesExact.subscript {inner : Phrase .index} {rest : Phrase .suffixes}
    (hinner : inner.NodesExact tokens) (hrest : rest.NodesExact tokens) :
    (Phrase.subscript inner rest).NodesExact tokens := by
  refine .cons suffixesEnd (.of "[" :: (inner.words ++ [.of "]"])) hrest (fun _ => ?_) (fun _ => ?_)
    (fun _ _ _ _ => rfl) ⟨rfl, fun _ _ _ => rfl⟩ (fun _ i _ => ?_) ?_
  · simp only [words, List.cons_append, List.append_assoc, List.nil_append]
  · simp only [count, List.length_append, List.length_cons, List.length_nil]
    omega
  · cases inner.located (spanAt tokens) (i + 1) (i + 1) <;> rfl
  · rintro origin i target ⟨-, hi⟩ htarget
    have hparts := List.forall_mem_cons.mpr ⟨htarget, hinner _ (stands_append.mp hi).1⟩
    cases hlocated : inner.located (spanAt tokens) (i + 1) (i + 1) <;>
      · rw [hlocated] at hparts
        exact hparts

theorem nodes_exact {s : Symbol} (p : Phrase s) : p.NodesExact tokens := by
  induction p with
  | single e ih => exact ih
  | commas e rest he hrest =>
    intro i hi
    obtain ⟨hfirst, hcomma, hmore⟩ := stands_append.mp hi
    exact Phrase.nodesExact (hfirst.fills.append_cons hcomma hmore.fills) rfl
      (List.forall_mem_cons.mpr ⟨he i hfirst, hrest _ hmore⟩)
  | chain first rest hfirst hrest =>
    intro i hi
    obtain ⟨he, -⟩ := stands_append.mp hi
    exact hrest (chain first) first.words i _ _ (fun _ => rfl) rfl (fun _ => rfl) hi (hfirst i he)
  | tailEnd => exact fun _ _ _ _ _ _ _ _ _ hleft => hleft
  | tailMore op hop e rest he hrest => exact .tailMore he hrest
  | not e ih =>
    exact fun i hi => Phrase.nodesExact (.cons hi.1 hi.2.fills) rfl
      (List.forall_mem_singleton.mpr (ih _ hi.2))
  | compared e ih => exact ih
  | comparison first rest hfirst hrest => exact .comparison hfirst hrest
  | comparisonsEnd => exact fun _ _ => List.forall_mem_nil _
  | comparisonsMore op e rest he hrest =>
    intro i hi
    obtain ⟨-, hmore⟩ := stands_append.mp hi
    obtain ⟨hright, hmore⟩ := stands_append.mp hmore
    exact List.forall_mem_cons.mpr ⟨he _ hright, hrest _ hmore⟩
  | signed op hop e ih =>
    exact fun i hi => Phrase.nodesExact (.cons hi.1 hi.2.fills) rfl
      (List.forall_mem_singleton.mpr (ih _ hi.2))
  | unsigned e ih => exact ih
  | base e ih => exact ih
  | power e exponent he hexponent =>
    intro i hi
    obtain ⟨hbase, hpow, hmore⟩ := stands_append.mp hi
    exact Phrase.nodesExact (hbase.fills.append_cons hpow hmore.fills) rfl
      (List.forall_mem_cons.mpr ⟨he i hbase, List.forall_mem_singleton.mpr (hexponent _ hmore)⟩)
  | primary e rest he hrest =>
    intro i hi
    obtain ⟨hatom, -⟩ := stands_append.mp hi
    exact hrest (primary e) e.words i _ _ (fun _ => rfl) rfl (fun _ => rfl) hi (he i hatom)
  | suffixesEnd => exact fun _ _ _ _ _ _ _ _ _ htarget => htarget
  | call args rest hargs hrest => exact .call hargs hrest
  | attr label hlabel rest hrest =>
    exact .cons suffixesEnd [.of ".", ⟨.name, label⟩] hrest (fun _ => rfl) (fun _ => rfl)
      (fun _ _ _ _ => rfl) ⟨rfl, fun _ _ _ => rfl⟩ (fun _ _ _ => rfl)
      fun _ _ _ _ htarget => List.forall_mem_singleton.mpr htarget
  | subscript inner rest hinner hrest => exact .subscript hinner hrest
  | argumentsEnd => exact fun _ _ => List.forall_mem_nil _
  | positional e ih => exact fun i hi => List.forall_mem_singleton.mpr (ih i hi)
  | positionalMore e rest he hrest =>
    intro i hi
    obtain ⟨hfirst, -, hmore⟩ := stands_append.mp hi
    exact List.forall_mem_cons.mpr ⟨he i hfirst, hrest _ hmore⟩
  -- The label of an argument is no node, its value is.
  | keyword label e ih => exact fun i hi => List.forall_mem_singleton.mpr (ih _ hi.2.2)
  | keywordMore label e rest he hrest =>
    intro i hi
    obtain ⟨hvalue, -, hmore⟩ := stands_append.mp hi.2.2
    obtain ⟨hargs, hkeywords⟩ := List.forall_mem_append.mp (hrest _ hmore)
    exact List.forall_mem_append.mpr ⟨hargs, List.forall_mem_cons.mpr ⟨he _ hvalue, hkeywords⟩⟩
  | index e ih => exact fun i hi => List.forall_mem_singleton.mpr (ih i hi)
  | slice lower rest hlower hrest =>
    intro i hi e he
    obtain ⟨hfirst, -, hmore⟩ := stands_append.mp hi
    rcases parts_sliceOf he with he | he
    · exact hlower i hfirst e he
    · exact hrest _ hmore e he
  | bound e ih =>
    intro i hi
    exact List.forall_mem_append.mpr ⟨ih i hi, List.forall_mem_nil _⟩
  | boundMore e rest he hrest =>
    intro i hi
    obtain ⟨hfirst, -, hmore⟩ := stands_append.mp hi
    exact List.forall_mem_append.mpr ⟨he i hfirst, hrest _ hmore⟩
  | absent => exact fun _ _ => List.forall_mem_nil _
  | present e ih => exact fun i hi => List.forall_mem_singleton.mpr (ih i hi)
  | itemsEnd => exact fun _ _ => List.forall_mem_nil _
  | item e ih => exact fun i hi => List.forall_mem_singleton.mpr (ih i hi)
  | itemMore e rest he hrest =>
    intro i hi
    obtain ⟨hfirst, -, hmore⟩ := stands_append.mp hi
    exact List.forall_mem_cons.mpr ⟨he i hfirst, hrest _ hmore⟩
  | entriesEnd => exact fun _ _ => List.forall_mem_nil _
  | entry key value hkey hvalue =>
    intro i hi
    obtain ⟨hfirst, -, hmore⟩ := stands_append.mp hi
    exact List.forall_mem_cons.mpr ⟨hkey i hfirst, List.forall_mem_singleton.mpr (hvalue _ hmore)⟩
  | entryMore key value rest hkey hvalue hrest =>
    intro i hi
    obtain ⟨hfirst, -, hmore⟩ := stands_append.mp hi
    obtain ⟨hsecond, -, hmore⟩ := stands_append.mp hmore
    exact List.forall_mem_cons.mpr
      ⟨hkey i hfirst, List.forall_mem_cons.mpr ⟨hvalue _ hsecond, hrest _ hmore⟩⟩
  | number text => exact fun i hi => Phrase.nodesExact hi.fills rfl (List.forall_mem_nil _)
  | string text => exact fun i hi => Phrase.nodesExact hi.fills rfl (List.forall_mem_nil _)
  | constant text value hvalue =>
    exact fun i hi => Phrase.nodesExact hi.fills rfl (List.forall_mem_nil _)
  | name text hname => exact fun i hi => Phrase.nodesExact hi.fills rfl (List.forall_mem_nil _)
  | unit => exact fun i hi => Phrase.nodesExact hi.fills rfl (List.forall_mem_nil _)
  -- Parentheses around an expression are no part of its node.
  | group e ih => exact fun i hi => ih _ (stands_append.mp hi.2).1
  | tuple e rest he hrest =>
    rintro i ⟨hopen, hi⟩
    obtain ⟨hfirst, hcomma, hmore⟩ := stands_append.mp hi
    obtain ⟨hitems, hclose, -⟩ := stands_append.mp hmore
    exact Phrase.nodesExact
      (.cons hopen (hfirst.fills.append_cons hcomma (hitems.fills.append_single hclose))) rfl
      (List.forall_mem_cons.mpr ⟨he _ hfirst, hrest _ hitems⟩)
  | list rest ih =>
    rintro i ⟨hopen, hi⟩
    obtain ⟨hitems, hclose, -⟩ := stands_append.mp hi
    exact Phrase.nodesExact (.cons hopen (hitems.fills.append_single hclose)) rfl (ih _ hitems)
  | dict rest ih =>
    rintro i ⟨hopen, hi⟩
    obtain ⟨hentries, hclose, -⟩ := stands_append.mp hi
    exact Phrase.nodesExact (.cons hopen (hentries.fills.append_single hclose)) rfl (ih _ hentries)
  | singleton e ih =>
    rintro i ⟨hopen, hi⟩
    obtain ⟨hitem, hclose, -⟩ := stands_append.mp hi
    exact Phrase.nodesExact (.cons hopen (hitem.fills.append_single hclose)) rfl
      (List.forall_mem_singleton.mpr (ih _ hitem))
  | set e rest he hrest =>
    rintro i ⟨hopen, hi⟩
    obtain ⟨hfirst, hcomma, hmore⟩ := stands_append.mp hi
    obtain ⟨hitems, hclose, -⟩ := stands_append.mp hmore
    exact Phrase.nodesExact
      (.cons hopen (hfirst.fills.append_cons hcomma (hitems.fills.append_single hclose))) rfl
      (List.forall_mem_cons.mpr ⟨he _ hfirst, hrest _ hitems⟩)

end Phrase

end Scriptlet
