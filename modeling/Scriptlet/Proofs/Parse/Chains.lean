import Scriptlet.Proofs.Grammar.Uniqueness
import Scriptlet.Proofs.Parse

/-
  What the parser reads is what the grammar derives: operators and operands.

  `Settles s input after view` says of the outcome of a parser all that there is to say: if it gives
  something, the input begins with a phrase of the symbol `s` that what is left stops, and if it
  refuses, the input begins with no such phrase. As phrases are told apart by their words, a parser
  that settles its symbol finds every phrase there is.

  Each rule of the parser settles its symbol if the rules that it uses settle theirs.
-/

namespace Scriptlet

/-! ## Bare expressions, list by list -/

namespace Expr

theorem bareItems_eq (es : List Expr) : bareItems es = es.map bare := by
  induction es with
  | nil => rfl
  | cons e es ih => rw [bareItems, ih, List.map_cons]

theorem bareEntries_eq (entries : List (Expr × Expr)) :
    bareEntries entries = entries.map fun entry => (entry.1.bare, entry.2.bare) := by
  induction entries with
  | nil => rfl
  | cons entry entries ih => rw [bareEntries, ih, List.map_cons]

theorem bareKeywords_eq (keywords : List (Span × Text × Expr)) :
    bareKeywords keywords = keywords.map fun k => (nowhere, k.2.1, k.2.2.bare) := by
  induction keywords with
  | nil => rfl
  | cons k keywords ih => rw [bareKeywords, ih, List.map_cons]

theorem bareOperands_eq (operands : List (CompareOp × Expr)) :
    bareOperands operands = operands.map fun o => (o.1, o.2.bare) := by
  induction operands with
  | nil => rfl
  | cons o operands ih => rw [bareOperands, ih, List.map_cons]

end Expr

namespace Parse

/-! ## Outcomes -/

/-- The outcome agrees with the grammar, where `after` is read behind the phrase. -/
def Settles {α : Type} (s : Symbol) (input after : List Word) (view : α → s.Meaning → Prop) :
    Except ParseFault (α × Cursor) → Prop
  | .ok (a, c) => ∃ p : Phrase s,
      input = p.words ++ (after ++ c.words) ∧ s.Stops (after ++ c.words) ∧ view a p.meaning
  | .error fault => fault.IsRefusal ∧
      ∀ (p : Phrase s) (r : List Word), s.Stops (after ++ r) → input ≠ p.words ++ (after ++ r)

/-- What holds where a phrase is read, and where there is none, holds of the outcome. -/
theorem Settles.elim {α : Type} {s : Symbol} {input after : List Word}
    {view : α → s.Meaning → Prop} {outcome : Except ParseFault (α × Cursor)}
    (h : Settles s input after view outcome) {P : Except ParseFault (α × Cursor) → Prop}
    (hread : ∀ a c (p : Phrase s), input = p.words ++ (after ++ c.words) →
      s.Stops (after ++ c.words) → view a p.meaning → P (.ok (a, c)))
    (hnone : ∀ fault : ParseFault, fault.IsRefusal →
      (∀ (p : Phrase s) (r : List Word), s.Stops (after ++ r) → input ≠ p.words ++ (after ++ r)) →
      P (.error fault)) :
    P outcome := by
  match outcome, h with
  | .ok (a, c), ⟨p, hwords, hstops, hview⟩ => exact hread a c p hwords hstops hview
  | .error fault, ⟨hfault, hno⟩ => exact hnone fault hfault hno

theorem Settles.bind_elim {α β : Type} {s : Symbol} {input after : List Word}
    {view : α → s.Meaning → Prop} {parser : Parse α} {c : Cursor}
    (h : Settles s input after view (parser c)) {next : α → Parse β}
    {P : Except ParseFault (β × Cursor) → Prop}
    (hread : ∀ a c' (p : Phrase s), input = p.words ++ (after ++ c'.words) →
      s.Stops (after ++ c'.words) → view a p.meaning → P (next a c'))
    (hnone : ∀ fault : ParseFault, fault.IsRefusal →
      (∀ (p : Phrase s) (r : List Word), s.Stops (after ++ r) → input ≠ p.words ++ (after ++ r)) →
      P (.error fault)) :
    P ((parser >>= next) c) := by
  match hresult : parser c, h with
  | .ok (a, c'), ⟨p, hwords, hstops, hview⟩ =>
    rw [bind_of_ok hresult]
    exact hread a c' p hwords hstops hview
  | .error fault, ⟨hfault, hno⟩ =>
    rw [bind_of_error hresult]
    exact hnone fault hfault hno

/-- The parser settles expressions of the level on up to `n` words. -/
def Reads (l : Level) (parser : Parse Expr) (n : Nat) : Prop :=
  ∀ c, Lexed c.words → c.words.length ≤ n →
    Settles (.level l) c.words [] (fun e m => e.bare = m) (parser c)

/-- Every expression has words. -/
theorem words_ne_nil {l : Level} (p : Phrase (.level l)) : p.words ≠ [] := by
  obtain ⟨w, rest, hw, _⟩ := p.begins
  rw [hw]
  exact List.cons_ne_nil _ _

theorem length_words_pos {l : Level} (p : Phrase (.level l)) : 0 < p.words.length :=
  List.length_pos_iff.mpr (words_ne_nil p)

/-- What holds behind an expression of the level, and where there is none, holds of the parser that
goes on with it. What is left is shorter, and it is what every such expression leaves. -/
theorem Reads.bind_elim {β : Type} {l : Level} {parser : Parse Expr} {n : Nat} (h : Reads l parser n)
    {c : Cursor} (hc : Lexed c.words) (hn : c.words.length ≤ n) {next : Expr → Parse β}
    {P : Except ParseFault (β × Cursor) → Prop}
    (hread : ∀ e c' (p : Phrase (.level l)), Lexed c'.words → c'.words.length < c.words.length →
      c.words = p.words ++ c'.words → (Symbol.level l).Stops c'.words → e.bare = p.meaning →
      (∀ (q : Phrase (.level l)) (r : List Word), (Symbol.level l).Stops r →
        c.words = q.words ++ r → c'.words = r) → P (next e c'))
    (hnone : ∀ fault : ParseFault, fault.IsRefusal →
      (∀ (p : Phrase (.level l)) (r : List Word), (Symbol.level l).Stops r →
        c.words ≠ p.words ++ r) → P (.error fault)) :
    P ((parser >>= next) c) := by
  refine (h c hc hn).bind_elim (fun e c' p hsplit hstops hview => ?_) hnone
  have hsplit : c.words = p.words ++ c'.words := hsplit
  have hlength := congrArg List.length hsplit
  rw [List.length_append] at hlength
  have hpos := length_words_pos p
  exact hread e c' p (hsplit ▸ hc).of_append (by omega) hsplit hstops hview fun q r hr heq =>
    (p.decodes q _ _ hstops hr (hsplit.symm.trans heq)).2

/-! ## Chains -/

section Chain

variable {α : Type} {t : Tier} {operator : Parse (Option α)} {operand : Parse Expr}
  {build : Span → α → Expr → Expr → Expr} {joint : α → Joint} {n : Nat}

/-- The parser reads the operators of the tier. -/
def ReadsOperators (t : Tier) (joint : α → Joint) (operator : Parse (Option α)) : Prop :=
  ∀ c, Lexed c.words →
    (∃ op c', operator c = .ok (some op, c') ∧ (joint op).tier = some t ∧
      c.words = (joint op).word :: c'.words) ∨
    (operator c = .ok (none, c) ∧ ∀ op : Joint, op.tier = some t → c.words.head? ≠ some op.word)

/-- What stops an operand and begins with no operator of the tier stops the chain. -/
theorem stops_tail {t : Tier} {ws : List Word} (hstops : (Symbol.level t.operand).Stops ws)
    (hnone : ∀ op : Joint, op.tier = some t → ws.head? ≠ some op.word) :
    (Symbol.tail t).Stops ws := by
  have hlt : clings ws < t.operand.tightness := by cases t <;> exact hstops
  have hnext : t.operand.tightness = (Level.chain t).tightness + 1 := by cases t <;> rfl
  have hne : clings ws ≠ (Level.chain t).tightness := by
    intro heq
    obtain ⟨op, hop, hhead⟩ := exists_joint_of_clings heq
    exact hnone op hop hhead
  show clings ws < (Level.chain t).tightness
  omega

theorem leftChain_settles (hoperator : ReadsOperators t joint operator)
    (hoperand : Reads t.operand operand n)
    (hbuild : ∀ span op left right,
      (build span op left right).bare = (joint op).join left.bare right.bare)
    (start steps : Nat) (left : Expr) (c : Cursor) (hc : Lexed c.words) (hn : c.words.length ≤ n)
    (hsteps : c.words.length ≤ steps) (hstops : (Symbol.level t.operand).Stops c.words) :
    Settles (.tail t) c.words [] (fun e m => e.bare = m left.bare)
      (leftChain operator operand build start steps left c) := by
  induction steps generalizing left c with
  | zero =>
    have hnil : c.words = [] := List.length_eq_zero_iff.mp (Nat.le_zero.mp hsteps)
    rw [leftChain, pure_apply]
    exact ⟨.tailEnd, rfl, by rw [hnil]; exact Phrase.stops_nil _, rfl⟩
  | succ steps ih =>
    rw [leftChain]
    rcases hoperator c hc with ⟨op, c₁, hop, htier, hwords⟩ | ⟨hop, hnone⟩
    · rw [bind_of_ok hop]
      have hc₁ : Lexed c₁.words := (hwords ▸ hc).tail
      have hlength : c.words.length = c₁.words.length + 1 := by rw [hwords, List.length_cons]
      -- A phrase of this tail has to begin with the operator, and goes on with an operand.
      have htail : ∀ (p : Phrase (.tail t)) (r : List Word), (Symbol.tail t).Stops r →
          c.words = p.words ++ r → ∃ (e : Phrase (.level t.operand)) (rest : Phrase (.tail t)),
            c₁.words = e.words ++ (rest.words ++ r) := by
        intro p r hr heq
        cases p with
        | tailEnd =>
          have hr : clings r < (Level.chain t).tightness := hr
          have heq : c.words = r := heq
          rw [← heq, hwords, Joint.clings_eq htier] at hr
          exact absurd hr (Nat.lt_irrefl _)
        | tailMore op' _ e rest =>
          refine ⟨e, rest, ?_⟩
          simp only [Phrase.words, List.cons_append, List.append_assoc] at heq
          exact (List.cons.inj (hwords.symm.trans heq)).2
      refine hoperand.bind_elim hc₁ (by omega) (fun right c₂ e hc₂ hlt hsplit hstop hview honly => ?_)
        fun fault hfault hno => ⟨hfault, fun p r hr heq => ?_⟩
      · rw [bind_of_ok (spanFrom_apply start c₂)]
        refine (ih (build ⟨start, c₂.lastStop⟩ op left right) c₂ hc₂ (by omega) (by omega)
          hstop).elim (fun whole c₃ rest hsplit₂ hstop₂ hview₂ => ⟨.tailMore (joint op) htier e rest,
            ?_, hstop₂, ?_⟩) fun fault hfault hno => ⟨hfault, fun p r hr heq => ?_⟩
        · rw [hwords, hsplit, hsplit₂]
          simp only [Phrase.words, List.cons_append, List.append_assoc]
        · show whole.bare = rest.meaning ((joint op).join left.bare e.meaning)
          rw [hview₂, hbuild, hview]
        · obtain ⟨e', rest, hmore⟩ := htail p r hr heq
          exact hno rest r hr (honly e' _ (Phrase.stops_operand rest hr) hmore)
      · obtain ⟨e, rest, hmore⟩ := htail p r hr heq
        exact hno e _ (Phrase.stops_operand rest hr) hmore
    · rw [bind_of_ok hop]
      exact ⟨.tailEnd, rfl, stops_tail hstops hnone, rfl⟩

/-- A chain settles its level if its operands settle theirs. -/
theorem chain_reads (hoperator : ReadsOperators t joint operator)
    (hoperand : Reads t.operand operand n)
    (hbuild : ∀ span op left right,
      (build span op left right).bare = (joint op).join left.bare right.bare) :
    Reads (.chain t) (chain operator operand build) n := by
  intro c hc hn
  have hstops : ∀ {r : List Word}, (Symbol.level (.chain t)).Stops r → (Symbol.tail t).Stops r := by
    intro r hr
    cases t <;> exact hr
  rw [chain, bind_of_ok (position_apply c)]
  refine hoperand.bind_elim hc hn (fun first c₁ e hc₁ hlt hsplit hstop hview honly => ?_)
    fun fault hfault hno => ⟨hfault, fun p r hr heq => ?_⟩
  · rw [bind_of_ok (get_apply c₁)]
    refine (leftChain_settles hoperator hoperand hbuild (place c) c₁.rest.length first c₁ hc₁
      (by omega) (Nat.le_of_eq c₁.length_words) hstop).elim
        (fun whole c₂ rest hsplit₂ hstop₂ hview₂ => ⟨.chain e rest, ?_, by cases t <;> exact hstop₂,
          ?_⟩) fun fault hfault hno => ⟨hfault, fun p r hr heq => ?_⟩
    · rw [hsplit, hsplit₂]
      simp only [Phrase.words, List.append_assoc]
    · show whole.bare = rest.meaning e.meaning
      rw [hview₂, hview]
    · cases p with
      | chain e' rest =>
        simp only [Phrase.words, List.append_assoc] at heq
        exact hno rest r (hstops hr) (honly e' _ (Phrase.stops_operand rest (hstops hr)) heq)
  · cases p with
    | chain e rest =>
      simp only [Phrase.words, List.append_assoc] at heq
      exact hno e _ (Phrase.stops_operand rest (hstops hr)) heq

end Chain

/-! ## The operators of the chains -/

theorem word_readsOperators {t : Tier} {text : Text} {op : BoolOp}
    (htext : Joint.word (.boolean op) = .of text) (htier : (Joint.boolean op).tier = some t)
    (honly : ∀ op' : Joint, op'.tier = some t → op' = .boolean op) :
    ReadsOperators t Joint.boolean (word text op) := by
  intro c hc
  rcases accept_cases hc text with ⟨c', haccept, hwords⟩ | ⟨haccept, hhead⟩
  · left
    refine ⟨op, c', ?_, htier, by rw [hwords, htext]⟩
    simp only [word, bind_apply, haccept, if_true, pure_apply]
  · right
    refine ⟨?_, fun op' hop' => ?_⟩
    · simp only [word, bind_apply, haccept, Bool.false_eq_true, if_false, pure_apply]
    · rw [honly op' hop', htext]
      exact hhead

/-- The operators of the table stand between operands of the tier and are spelled as it says. -/
def IsTable (t : Tier) (table : List (Text × BinaryOp)) : Prop :=
  ∀ entry ∈ table, entry.1 ∈ Token.operators ∧ entry.1 = .ofString entry.2.symbol ∧
    (Joint.binary entry.2).tier = some t

theorem sumOperators_isTable : IsTable .sum sumOperators := by
  intro entry hentry
  simp only [sumOperators, List.mem_cons, List.not_mem_nil, or_false] at hentry
  rcases hentry with rfl | rfl <;>
    exact ⟨by simp [Token.operators], by simp [BinaryOp.symbol], rfl⟩

theorem productOperators_isTable : IsTable .product productOperators := by
  intro entry hentry
  simp only [productOperators, List.mem_cons, List.not_mem_nil, or_false] at hentry
  rcases hentry with rfl | rfl | rfl | rfl <;>
    exact ⟨by simp [Token.operators], by simp [BinaryOp.symbol], rfl⟩

theorem acceptOperator_readsOperators {t : Tier} {table : List (Text × BinaryOp)}
    (htable : IsTable t table)
    (honly : ∀ op : Joint, op.tier = some t → ∃ entry ∈ table, op = .binary entry.2) :
    ReadsOperators t Joint.binary (acceptOperator table) := by
  intro c hc
  rcases acceptOperator_cases hc (fun entry hentry => (htable entry hentry).1) with
    ⟨entry, hentry, c', haccept, hwords⟩ | ⟨haccept, hnone⟩
  · obtain ⟨-, htext, htier⟩ := htable entry hentry
    exact .inl ⟨entry.2, c', haccept, htier, by rw [hwords, htext]; rfl⟩
  · refine .inr ⟨haccept, fun op hop => ?_⟩
    obtain ⟨entry, hentry, rfl⟩ := honly op hop
    have hword : (Joint.binary entry.2).word = .of entry.1 := by
      rw [(htable entry hentry).2.1]
      rfl
    rw [hword]
    exact hnone entry hentry

theorem or_readsOperators : ReadsOperators .or Joint.boolean (word "or" .or) := by
  refine word_readsOperators rfl rfl fun op hop => ?_
  cases op with
  | boolean op => cases op <;> first | rfl | cases hop
  | binary op => cases op <;> cases hop

theorem and_readsOperators : ReadsOperators .and Joint.boolean (word "and" .and) := by
  refine word_readsOperators rfl rfl fun op hop => ?_
  cases op with
  | boolean op => cases op <;> first | rfl | cases hop
  | binary op => cases op <;> cases hop

theorem sum_readsOperators : ReadsOperators .sum Joint.binary (acceptOperator sumOperators) := by
  refine acceptOperator_readsOperators sumOperators_isTable fun op hop => ?_
  cases op with
  | boolean op => cases op <;> cases hop
  | binary op =>
    cases op <;> simp [Joint.tier, sumOperators] at hop ⊢

theorem product_readsOperators :
    ReadsOperators .product Joint.binary (acceptOperator productOperators) := by
  refine acceptOperator_readsOperators productOperators_isTable fun op hop => ?_
  cases op with
  | boolean op => cases op <;> cases hop
  | binary op =>
    cases op <;> simp [Joint.tier, productOperators] at hop ⊢

end Parse

end Scriptlet
