import Scriptlet.Proofs.Parse.Chains

/-
  What the parser reads is what the grammar derives: comparisons, signs and powers.
-/

namespace Scriptlet

namespace Parse

variable {n : Nat}

/-! ## Comparisons -/

/-- Operators that order are written with one word. -/
theorem of_mem_orderOperators {entry : Text × CompareOp} (h : entry ∈ orderOperators) :
    entry.1 ∈ Token.operators ∧ entry.2.words = [.of entry.1] ∧ entry.2 ≠ .isSame := by
  simp only [orderOperators, List.mem_cons, List.not_mem_nil, or_false] at h
  rcases h with rfl | rfl | rfl | rfl | rfl | rfl <;>
    exact ⟨by simp [Token.operators], rfl, by decide⟩

/-- A comparison operator orders, or `in` or `is` stands in it. -/
theorem words_compareOp (op : CompareOp) :
    (∃ entry ∈ orderOperators, entry.2 = op) ∨ op.words = [.of "in"] ∨
      op.words = [.of "not", .of "in"] ∨ op.words.head? = some (.of "is") := by
  cases op with
  | eq | ne | lt | gt | le | ge => exact .inl (by decide)
  | isIn => exact .inr (.inl rfl)
  | notIn => exact .inr (.inr (.inl rfl))
  | isSame | isNotSame => exact .inr (.inr (.inr rfl))

/-- Either a comparison operator is read, or none comes next. -/
theorem compareOperator_cases {c : Cursor} (hc : Lexed c.words) :
    (∃ (op : CompareOp) (c' : Cursor), compareOperator c = .ok (some op, c') ∧
        c.words = op.words ++ c'.words ∧ (op = .isSame → c'.words.head? ≠ some (.of "not"))) ∨
      (compareOperator c = .ok (none, c) ∧
        ∀ (op : CompareOp) (rest : List Word), c.words ≠ op.words ++ rest) := by
  unfold compareOperator
  simp only [bind_apply]
  rcases acceptOperator_cases hc (fun entry hentry => (of_mem_orderOperators hentry).1) with
    ⟨entry, hentry, c₁, haccept, hwords⟩ | ⟨haccept, hnone⟩
  · obtain ⟨-, hop, hne⟩ := of_mem_orderOperators hentry
    simp only [haccept, pure_apply]
    exact .inl ⟨entry.2, c₁, rfl, by rw [hwords, hop]; rfl, fun h => absurd h hne⟩
  simp only [haccept, bind_apply]
  rcases accept_cases hc "in" with ⟨c₁, hin, hwords⟩ | ⟨hin, hnotin⟩
  · simp only [hin, if_true, pure_apply]
    exact .inl ⟨.isIn, c₁, rfl, hwords, fun h => absurd h (by decide)⟩
  simp only [hin, Bool.false_eq_true, if_false, bind_apply, at?_apply hc, secondIs_apply hc]
  by_cases hboth : c.words.head? = some (.of "not") ∧ c.words.tail.head? = some (.of "in")
  · obtain ⟨hnot, hsecond⟩ := hboth
    obtain ⟨ws, hws⟩ := List.head?_eq_some_iff.mp hnot
    rw [hws, List.tail_cons] at hsecond
    obtain ⟨ws', rfl⟩ := List.head?_eq_some_iff.mp hsecond
    obtain ⟨c₁, hadvance₁, hc₁⟩ := advance_apply hws
    obtain ⟨c₂, hadvance₂, hc₂⟩ := advance_apply hc₁
    simp only [hws, List.head?_cons, List.tail_cons, decide_true, Bool.and_self, if_true, hadvance₁,
      bind_apply, hadvance₂, pure_apply]
    exact .inl ⟨.notIn, c₂, rfl, by rw [hc₂]; rfl, fun h => absurd h (by decide)⟩
  have hfalse : (decide (c.words.head? = some (Word.of "not")) &&
      decide (c.words.tail.head? = some (Word.of "in"))) = false := by
    simpa using hboth
  simp only [hfalse, Bool.false_eq_true, if_false, bind_apply]
  rcases accept_cases hc "is" with ⟨c₁, his, hwords⟩ | ⟨his, hnotis⟩
  · simp only [his, if_true, bind_apply]
    rcases accept_cases (hwords ▸ hc).tail "not" with ⟨c₂, hnot, hwords₂⟩ | ⟨hnot, hhead⟩
    · simp only [hnot, if_true, pure_apply]
      exact .inl ⟨.isNotSame, c₂, rfl, by rw [hwords, hwords₂]; rfl, fun h => absurd h (by decide)⟩
    · simp only [hnot, Bool.false_eq_true, if_false, pure_apply]
      exact .inl ⟨.isSame, c₁, rfl, hwords, fun _ => hhead⟩
  · simp only [his, Bool.false_eq_true, if_false, pure_apply]
    refine .inr ⟨trivial, fun op rest heq => ?_⟩
    rcases words_compareOp op with ⟨entry, hentry, rfl⟩ | hop | hop | hop
    · exact hnone entry hentry (by rw [heq, (of_mem_orderOperators hentry).2.1]; rfl)
    · exact hnotin (by rw [heq, hop]; rfl)
    · exact hboth (by rw [heq, hop]; exact ⟨rfl, rfl⟩)
    · exact hnotis (by rw [heq, List.head?_append, hop]; rfl)

/-- What stops a sum and begins with no comparison operator stops a comparison. -/
theorem stops_comparisons {ws : List Word} (hstops : (Symbol.level (.chain .sum)).Stops ws)
    (hnone : ∀ (op : CompareOp) (rest : List Word), ws ≠ op.words ++ rest) :
    Symbol.comparisons.Stops ws := by
  have hlt : clings ws < 4 := hstops
  have hne : clings ws ≠ 3 := by
    intro heq
    obtain ⟨op, rest, hws⟩ := exists_compareOp_of_clings heq
    exact hnone op rest hws
  show clings ws < 3
  omega

/-- Comparisons that begin with an operator go on with an operand behind it. -/
theorem exists_compared {op : CompareOp} {ws r : List Word} {p : Phrase .comparisons}
    (hsame : op = .isSame → ws.head? ≠ some (.of "not")) (hr : Symbol.comparisons.Stops r)
    (h : op.words ++ ws = p.words ++ r) :
    ∃ (e : Phrase (.level (.chain .sum))) (rest : Phrase .comparisons),
      ws = e.words ++ (rest.words ++ r) := by
  cases p with
  | comparisonsEnd =>
    have hr : clings r < Level.comparison.tightness := hr
    have h : op.words ++ ws = r := h
    rw [← h, CompareOp.clings_eq] at hr
    exact absurd hr (Nat.lt_irrefl _)
  | comparisonsMore op' e rest =>
    refine ⟨e, rest, ?_⟩
    simp only [Phrase.words, List.append_assoc] at h
    exact (CompareOp.words_inj hsame (fun _ => Phrase.not_begins_of_hasNot e rfl _) h).2

theorem comparisons_settles {operand : Parse Expr} (hoperand : Reads (.chain .sum) operand n)
    (steps : Nat) (done : List (CompareOp × Expr)) (c : Cursor) (hc : Lexed c.words)
    (hn : c.words.length ≤ n) (hsteps : c.words.length ≤ steps)
    (hstops : (Symbol.level (.chain .sum)).Stops c.words) :
    Settles .comparisons c.words []
      (fun operands m => Expr.bareOperands operands = Expr.bareOperands done.reverse ++ m)
      (comparisons operand steps done c) := by
  induction steps generalizing done c with
  | zero =>
    have hnil : c.words = [] := List.length_eq_zero_iff.mp (Nat.le_zero.mp hsteps)
    rw [comparisons, pure_apply]
    exact ⟨.comparisonsEnd, rfl, by rw [hnil]; exact Phrase.stops_nil _, (List.append_nil _).symm⟩
  | succ steps ih =>
    rw [comparisons]
    rcases compareOperator_cases hc with ⟨op, c₁, hop, hwords, hsame⟩ | ⟨hop, hnone⟩
    · rw [bind_of_ok hop]
      have hc₁ : Lexed c₁.words := (hwords ▸ hc).of_append
      have hlength : c₁.words.length < c.words.length := by
        rw [hwords, List.length_append]
        have : 0 < op.words.length := by cases op <;> simp [CompareOp.words]
        omega
      refine hoperand.bind_elim hc₁ (by omega) (fun right c₂ e hc₂ hlt hsplit hstop hview honly => ?_)
        fun fault hfault hno => ⟨hfault, fun p r hr heq => ?_⟩
      · refine (ih ((op, right) :: done) c₂ hc₂ (by omega) (by omega) hstop).elim
          (fun whole c₃ rest hsplit₂ hstop₂ hview₂ => ⟨.comparisonsMore op e rest, ?_, hstop₂, ?_⟩)
          fun fault hfault hno => ⟨hfault, fun p r hr heq => ?_⟩
        · rw [hwords, hsplit, hsplit₂]
          simp only [Phrase.words, List.append_assoc]
        · show Expr.bareOperands whole =
            Expr.bareOperands done.reverse ++ (op, e.meaning) :: rest.meaning
          rw [hview₂, ← hview]
          simp [Expr.bareOperands_eq]
        · obtain ⟨e', rest, hmore⟩ := exists_compared hsame hr (hwords.symm.trans heq)
          exact hno rest r hr (honly e' _ (Phrase.stops_comparisons rest hr) hmore)
      · obtain ⟨e, rest, hmore⟩ := exists_compared hsame hr (hwords.symm.trans heq)
        exact hno e _ (Phrase.stops_comparisons rest hr) hmore
    · rw [bind_of_ok hop]
      exact ⟨.comparisonsEnd, rfl, stops_comparisons hstops hnone, (List.append_nil _).symm⟩

theorem comparison_reads {room : Nat} (hsum : Reads (.chain .sum) (sum room) n) :
    Reads .comparison (comparison (room + 1)) n := by
  intro c hc hn
  rw [comparison, bind_of_ok (position_apply c)]
  refine hsum.bind_elim hc hn (fun first c₁ e hc₁ hlt hsplit hstop hview honly => ?_)
    fun fault hfault hno => ⟨hfault, fun p r hr heq => ?_⟩
  · rw [bind_of_ok (get_apply c₁)]
    refine (comparisons_settles hsum c₁.rest.length [] c₁ hc₁ (by omega)
      (Nat.le_of_eq c₁.length_words) hstop).bind_elim
        (fun operands c₂ rest hsplit₂ hstop₂ hview₂ => ?_)
        fun fault hfault hno => ⟨hfault, fun p r hr heq => ?_⟩
    · have hwords : c.words = (Phrase.comparison e rest).words ++ ([] ++ c₂.words) := by
        rw [hsplit, hsplit₂]
        simp only [Phrase.words, List.append_assoc]
      have hview₂ : Expr.bareOperands operands = rest.meaning := hview₂
      cases operands with
      | nil =>
        refine ⟨.comparison e rest, hwords, hstop₂, ?_⟩
        show first.bare = Phrase.compare e.meaning rest.meaning
        rw [← hview₂]
        exact hview
      | cons operand operands =>
        refine ⟨.comparison e rest, hwords, hstop₂, ?_⟩
        show Expr.bare (.compare _ first (operand :: operands)) =
          Phrase.compare e.meaning rest.meaning
        rw [← hview₂, Expr.bare, hview]
        simp only [Expr.bareOperands_eq, List.map_cons, Phrase.compare]
    · cases p with
      | comparison e' rest =>
        simp only [Phrase.words, List.append_assoc] at heq
        exact hno rest r hr (honly e' _ (Phrase.stops_comparisons rest hr) heq)
  · cases p with
    | comparison e rest =>
      simp only [Phrase.words, List.append_assoc] at heq
      exact hno e _ (Phrase.stops_comparisons rest hr) heq

/-! ## Negations -/

theorem negation_reads {room : Nat} (hself : 0 < n → Reads .negation (negation room) (n - 1))
    (hcomparison : Reads .comparison (comparison room) n) :
    Reads .negation (negation (room + 1)) n := by
  intro c hc hn
  rw [negation, bind_of_ok (position_apply c)]
  refine ite_accept_elim hc (fun c₁ hc₁ hwords => ?_) fun hhead => ?_
  · have hlength : c.words.length = c₁.words.length + 1 := by rw [hwords, List.length_cons]
    have hnot : ∀ (p : Phrase (.level .negation)) (r : List Word), c.words = p.words ++ r →
        ∃ e : Phrase (.level .negation), c₁.words = e.words ++ r := by
      intro p r heq
      cases p with
      | not e => exact ⟨e, (List.cons.inj (hwords.symm.trans heq)).2⟩
      | compared e =>
        exact absurd (congrArg List.head? (heq.symm.trans hwords))
          (Phrase.not_begins_of_hasNot e rfl r)
    refine (hself (by omega)).bind_elim hc₁ (by omega)
      (fun operand c₂ e _ _ hsplit hstop hview _ => ⟨.not e, by rw [hwords, hsplit]; rfl, hstop, ?_⟩)
      fun fault hfault hno => ⟨hfault, fun p r hr heq => ?_⟩
    · show Expr.unary _ _ operand.bare = Expr.unary _ _ e.meaning
      rw [hview]
    · obtain ⟨e, hmore⟩ := hnot p r heq
      exact hno e r hr hmore
  · refine (hcomparison c hc hn).elim
      (fun whole c₁ e hsplit hstop hview => ⟨.compared e, hsplit, hstop, hview⟩)
      fun fault hfault hno => ⟨hfault, fun p r hr heq => ?_⟩
    cases p with
    | not e => exact hhead (by rw [heq]; rfl)
    | compared e => exact hno e r hr heq

/-! ## Signs -/

/-- Either a sign is read, or none comes next. -/
theorem acceptSign_cases {c : Cursor} (hc : Lexed c.words) :
    (∃ (op : UnaryOp) (c' : Cursor), op ≠ .not ∧
        acceptOperator signOperators c = .ok (some op, c') ∧
        c.words = .of (.ofString op.symbol) :: c'.words) ∨
      (acceptOperator signOperators c = .ok (none, c) ∧
        ∀ op : UnaryOp, op ≠ .not → c.words.head? ≠ some (.of (.ofString op.symbol))) := by
  have htable : ∀ entry ∈ signOperators, entry.1 ∈ Token.operators ∧ entry.2 ≠ .not ∧
      entry.1 = .ofString entry.2.symbol := by
    intro entry hentry
    simp only [signOperators, List.mem_cons, List.not_mem_nil, or_false] at hentry
    rcases hentry with rfl | rfl <;>
      exact ⟨by simp [Token.operators], by decide, by simp [UnaryOp.symbol]⟩
  rcases acceptOperator_cases hc (fun entry hentry => (htable entry hentry).1) with
    ⟨entry, hentry, c', haccept, hwords⟩ | ⟨haccept, hnone⟩
  · obtain ⟨-, hop, htext⟩ := htable entry hentry
    exact .inl ⟨entry.2, c', hop, haccept, by rw [hwords, htext]⟩
  · refine .inr ⟨haccept, fun op hop => ?_⟩
    cases op with
    | negative => exact hnone ("-", .negative) (by simp [signOperators])
    | positive => exact hnone ("+", .positive) (by simp [signOperators])
    | not => exact absurd rfl hop

theorem factor_reads {room : Nat} (hself : 0 < n → Reads .factor (factor room) (n - 1))
    (hpower : Reads .power (power room) n) : Reads .factor (factor (room + 1)) n := by
  intro c hc hn
  rw [factor, bind_of_ok (position_apply c)]
  rcases acceptSign_cases hc with ⟨op, c₁, hop, haccept, hwords⟩ | ⟨haccept, hhead⟩
  · rw [bind_of_ok haccept]
    have hlength : c.words.length = c₁.words.length + 1 := by rw [hwords, List.length_cons]
    have hsigned : ∀ (p : Phrase (.level .factor)) (r : List Word), c.words = p.words ++ r →
        ∃ e : Phrase (.level .factor), c₁.words = e.words ++ r := by
      intro p r heq
      cases p with
      | signed op' _ e => exact ⟨e, (List.cons.inj (hwords.symm.trans heq)).2⟩
      | unsigned e =>
        exact absurd (congrArg List.head? (heq.symm.trans hwords))
          (Phrase.not_begins_of_hasSigns e rfl hop r)
    refine (hself (by omega)).bind_elim (hwords ▸ hc).tail (by omega)
      (fun operand c₂ e _ _ hsplit hstop hview _ =>
        ⟨.signed op hop e, by rw [hwords, hsplit]; rfl, hstop, ?_⟩)
      fun fault hfault hno => ⟨hfault, fun p r hr heq => ?_⟩
    · show Expr.unary _ _ operand.bare = Expr.unary _ _ e.meaning
      rw [hview]
    · obtain ⟨e, hmore⟩ := hsigned p r heq
      exact hno e r hr hmore
  · rw [bind_of_ok haccept]
    refine (hpower c hc hn).elim
      (fun whole c₁ e hsplit hstop hview => ⟨.unsigned e, hsplit, hstop, hview⟩)
      fun fault hfault hno => ⟨hfault, fun p r hr heq => ?_⟩
    cases p with
    | signed op hop e => exact hhead op hop (by rw [heq]; rfl)
    | unsigned e => exact hno e r hr heq

/-! ## Powers -/

theorem power_reads {room : Nat} (hprimary : Reads .primary (primary room) n)
    (hfactor : 0 < n → Reads .factor (factor room) (n - 1)) :
    Reads .power (power (room + 1)) n := by
  intro c hc hn
  rw [power, bind_of_ok (position_apply c)]
  refine hprimary.bind_elim hc hn (fun base c₁ e hc₁ hlt hsplit hstop hview honly => ?_)
    fun fault hfault hno => ⟨hfault, fun p r hr heq => ?_⟩
  · refine ite_accept_elim hc₁ (fun c₂ hc₂ hwords => ?_) fun hhead => ?_
    · have hlength : c₁.words.length = c₂.words.length + 1 := by rw [hwords, List.length_cons]
      have hpower : ∀ (p : Phrase (.level .power)) (r : List Word), (Symbol.level .power).Stops r →
          c.words = p.words ++ r → ∃ exponent : Phrase (.level .factor),
            c₂.words = exponent.words ++ r := by
        intro p r hr heq
        have hr : clings r < Level.power.tightness := hr
        cases p with
        | base e' =>
          rw [← honly e' r (Nat.lt_succ_of_lt hr) heq, hwords, Phrase.clings_power] at hr
          exact absurd hr (Nat.lt_irrefl _)
        | power e' exponent =>
          simp only [Phrase.words, List.append_assoc, List.cons_append] at heq
          exact ⟨exponent, (List.cons.inj
            (hwords.symm.trans (honly e' _ (Phrase.stops_power _) heq))).2⟩
      refine (hfactor (by omega)).bind_elim hc₂ (by omega)
        (fun value c₃ exponent _ _ hsplit₂ hstop₂ hview₂ _ => ⟨.power e exponent, ?_, hstop₂, ?_⟩)
        fun fault hfault hno => ⟨hfault, fun p r hr heq => ?_⟩
      · rw [hsplit, hwords, hsplit₂]
        simp only [Phrase.words, List.append_assoc, List.cons_append, List.nil_append]
      · show Expr.binary _ _ base.bare value.bare = Expr.binary _ _ e.meaning exponent.meaning
        rw [hview, hview₂]
      · obtain ⟨exponent, hmore⟩ := hpower p r hr heq
        exact hno exponent r hr hmore
    · refine ⟨.base e, hsplit, ?_, hview⟩
      have hlt : clings c₁.words < Level.primary.tightness := hstop
      have hne : clings c₁.words ≠ Level.power.tightness :=
        fun heq => hhead (head_of_clings_power heq)
      show clings c₁.words < 6
      exact Nat.lt_of_le_of_ne (Nat.le_of_lt_succ hlt) hne
  · cases p with
    | base e => exact hno e r (Nat.lt_succ_of_lt hr) heq
    | power e exponent =>
      simp only [Phrase.words, List.append_assoc, List.cons_append] at heq
      exact hno e _ (Phrase.stops_power _) heq

end Parse

end Scriptlet
