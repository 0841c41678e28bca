import Scriptlet.Proofs.Grammar.Words

/-
  The grammar is unambiguous.

  What is proved:
    1. `Phrase.decodes` — words are split in one way into a phrase and words that stop it.
    2. `Phrase.words_injective` — phrases of a symbol are told apart by their words.

  The induction is on one of two phrases with the same words. Where both are built in the same way,
  their parts agree one after the other, as what follows each part stops it; otherwise their words
  differ at the start, or behind the first part.
-/

namespace Scriptlet

namespace Phrase

/-! ## Words are split in one way -/

/-- The words of a phrase and what follows are split in no other way, if what follows stops it. -/
def Decodes {s : Symbol} (p : Phrase s) : Prop :=
  ∀ (q : Phrase s) (r r' : List Word), s.Stops r → s.Stops r' → p.words ++ r = q.words ++ r' →
    p = q ∧ r = r'

/-- In front of a word that stops it, a phrase is split off in one way. -/
theorem Decodes.before {s : Symbol} {p q : Phrase s} (hp : p.Decodes) {w : Word} {r r' : List Word}
    (hw : ∀ rest, s.Stops (w :: rest)) (h : p.words ++ w :: r = q.words ++ w :: r') :
    p = q ∧ r = r' := by
  obtain ⟨rfl, hend⟩ := hp q _ _ (hw r) (hw r') h
  exact ⟨rfl, (List.cons.inj hend).2⟩

/-- A chain lets no operator of the next tier through. -/
theorem stops_operand {t : Tier} (p : Phrase (.tail t)) {r : List Word}
    (hr : (Symbol.tail t).Stops r) : (Symbol.level t.operand).Stops (p.words ++ r) := by
  have hlt : (Level.chain t).tightness < t.operand.tightness := by cases t <;> decide
  have hstops : clings (p.words ++ r) < t.operand.tightness := by
    cases p with
    | tailEnd => exact Nat.lt_trans hr hlt
    | tailMore op hop e rest =>
      show clings (op.word :: _) < _
      rw [Joint.clings_eq hop]
      exact hlt
  cases t <;> exact hstops

theorem stops_comparisons (p : Phrase .comparisons) {r : List Word}
    (hr : Symbol.comparisons.Stops r) : clings (p.words ++ r) < (Level.chain .sum).tightness := by
  cases p with
  | comparisonsEnd => exact Nat.lt_succ_of_lt hr
  | comparisonsMore op e rest =>
    simp only [words, List.append_assoc]
    rw [CompareOp.clings_eq op]
    decide

/-- What stands behind an atom clings to it, and to nothing tighter. -/
theorem clings_suffix {w : Word} (hw : w ∈ [.of "(", .of ".", .of "["]) (rest : List Word) :
    clings (w :: rest) = Level.primary.tightness := by
  simp only [List.mem_cons, List.not_mem_nil, or_false] at hw
  rcases hw with rfl | rfl | rfl <;> simp [clings, Word.grip, Level.tightness]

theorem stops_suffixes (p : Phrase .suffixes) {r : List Word} (hr : Symbol.suffixes.Stops r) :
    clings (p.words ++ r) < Level.atom.tightness := by
  have hopen : ∀ w ∈ [Word.of "(", .of ".", .of "["], ∀ rest,
      clings (w :: rest) < Level.atom.tightness := by
    intro w hw rest
    rw [clings_suffix hw]
    decide
  cases p with
  | suffixesEnd => exact Nat.lt_succ_of_lt hr
  | call args rest => exact hopen _ (by simp) _
  | attr label _ rest => exact hopen _ (by simp) _
  | subscript i rest => exact hopen _ (by simp) _

/-- Commas, colons and closing brackets stop an expression. -/
theorem stops_expression {w : Word} (hw : w ∈ [.of ",", .of ":", .of "="] ++ Word.closers)
    (rest : List Word) : (Symbol.level .expression).Stops (w :: rest) := by
  show clings (w :: rest) < 1
  rw [clings_of_mem hw]
  exact Nat.one_pos

theorem stops_comma (rest : List Word) : (Symbol.level .expression).Stops (.of "," :: rest) :=
  stops_expression (by simp) rest

theorem stops_colon (rest : List Word) : (Symbol.level .expression).Stops (.of ":" :: rest) :=
  stops_expression (by simp) rest

theorem stops_closer {w : Word} (hw : w ∈ Word.closers) (rest : List Word) :
    (Symbol.level .expression).Stops (w :: rest) :=
  stops_expression (List.mem_append_right _ hw) rest

theorem stops_of_closes {r : List Word} (h : Closes r) : (Symbol.level .expression).Stops r := by
  show clings r < 1
  rw [h.clings_eq]
  exact Nat.one_pos

theorem not_closes_comma (rest : List Word) : ¬ Closes (.of "," :: rest) :=
  fun h => absurd (h _ rfl) (by simp [Word.closers])

theorem not_closes_colon (rest : List Word) : ¬ Closes (.of ":" :: rest) :=
  fun h => absurd (h _ rfl) (by simp [Word.closers])

/-- No expression begins with a closing bracket. -/
theorem not_closes {l : Level} (p : Phrase (.level l)) (rest : List Word) :
    ¬ Closes (p.words ++ rest) := by
  obtain ⟨w, tail, hw, hopens, _⟩ := p.begins
  rw [hw]
  exact fun h => hopens.ne_closer (List.mem_cons_of_mem _ (List.mem_cons_of_mem _ (h w rfl)))

theorem Decodes.tailEnd {t : Tier} : (tailEnd (t := t)).Decodes := by
  intro q r r' hr hr' h
  cases q with
  | tailEnd => exact ⟨rfl, h⟩
  | tailMore op hop e rest =>
    have hclings := Joint.clings_eq hop ((e.words ++ rest.words) ++ r')
    have hr : clings r < (Level.chain t).tightness := hr
    simp only [words, List.nil_append, List.cons_append] at h
    rw [h, hclings] at hr
    exact absurd hr (Nat.lt_irrefl _)

theorem Decodes.tailMore {t : Tier} {op : Joint} {hop : op.tier = some t}
    {e : Phrase (.level t.operand)} {rest : Phrase (.tail t)} (he : e.Decodes)
    (hrest : rest.Decodes) : (tailMore op hop e rest).Decodes := by
  intro q r r' hr hr' h
  cases q with
  | tailEnd => exact (Decodes.tailEnd _ _ _ hr' hr h.symm).imp Eq.symm Eq.symm
  | tailMore op' hop' e' rest' =>
    simp only [words, List.cons_append, List.append_assoc, List.cons.injEq] at h
    obtain ⟨hword, h⟩ := h
    obtain rfl := Joint.word_inj hword
    obtain ⟨rfl, htail⟩ := he _ _ _ (stops_operand rest hr) (stops_operand rest' hr') h
    obtain ⟨rfl, hend⟩ := hrest _ _ _ hr hr' htail
    exact ⟨rfl, hend⟩

theorem Decodes.chain {t : Tier} {first : Phrase (.level t.operand)} {rest : Phrase (.tail t)}
    (hfirst : first.Decodes) (hrest : rest.Decodes) : (chain first rest).Decodes := by
  intro q r r' hr hr' h
  cases q with
  | chain first' rest' =>
    simp only [words, List.append_assoc] at h
    have hr : (Symbol.tail t).Stops r := by cases t <;> exact hr
    have hr' : (Symbol.tail t).Stops r' := by cases t <;> exact hr'
    obtain ⟨rfl, htail⟩ := hfirst _ _ _ (stops_operand rest hr) (stops_operand rest' hr') h
    obtain ⟨rfl, hend⟩ := hrest _ _ _ hr hr' htail
    exact ⟨rfl, hend⟩

/-- No comparison or tighter expression begins with `not`. -/
theorem not_begins_of_hasNot {l : Level} (p : Phrase (.level l)) (hl : l.hasNot = false)
    (rest : List Word) : (p.words ++ rest).head? ≠ some (.of "not") := by
  obtain ⟨w, tail, hw, hopens, _⟩ := p.begins
  rw [hw]
  intro h
  cases h
  simp [Level.Opens, Word.OpensAtom, Token.operators, Token.keywords, Word.of, Parse.constant?,
    hl] at hopens

/-- No power or tighter expression begins with a sign. -/
theorem not_begins_of_hasSigns {l : Level} (p : Phrase (.level l)) (hl : l.hasSigns = false)
    {op : UnaryOp} (hop : op ≠ .not) (rest : List Word) :
    (p.words ++ rest).head? ≠ some (.of (.ofString op.symbol)) := by
  obtain ⟨w, tail, hw, hopens, _⟩ := p.begins
  rw [hw]
  intro h
  cases h
  cases op with
  | not => exact hop rfl
  | negative | positive =>
    simp [Level.Opens, Word.OpensAtom, Word.kind_of, Token.operators, UnaryOp.symbol, hl] at hopens

theorem Decodes.not {e : Phrase (.level .negation)} (he : e.Decodes) : (not e).Decodes := by
  intro q r r' hr hr' h
  cases q with
  | not e' =>
    obtain ⟨rfl, hend⟩ := he _ _ _ hr hr' (List.cons.inj h).2
    exact ⟨rfl, hend⟩
  | compared e' => exact absurd (congrArg List.head? h).symm (not_begins_of_hasNot e' rfl r')

theorem Decodes.compared {e : Phrase (.level .comparison)} (he : e.Decodes) :
    (compared e).Decodes := by
  intro q r r' hr hr' h
  cases q with
  | not e' => exact absurd (congrArg List.head? h) (not_begins_of_hasNot e rfl r)
  | compared e' =>
    obtain ⟨rfl, hend⟩ := he _ _ _ hr hr' h
    exact ⟨rfl, hend⟩

theorem Decodes.comparisonsEnd : comparisonsEnd.Decodes := by
  intro q r r' hr hr' h
  cases q with
  | comparisonsEnd => exact ⟨rfl, h⟩
  | comparisonsMore op e rest =>
    have hclings := CompareOp.clings_eq op ((e.words ++ rest.words) ++ r')
    have hr : clings r < Level.comparison.tightness := hr
    simp only [words, List.nil_append, List.append_assoc] at h hclings
    rw [h, hclings] at hr
    exact absurd hr (Nat.lt_irrefl _)

theorem Decodes.comparisonsMore {op : CompareOp} {e : Phrase (.level (.chain .sum))}
    {rest : Phrase .comparisons} (he : e.Decodes) (hrest : rest.Decodes) :
    (comparisonsMore op e rest).Decodes := by
  intro q r r' hr hr' h
  cases q with
  | comparisonsEnd => exact (Decodes.comparisonsEnd _ _ _ hr' hr h.symm).imp Eq.symm Eq.symm
  | comparisonsMore op' e' rest' =>
    simp only [words, List.append_assoc] at h
    obtain ⟨rfl, hoperand⟩ := CompareOp.words_inj (fun _ => not_begins_of_hasNot e rfl _)
      (fun _ => not_begins_of_hasNot e' rfl _) h
    obtain ⟨rfl, htail⟩ := he _ _ _ (stops_comparisons rest hr) (stops_comparisons rest' hr') hoperand
    obtain ⟨rfl, hend⟩ := hrest _ _ _ hr hr' htail
    exact ⟨rfl, hend⟩

theorem Decodes.comparison {first : Phrase (.level (.chain .sum))} {rest : Phrase .comparisons}
    (hfirst : first.Decodes) (hrest : rest.Decodes) : (comparison first rest).Decodes := by
  intro q r r' hr hr' h
  cases q with
  | comparison first' rest' =>
    simp only [words, List.append_assoc] at h
    obtain ⟨rfl, htail⟩ := hfirst _ _ _ (stops_comparisons rest hr) (stops_comparisons rest' hr') h
    obtain ⟨rfl, hend⟩ := hrest _ _ _ hr hr' htail
    exact ⟨rfl, hend⟩

theorem Decodes.signed {op : UnaryOp} {hop : op ≠ .not} {e : Phrase (.level .factor)}
    (he : e.Decodes) : (signed op hop e).Decodes := by
  intro q r r' hr hr' h
  cases q with
  | signed op' hop' e' =>
    obtain ⟨hword, hoperand⟩ := List.cons.inj h
    have hsame : op = op' := by
      cases op <;> cases op' <;> simp [UnaryOp.symbol] at hword ⊢
    subst hsame
    obtain ⟨rfl, hend⟩ := he _ _ _ hr hr' hoperand
    exact ⟨rfl, hend⟩
  | unsigned e' => exact absurd (congrArg List.head? h).symm (not_begins_of_hasSigns e' rfl hop r')

theorem Decodes.unsigned {e : Phrase (.level .power)} (he : e.Decodes) : (unsigned e).Decodes := by
  intro q r r' hr hr' h
  cases q with
  | signed op' hop' e' => exact absurd (congrArg List.head? h) (not_begins_of_hasSigns e rfl hop' r)
  | unsigned e' =>
    obtain ⟨rfl, hend⟩ := he _ _ _ hr hr' h
    exact ⟨rfl, hend⟩

/-- Two asterisks cling to a power, and to nothing tighter. -/
theorem clings_power (rest : List Word) : clings (.of "**" :: rest) = Level.power.tightness := by
  simp [clings, Word.grip, Level.tightness]

theorem stops_power (rest : List Word) : (Symbol.level .primary).Stops (.of "**" :: rest) := by
  show clings _ < _
  rw [clings_power]
  decide

theorem Decodes.base {e : Phrase (.level .primary)} (he : e.Decodes) : (base e).Decodes := by
  intro q r r' hr hr' h
  have hstop : (Symbol.level .primary).Stops r := Nat.lt_succ_of_lt hr
  cases q with
  | base e' =>
    obtain ⟨rfl, hend⟩ := he _ _ _ hstop (Nat.lt_succ_of_lt hr') h
    exact ⟨rfl, hend⟩
  | power e' exponent =>
    simp only [words, List.append_assoc, List.cons_append] at h
    obtain ⟨rfl, hend⟩ := he _ _ _ hstop (stops_power _) h
    have hr : clings r < Level.power.tightness := hr
    rw [hend, clings_power] at hr
    exact absurd hr (Nat.lt_irrefl _)

theorem Decodes.power {e : Phrase (.level .primary)} {exponent : Phrase (.level .factor)}
    (he : e.Decodes) (hexponent : exponent.Decodes) : (power e exponent).Decodes := by
  intro q r r' hr hr' h
  simp only [words, List.append_assoc, List.cons_append] at h
  cases q with
  | base e' =>
    obtain ⟨rfl, hend⟩ := he _ _ _ (stops_power _) (Nat.lt_succ_of_lt hr') h
    have hr' : clings r' < Level.power.tightness := hr'
    rw [← hend, clings_power] at hr'
    exact absurd hr' (Nat.lt_irrefl _)
  | power e' exponent' =>
    simp only [words, List.append_assoc, List.cons_append] at h
    obtain ⟨rfl, htail⟩ := he.before stops_power h
    obtain ⟨rfl, hend⟩ := hexponent _ _ _ hr hr' htail
    exact ⟨rfl, hend⟩

theorem Decodes.primary {e : Phrase (.level .atom)} {rest : Phrase .suffixes} (he : e.Decodes)
    (hrest : rest.Decodes) : (primary e rest).Decodes := by
  intro q r r' hr hr' h
  cases q with
  | primary e' rest' =>
    simp only [words, List.append_assoc] at h
    obtain ⟨rfl, htail⟩ := he _ _ _ (stops_suffixes rest hr) (stops_suffixes rest' hr') h
    obtain ⟨rfl, hend⟩ := hrest _ _ _ hr hr' htail
    exact ⟨rfl, hend⟩

theorem Decodes.suffixesEnd : suffixesEnd.Decodes := by
  intro q r r' hr hr' h
  have hopen : ∀ w ∈ [Word.of "(", .of ".", .of "["], ∀ rest, r ≠ w :: rest := by
    intro w hw rest heq
    have hr : clings r < Level.primary.tightness := hr
    rw [heq, clings_suffix hw] at hr
    exact absurd hr (Nat.lt_irrefl _)
  cases q with
  | suffixesEnd => exact ⟨rfl, h⟩
  | call args rest => exact absurd h (hopen _ (by simp) _)
  | attr label _ rest => exact absurd h (hopen _ (by simp) _)
  | subscript i rest => exact absurd h (hopen _ (by simp) _)

theorem Decodes.call {args : Phrase (.arguments false)} {rest : Phrase .suffixes}
    (hargs : args.Decodes) (hrest : rest.Decodes) : (call args rest).Decodes := by
  intro q r r' hr hr' h
  cases q with
  | suffixesEnd => exact (Decodes.suffixesEnd _ _ _ hr' hr h.symm).imp Eq.symm Eq.symm
  | call args' rest' =>
    simp only [words, List.cons_append, List.append_assoc, List.cons.injEq, true_and] at h
    obtain ⟨rfl, htail⟩ := hargs.before (closes_cons (by simp [Word.closers])) h
    obtain ⟨rfl, hend⟩ := hrest _ _ _ hr hr' htail
    exact ⟨rfl, hend⟩
  | attr label _ rest' => exact absurd (List.cons.inj h).1 (by simp)
  | subscript i rest' => exact absurd (List.cons.inj h).1 (by simp)

theorem Decodes.attr {label : Text} {hlabel : label ∉ Token.keywords} {rest : Phrase .suffixes}
    (hrest : rest.Decodes) : (attr label hlabel rest).Decodes := by
  intro q r r' hr hr' h
  cases q with
  | suffixesEnd => exact (Decodes.suffixesEnd _ _ _ hr' hr h.symm).imp Eq.symm Eq.symm
  | call args' rest' => exact absurd (List.cons.inj h).1 (by simp)
  | attr label' _ rest' =>
    simp only [words, List.cons_append, List.cons.injEq, true_and, Word.mk.injEq] at h
    obtain ⟨rfl, h⟩ := h
    obtain ⟨rfl, hend⟩ := hrest _ _ _ hr hr' h
    exact ⟨rfl, hend⟩
  | subscript i rest' => exact absurd (List.cons.inj h).1 (by simp)

theorem Decodes.subscript {i : Phrase .index} {rest : Phrase .suffixes} (hi : i.Decodes)
    (hrest : rest.Decodes) : (subscript i rest).Decodes := by
  intro q r r' hr hr' h
  cases q with
  | suffixesEnd => exact (Decodes.suffixesEnd _ _ _ hr' hr h.symm).imp Eq.symm Eq.symm
  | call args' rest' => exact absurd (List.cons.inj h).1 (by simp)
  | attr label' _ rest' => exact absurd (List.cons.inj h).1 (by simp)
  | subscript i' rest' =>
    simp only [words, List.cons_append, List.append_assoc, List.cons.injEq, true_and] at h
    obtain ⟨rfl, htail⟩ := hi.before (closes_cons (by simp [Word.closers])) h
    obtain ⟨rfl, hend⟩ := hrest _ _ _ hr hr' htail
    exact ⟨rfl, hend⟩

/-! ### Lists of things between commas -/

/-- An expression before words that close and the same before a comma are told apart. -/
theorem Decodes.not_comma {e e' : Phrase (.level .expression)} (he : e.Decodes) {r rest : List Word}
    (hr : Closes r) (h : e.words ++ r = e'.words ++ .of "," :: rest) : False := by
  obtain ⟨-, hend⟩ := he _ _ _ (stops_of_closes hr) (stops_comma rest) h
  exact not_closes_comma rest (hend ▸ hr)

/-- An expression before a comma is not the last one before words that close. -/
theorem Decodes.not_last {e e' : Phrase (.level .expression)} (he : e.Decodes) {r rest : List Word}
    (hr : Closes r) (h : e.words ++ .of "," :: rest = e'.words ++ r) : False := by
  obtain ⟨-, hend⟩ := he _ _ _ (stops_comma rest) (stops_of_closes hr) h
  exact not_closes_comma rest (hend ▸ hr)

/-- The words of an expression are no name with `=` behind it. -/
theorem ne_keyword {l : Level} (e : Phrase (.level l)) {label : Text} {r rest : List Word}
    (hr : r.head? ≠ some (.of "=")) : e.words ++ r ≠ ⟨.name, label⟩ :: .of "=" :: rest := by
  intro h
  have hbegins := Symbol.Begins.append e.begins (Bool.le_refl _) (Bool.le_refl _) hr
  rw [h] at hbegins
  obtain ⟨w, tail, hw, _, hname⟩ := hbegins
  cases hw
  exact hname rfl rfl

theorem not_closes_name (label : Text) (rest : List Word) : ¬ Closes (⟨.name, label⟩ :: rest) := by
  intro h
  have hw := h _ rfl
  simp only [Word.closers, List.mem_cons, List.not_mem_nil, or_false] at hw
  rcases hw with hw | hw | hw <;>
    simpa [Word.kind_of, Token.operators] using congrArg Word.kind hw

theorem Closes.of_eq {r x : List Word} (h : Closes r) (heq : x = r) : Closes x := heq ▸ h

theorem Closes.head_ne {r : List Word} (h : Closes r) : r.head? ≠ some (.of "=") :=
  fun heq => absurd (h _ heq) (by simp [Word.closers])

theorem comma_head_ne (rest : List Word) : (Word.of "," :: rest).head? ≠ some (.of "=") :=
  fun heq => absurd (Option.some.inj heq) (by simp)

theorem Decodes.argumentsEnd {named : Bool} : (argumentsEnd : Phrase (.arguments named)).Decodes := by
  intro q r r' hr hr' h
  have hr : Closes r := hr
  cases q with
  | argumentsEnd => exact ⟨rfl, h⟩
  | positional e => exact absurd (Closes.of_eq hr h.symm) (not_closes e r')
  | positionalMore e rest =>
    simp only [words, List.nil_append, List.append_assoc] at h
    exact absurd (Closes.of_eq hr h.symm) (not_closes e _)
  | keyword label e => exact absurd (Closes.of_eq hr h.symm) (not_closes_name label _)
  | keywordMore label e rest => exact absurd (Closes.of_eq hr h.symm) (not_closes_name label _)

theorem Decodes.positional {e : Phrase (.level .expression)} (he : e.Decodes) :
    (positional e).Decodes := by
  intro q r r' hr hr' h
  cases q with
  | argumentsEnd => exact (Decodes.argumentsEnd _ _ _ hr' hr h.symm).imp Eq.symm Eq.symm
  | positional e' =>
    obtain ⟨rfl, hend⟩ := he _ _ _ (stops_of_closes hr) (stops_of_closes hr') h
    exact ⟨rfl, hend⟩
  | positionalMore e' rest' =>
    simp only [words, List.cons_append, List.append_assoc] at h
    exact (he.not_comma hr h).elim
  | keyword label e' => exact absurd h (ne_keyword e (Closes.head_ne hr))
  | keywordMore label e' rest' => exact absurd h (ne_keyword e (Closes.head_ne hr))

theorem Decodes.positionalMore {e : Phrase (.level .expression)}
    {rest : Phrase (.arguments false)} (he : e.Decodes) (hrest : rest.Decodes) :
    (positionalMore e rest).Decodes := by
  intro q r r' hr hr' h
  have hwords : (Phrase.positionalMore e rest).words ++ r =
      e.words ++ (.of "," :: (rest.words ++ r)) := by
    simp only [words, List.cons_append, List.append_assoc]
  rw [hwords] at h
  cases q with
  | argumentsEnd => exact absurd (Closes.of_eq hr' h) (not_closes e _)
  | positional e' =>
    exact (he.not_last hr' h).elim
  | positionalMore e' rest' =>
    simp only [words, List.cons_append, List.append_assoc] at h
    obtain ⟨rfl, htail⟩ := he.before stops_comma h
    obtain ⟨rfl, hend⟩ := hrest _ _ _ hr hr' htail
    exact ⟨rfl, hend⟩
  | keyword label e' => exact absurd h (ne_keyword e (comma_head_ne _))
  | keywordMore label e' rest' => exact absurd h (ne_keyword e (comma_head_ne _))

theorem Decodes.keyword {named : Bool} {label : Text} {e : Phrase (.level .expression)}
    (he : e.Decodes) : (keyword label e : Phrase (.arguments named)).Decodes := by
  intro q r r' hr hr' h
  cases q with
  | argumentsEnd => exact absurd (Closes.of_eq hr' h) (not_closes_name label _)
  | positional e' => exact absurd h.symm (ne_keyword e' (Closes.head_ne hr'))
  | positionalMore e' rest' =>
    simp only [words, List.cons_append, List.append_assoc] at h
    exact absurd h.symm (ne_keyword e' (comma_head_ne _))
  | keyword label' e' =>
    simp only [words, List.cons_append, List.cons.injEq, true_and, Word.mk.injEq] at h
    obtain ⟨rfl, h⟩ := h
    obtain ⟨rfl, hend⟩ := he _ _ _ (stops_of_closes hr) (stops_of_closes hr') h
    exact ⟨rfl, hend⟩
  | keywordMore label' e' rest' =>
    simp only [words, List.cons_append, List.append_assoc, List.cons.injEq, true_and] at h
    exact (he.not_comma hr h.2).elim

theorem Decodes.keywordMore {named : Bool} {label : Text} {e : Phrase (.level .expression)}
    {rest : Phrase (.arguments true)} (he : e.Decodes) (hrest : rest.Decodes) :
    (keywordMore label e rest : Phrase (.arguments named)).Decodes := by
  intro q r r' hr hr' h
  have hwords : (Phrase.keywordMore label e rest : Phrase (.arguments named)).words ++ r =
      ⟨.name, label⟩ :: .of "=" :: (e.words ++ (.of "," :: (rest.words ++ r))) := by
    simp only [words, List.cons_append, List.append_assoc]
  rw [hwords] at h
  cases q with
  | argumentsEnd => exact absurd (Closes.of_eq hr' h) (not_closes_name label _)
  | positional e' => exact absurd h.symm (ne_keyword e' (Closes.head_ne hr'))
  | positionalMore e' rest' =>
    simp only [words, List.cons_append, List.append_assoc] at h
    exact absurd h.symm (ne_keyword e' (comma_head_ne _))
  | keyword label' e' =>
    simp only [words, List.cons_append, List.cons.injEq, true_and] at h
    exact (he.not_last hr' h.2).elim
  | keywordMore label' e' rest' =>
    simp only [words, List.cons_append, List.append_assoc, List.cons.injEq, true_and,
      Word.mk.injEq] at h
    obtain ⟨rfl, h⟩ := h
    obtain ⟨rfl, htail⟩ := he.before stops_comma h
    obtain ⟨rfl, hend⟩ := hrest _ _ _ hr hr' htail
    exact ⟨rfl, hend⟩

/-! ### Subscripts -/

theorem stops_part_colon (rest : List Word) : Symbol.part.Stops (.of ":" :: rest) := by
  intro w h
  cases h
  exact List.mem_cons_self

theorem stops_part {r : List Word} (h : Closes r) : Symbol.part.Stops r :=
  fun w hw => List.mem_cons_of_mem _ (h w hw)

theorem stops_of_stops_part {r : List Word} (h : Symbol.part.Stops r) :
    (Symbol.level .expression).Stops r := by
  cases r with
  | nil => exact Nat.one_pos
  | cons w rest =>
    rcases List.mem_cons.mp (h w rfl) with rfl | hw
    · exact stops_colon rest
    · exact stops_closer hw rest

/-- No expression begins with a colon or a closing bracket. -/
theorem not_stops_part {l : Level} (p : Phrase (.level l)) (rest : List Word) :
    ¬ Symbol.part.Stops (p.words ++ rest) := by
  obtain ⟨w, tail, hw, hopens, _⟩ := p.begins
  rw [hw]
  exact fun h => hopens.ne_closer (List.mem_cons_of_mem _ (h w rfl))

theorem Decodes.absent : absent.Decodes := by
  intro q r r' hr hr' h
  cases q with
  | absent => exact ⟨rfl, h⟩
  | present e =>
    have h : r = e.words ++ r' := h
    exact absurd (h ▸ hr) (not_stops_part e r')

theorem Decodes.present {e : Phrase (.level .expression)} (he : e.Decodes) :
    (present e).Decodes := by
  intro q r r' hr hr' h
  cases q with
  | absent => exact (Decodes.absent _ _ _ hr' hr h.symm).imp Eq.symm Eq.symm
  | present e' =>
    obtain ⟨rfl, hend⟩ := he _ _ _ (stops_of_stops_part hr) (stops_of_stops_part hr') h
    exact ⟨rfl, hend⟩

theorem Decodes.bound {colons : Nat} {e : Phrase .part} (he : e.Decodes) :
    (bound e : Phrase (.bounds colons)).Decodes := by
  intro q r r' hr hr' h
  cases q with
  | bound e' =>
    obtain ⟨rfl, hend⟩ := he _ _ _ (stops_part hr) (stops_part hr') h
    exact ⟨rfl, hend⟩
  | boundMore e' rest' =>
    simp only [words, List.cons_append, List.append_assoc] at h
    obtain ⟨-, hend⟩ := he _ _ _ (stops_part hr) (stops_part_colon _) h
    exact absurd (Closes.of_eq hr hend.symm) (not_closes_colon _)

theorem Decodes.boundMore {colons : Nat} {e : Phrase .part} {rest : Phrase (.bounds colons)}
    (he : e.Decodes) (hrest : rest.Decodes) : (boundMore e rest).Decodes := by
  intro q r r' hr hr' h
  simp only [words, List.cons_append, List.append_assoc] at h
  cases q with
  | bound e' =>
    obtain ⟨-, hend⟩ := he _ _ _ (stops_part_colon _) (stops_part hr') h
    exact absurd (Closes.of_eq hr' hend) (not_closes_colon _)
  | boundMore e' rest' =>
    simp only [words, List.cons_append, List.append_assoc] at h
    obtain ⟨rfl, htail⟩ := he.before stops_part_colon h
    obtain ⟨rfl, hend⟩ := hrest _ _ _ hr hr' htail
    exact ⟨rfl, hend⟩

/-- A single index is told apart from the first part of a slice. -/
theorem Decodes.not_part {e : Phrase (.level .expression)} (he : e.Decodes) {lower : Phrase .part}
    {r rest : List Word} (hr : Closes r) (h : e.words ++ r = lower.words ++ .of ":" :: rest) :
    False := by
  cases lower with
  | absent =>
    have h : e.words ++ r = .of ":" :: rest := h
    exact not_stops_part e r (h ▸ stops_part_colon rest)
  | present e' =>
    obtain ⟨-, hend⟩ := he _ _ _ (stops_of_closes hr) (stops_colon _) h
    exact not_closes_colon _ (Closes.of_eq hr hend.symm)

theorem Decodes.index {e : Phrase (.level .expression)} (he : e.Decodes) : (index e).Decodes := by
  intro q r r' hr hr' h
  cases q with
  | index e' =>
    obtain ⟨rfl, hend⟩ := he _ _ _ (stops_of_closes hr) (stops_of_closes hr') h
    exact ⟨rfl, hend⟩
  | slice lower rest =>
    simp only [words, List.cons_append, List.append_assoc] at h
    exact (he.not_part hr h).elim

theorem Decodes.slice {lower : Phrase .part} {rest : Phrase (.bounds 1)} (hlower : lower.Decodes)
    (hrest : rest.Decodes) : (slice lower rest).Decodes := by
  intro q r r' hr hr' h
  simp only [words, List.cons_append, List.append_assoc] at h
  cases q with
  | index e' =>
    obtain ⟨-, hend⟩ :=
      hlower (.present e') _ _ (stops_part_colon _) (stops_part hr') h
    exact absurd (Closes.of_eq hr' hend) (not_closes_colon _)
  | slice lower' rest' =>
    simp only [words, List.cons_append, List.append_assoc] at h
    obtain ⟨rfl, htail⟩ := hlower.before stops_part_colon h
    obtain ⟨rfl, hend⟩ := hrest _ _ _ hr hr' htail
    exact ⟨rfl, hend⟩

/-! ### Items and entries -/

theorem Decodes.itemsEnd : itemsEnd.Decodes := by
  intro q r r' hr hr' h
  cases q with
  | itemsEnd => exact ⟨rfl, h⟩
  | item e => exact absurd (Closes.of_eq hr h.symm) (not_closes e r')
  | itemMore e rest =>
    simp only [words, List.nil_append, List.append_assoc] at h
    exact absurd (Closes.of_eq hr h.symm) (not_closes e _)

theorem Decodes.item {e : Phrase (.level .expression)} (he : e.Decodes) : (item e).Decodes := by
  intro q r r' hr hr' h
  cases q with
  | itemsEnd => exact (Decodes.itemsEnd _ _ _ hr' hr h.symm).imp Eq.symm Eq.symm
  | item e' =>
    obtain ⟨rfl, hend⟩ := he _ _ _ (stops_of_closes hr) (stops_of_closes hr') h
    exact ⟨rfl, hend⟩
  | itemMore e' rest' =>
    simp only [words, List.cons_append, List.append_assoc] at h
    exact (he.not_comma hr h).elim

theorem Decodes.itemMore {e : Phrase (.level .expression)} {rest : Phrase .items} (he : e.Decodes)
    (hrest : rest.Decodes) : (itemMore e rest).Decodes := by
  intro q r r' hr hr' h
  cases q with
  | itemsEnd => exact (Decodes.itemsEnd _ _ _ hr' hr h.symm).imp Eq.symm Eq.symm
  | item e' =>
    simp only [words, List.cons_append, List.append_assoc] at h
    exact (he.not_last hr' h).elim
  | itemMore e' rest' =>
    simp only [words, List.cons_append, List.append_assoc] at h
    obtain ⟨rfl, htail⟩ := he.before stops_comma h
    obtain ⟨rfl, hend⟩ := hrest _ _ _ hr hr' htail
    exact ⟨rfl, hend⟩

theorem Decodes.entriesEnd : entriesEnd.Decodes := by
  intro q r r' hr hr' h
  cases q with
  | entriesEnd => exact ⟨rfl, h⟩
  | entry key value =>
    simp only [words, List.nil_append, List.append_assoc] at h
    exact absurd (Closes.of_eq hr h.symm) (not_closes key _)
  | entryMore key value rest =>
    simp only [words, List.nil_append, List.append_assoc] at h
    exact absurd (Closes.of_eq hr h.symm) (not_closes key _)

theorem Decodes.entry {key value : Phrase (.level .expression)} (hkey : key.Decodes)
    (hvalue : value.Decodes) : (entry key value).Decodes := by
  intro q r r' hr hr' h
  cases q with
  | entriesEnd => exact (Decodes.entriesEnd _ _ _ hr' hr h.symm).imp Eq.symm Eq.symm
  | entry key' value' =>
    simp only [words, List.cons_append, List.append_assoc] at h
    obtain ⟨rfl, htail⟩ := hkey.before stops_colon h
    obtain ⟨rfl, hend⟩ := hvalue _ _ _ (stops_of_closes hr) (stops_of_closes hr') htail
    exact ⟨rfl, hend⟩
  | entryMore key' value' rest' =>
    simp only [words, List.cons_append, List.append_assoc] at h
    obtain ⟨rfl, htail⟩ := hkey.before stops_colon h
    exact (hvalue.not_comma hr htail).elim

theorem Decodes.entryMore {key value : Phrase (.level .expression)} {rest : Phrase .entries}
    (hkey : key.Decodes) (hvalue : value.Decodes) (hrest : rest.Decodes) :
    (entryMore key value rest).Decodes := by
  intro q r r' hr hr' h
  cases q with
  | entriesEnd => exact (Decodes.entriesEnd _ _ _ hr' hr h.symm).imp Eq.symm Eq.symm
  | entry key' value' =>
    simp only [words, List.cons_append, List.append_assoc] at h
    obtain ⟨rfl, htail⟩ := hkey.before stops_colon h
    exact (hvalue.not_last hr' htail).elim
  | entryMore key' value' rest' =>
    simp only [words, List.cons_append, List.append_assoc] at h
    obtain ⟨rfl, htail⟩ := hkey.before stops_colon h
    obtain ⟨rfl, hmore⟩ := hvalue.before stops_comma htail
    obtain ⟨rfl, hend⟩ := hrest _ _ _ hr hr' hmore
    exact ⟨rfl, hend⟩

/-! ### Atoms -/

theorem ne_bracket {kind : TokenKind} (hkind : kind ≠ .operator) (text : Text) {w : Word}
    (hw : w ∈ [Word.of "(", .of "[", .of "\x7b"]) : (⟨kind, text⟩ : Word) ≠ w := by
  rintro rfl
  simp only [List.mem_cons, List.not_mem_nil, or_false] at hw
  rcases hw with hw | hw | hw <;>
    exact hkind (by simpa [Word.kind_of, Token.operators] using congrArg Word.kind hw)

/-- The constants are keywords. -/
theorem mem_keywords_of_constant? {text : Text} {value : Literal}
    (h : Parse.constant? text = some value) : text ∈ Token.keywords := by
  unfold Parse.constant? at h
  split at h
  · rename_i heq
    simp [eq_of_beq heq, Token.keywords]
  · split at h
    · rename_i heq
      simp [eq_of_beq heq, Token.keywords]
    · split at h
      · rename_i heq
        simp [eq_of_beq heq, Token.keywords]
      · cases h

theorem Decodes.number {text : Text} : (number text).Decodes := by
  intro q r r' _ _ h
  cases q with
  | number text' =>
    simp only [words, List.cons_append, List.nil_append, List.cons.injEq, Word.mk.injEq] at h
    exact ⟨by rw [h.1.2], h.2⟩
  | string _ | constant _ _ _ | name _ _ =>
    exact absurd (congrArg Word.kind (List.cons.inj h).1) (by simp)
  | _ => exact absurd (List.cons.inj h).1 (ne_bracket (by decide) _ (by simp))

theorem Decodes.string {text : Text} : (string text).Decodes := by
  intro q r r' _ _ h
  cases q with
  | string text' =>
    simp only [words, List.cons_append, List.nil_append, List.cons.injEq, Word.mk.injEq] at h
    exact ⟨by rw [h.1.2], h.2⟩
  | number _ | constant _ _ _ | name _ _ =>
    exact absurd (congrArg Word.kind (List.cons.inj h).1) (by simp)
  | _ => exact absurd (List.cons.inj h).1 (ne_bracket (by decide) _ (by simp))

theorem Decodes.constant {text : Text} {value : Literal} {hvalue : Parse.constant? text = some value} :
    (constant text value hvalue).Decodes := by
  intro q r r' _ _ h
  cases q with
  | constant text' value' hvalue' =>
    simp only [words, List.cons_append, List.nil_append, List.cons.injEq, Word.mk.injEq] at h
    obtain ⟨⟨-, rfl⟩, hend⟩ := h
    obtain rfl := Option.some.inj (hvalue.symm.trans hvalue')
    exact ⟨rfl, hend⟩
  | name text' hname =>
    simp only [words, List.cons_append, List.nil_append, List.cons.injEq, Word.mk.injEq] at h
    exact absurd (mem_keywords_of_constant? hvalue) (h.1.2 ▸ hname)
  | number _ | string _ => exact absurd (congrArg Word.kind (List.cons.inj h).1) (by simp)
  | _ => exact absurd (List.cons.inj h).1 (ne_bracket (by decide) _ (by simp))

theorem Decodes.name {text : Text} {hname : text ∉ Token.keywords} : (name text hname).Decodes := by
  intro q r r' _ _ h
  cases q with
  | constant text' value hvalue =>
    simp only [words, List.cons_append, List.nil_append, List.cons.injEq, Word.mk.injEq] at h
    exact absurd (mem_keywords_of_constant? hvalue) (h.1.2 ▸ hname)
  | name text' _ =>
    simp only [words, List.cons_append, List.nil_append, List.cons.injEq, Word.mk.injEq] at h
    obtain ⟨⟨-, rfl⟩, hend⟩ := h
    exact ⟨rfl, hend⟩
  | number _ | string _ => exact absurd (congrArg Word.kind (List.cons.inj h).1) (by simp)
  | _ => exact absurd (List.cons.inj h).1 (ne_bracket (by decide) _ (by simp))

/-- An atom that begins with a parenthesis is the empty tuple, a group or a tuple. -/
theorem exists_of_paren {q : Phrase (.level .atom)} {r x : List Word}
    (h : .of "(" :: x = q.words ++ r) :
    (q = unit ∧ x = .of ")" :: r) ∨
    (∃ e, q = group e ∧ x = e.words ++ .of ")" :: r) ∨
    ∃ e rest, q = tuple e rest ∧ x = e.words ++ .of "," :: (rest.words ++ .of ")" :: r) := by
  cases q with
  | unit => exact .inl ⟨rfl, (List.cons.inj h).2⟩
  | group e =>
    simp only [words, List.cons_append, List.nil_append, List.append_assoc] at h
    exact .inr (.inl ⟨e, rfl, (List.cons.inj h).2⟩)
  | tuple e rest =>
    simp only [words, List.cons_append, List.nil_append, List.append_assoc] at h
    exact .inr (.inr ⟨e, rest, rfl, (List.cons.inj h).2⟩)
  | number _ | string _ | constant _ _ _ | name _ _ =>
    exact absurd (List.cons.inj h).1.symm (ne_bracket (by decide) _ (by simp))
  | _ => exact absurd (List.cons.inj h).1 (by simp)

/-- No expression begins with a closing parenthesis. -/
theorem ne_unit {e : Phrase (.level .expression)} {r x : List Word} :
    Word.of ")" :: r ≠ e.words ++ x :=
  fun h => not_closes e x (Closes.of_eq (closes_cons (by simp [Word.closers]) r) h.symm)

theorem Decodes.unit : unit.Decodes := by
  intro q r r' _ _ h
  obtain ⟨rfl, hend⟩ | ⟨e, rfl, hinside⟩ | ⟨e, rest, rfl, hinside⟩ := exists_of_paren h
  · exact ⟨rfl, (List.cons.inj hend).2⟩
  · exact absurd hinside ne_unit
  · exact absurd hinside ne_unit

theorem Decodes.group {e : Phrase (.level .expression)} (he : e.Decodes) : (group e).Decodes := by
  intro q r r' _ _ h
  simp only [words, List.cons_append, List.nil_append, List.append_assoc] at h
  obtain ⟨rfl, hinside⟩ | ⟨e', rfl, hinside⟩ | ⟨e', rest, rfl, hinside⟩ := exists_of_paren h
  · exact absurd hinside.symm ne_unit
  · obtain ⟨rfl, hend⟩ := he.before (stops_closer (by simp [Word.closers])) hinside
    exact ⟨rfl, hend⟩
  · exact (he.not_comma (closes_cons (by simp [Word.closers]) _) hinside).elim

theorem Decodes.tuple {e : Phrase (.level .expression)} {rest : Phrase .items} (he : e.Decodes)
    (hrest : rest.Decodes) : (tuple e rest).Decodes := by
  intro q r r' _ _ h
  simp only [words, List.cons_append, List.nil_append, List.append_assoc] at h
  obtain ⟨rfl, hinside⟩ | ⟨e', rfl, hinside⟩ | ⟨e', rest', rfl, hinside⟩ := exists_of_paren h
  · exact absurd hinside.symm ne_unit
  · exact (he.not_last (closes_cons (by simp [Word.closers]) _) hinside).elim
  · obtain ⟨rfl, htail⟩ := he.before stops_comma hinside
    obtain ⟨rfl, hend⟩ := hrest.before (closes_cons (by simp [Word.closers])) htail
    exact ⟨rfl, hend⟩

theorem Decodes.list {rest : Phrase .items} (hrest : rest.Decodes) : (list rest).Decodes := by
  intro q r r' _ _ h
  cases q with
  | list rest' =>
    simp only [words, List.cons_append, List.nil_append, List.append_assoc, List.cons.injEq,
      true_and] at h
    obtain ⟨rfl, hend⟩ := hrest.before (closes_cons (by simp [Word.closers])) h
    exact ⟨rfl, hend⟩
  | number _ | string _ | constant _ _ _ | name _ _ =>
    exact absurd (List.cons.inj h).1.symm (ne_bracket (by decide) _ (by simp))
  | _ => exact absurd (List.cons.inj h).1 (by simp)

/-- An atom that begins with a brace is a mapping or a set. -/
theorem exists_of_brace {q : Phrase (.level .atom)} {r x : List Word}
    (h : .of "\x7b" :: x = q.words ++ r) :
    (∃ rest, q = dict rest ∧ x = rest.words ++ .of "\x7d" :: r) ∨
    (∃ e, q = singleton e ∧ x = e.words ++ .of "\x7d" :: r) ∨
    ∃ e rest, q = set e rest ∧ x = e.words ++ .of "," :: (rest.words ++ .of "\x7d" :: r) := by
  cases q with
  | dict rest =>
    simp only [words, List.cons_append, List.nil_append, List.append_assoc] at h
    exact .inl ⟨rest, rfl, (List.cons.inj h).2⟩
  | singleton e =>
    simp only [words, List.cons_append, List.nil_append, List.append_assoc] at h
    exact .inr (.inl ⟨e, rfl, (List.cons.inj h).2⟩)
  | set e rest =>
    simp only [words, List.cons_append, List.nil_append, List.append_assoc] at h
    exact .inr (.inr ⟨e, rest, rfl, (List.cons.inj h).2⟩)
  | number _ | string _ | constant _ _ _ | name _ _ =>
    exact absurd (List.cons.inj h).1.symm (ne_bracket (by decide) _ (by simp))
  | _ => exact absurd (List.cons.inj h).1 (by simp)

/-- What follows the first expression of a set: it ends, or a comma comes next. -/
def FollowsItem (x : List Word) : Prop := Closes x ∨ ∃ y, x = .of "," :: y

theorem FollowsItem.stops {x : List Word} (h : FollowsItem x) :
    (Symbol.level .expression).Stops x := by
  rcases h with h | ⟨y, rfl⟩
  · exact stops_of_closes h
  · exact stops_comma y

theorem FollowsItem.ne_colon {x : List Word} (h : FollowsItem x) (y : List Word) :
    x ≠ .of ":" :: y := by
  rintro rfl
  rcases h with h | ⟨z, hz⟩
  · exact not_closes_colon y h
  · exact absurd (List.cons.inj hz).1 (by simp)

/-- The words of the first key are split in no other way. -/
def KeyDecodes : {s : Symbol} → Phrase s → Prop
  | _, .entry key _ => key.Decodes
  | _, .entryMore key _ _ => key.Decodes
  | _, _ => True

/-- The entries of a mapping are told apart from the first expression of a set. -/
theorem not_entries {rest : Phrase .entries} {e : Phrase (.level .expression)}
    (hdecodes : rest.KeyDecodes ∨ e.Decodes) {r x : List Word} (hr : Closes r)
    (hx : FollowsItem x) : rest.words ++ r ≠ e.words ++ x := by
  have hkey : ∀ (key : Phrase (.level .expression)) (y : List Word), key.Decodes ∨ e.Decodes →
      key.words ++ .of ":" :: y ≠ e.words ++ x := by
    rintro key y (hkey | he) h
    · exact hx.ne_colon y (hkey _ _ _ (stops_colon y) hx.stops h).2.symm
    · exact hx.ne_colon y (he _ _ _ hx.stops (stops_colon y) h.symm).2
  cases rest with
  | entriesEnd => exact fun h => not_closes e x (Closes.of_eq hr h.symm)
  | entry key value =>
    simp only [words, List.cons_append, List.append_assoc]
    exact hkey key _ hdecodes
  | entryMore key value rest =>
    simp only [words, List.cons_append, List.append_assoc]
    exact hkey key _ hdecodes

theorem Decodes.dict {rest : Phrase .entries} (hrest : rest.Decodes) (hkey : rest.KeyDecodes) :
    (dict rest).Decodes := by
  intro q r r' _ _ h
  have hclose : ∀ rest, Closes (.of "\x7d" :: rest) := closes_cons (by simp [Word.closers])
  simp only [words, List.cons_append, List.nil_append, List.append_assoc] at h
  obtain ⟨rest', rfl, hinside⟩ | ⟨e, rfl, hinside⟩ | ⟨e, rest', rfl, hinside⟩ := exists_of_brace h
  · obtain ⟨rfl, hend⟩ := hrest.before hclose hinside
    exact ⟨rfl, hend⟩
  · exact absurd hinside (not_entries (.inl hkey) (hclose _) (.inl (hclose _)))
  · exact absurd hinside (not_entries (.inl hkey) (hclose _) (.inr ⟨_, rfl⟩))

theorem Decodes.singleton {e : Phrase (.level .expression)} (he : e.Decodes) :
    (singleton e).Decodes := by
  intro q r r' _ _ h
  have hclose : ∀ rest, Closes (.of "\x7d" :: rest) := closes_cons (by simp [Word.closers])
  simp only [words, List.cons_append, List.nil_append, List.append_assoc] at h
  obtain ⟨rest, rfl, hinside⟩ | ⟨e', rfl, hinside⟩ | ⟨e', rest, rfl, hinside⟩ := exists_of_brace h
  · exact absurd hinside.symm (not_entries (.inr he) (hclose _) (.inl (hclose _)))
  · obtain ⟨rfl, hend⟩ := he.before (fun _ => stops_of_closes (hclose _)) hinside
    exact ⟨rfl, hend⟩
  · exact (he.not_comma (hclose _) hinside).elim

theorem Decodes.set {e : Phrase (.level .expression)} {rest : Phrase .items} (he : e.Decodes)
    (hrest : rest.Decodes) : (set e rest).Decodes := by
  intro q r r' _ _ h
  have hclose : ∀ rest, Closes (.of "\x7d" :: rest) := closes_cons (by simp [Word.closers])
  simp only [words, List.cons_append, List.nil_append, List.append_assoc] at h
  obtain ⟨rest', rfl, hinside⟩ | ⟨e', rfl, hinside⟩ | ⟨e', rest', rfl, hinside⟩ := exists_of_brace h
  · exact absurd hinside.symm (not_entries (.inr he) (hclose _) (.inr ⟨_, rfl⟩))
  · exact (he.not_last (hclose _) hinside).elim
  · obtain ⟨rfl, htail⟩ := he.before stops_comma hinside
    obtain ⟨rfl, hend⟩ := hrest.before hclose htail
    exact ⟨rfl, hend⟩

/-! ### Lists -/

theorem Decodes.single {e : Phrase (.level .expression)} (he : e.Decodes) : (single e).Decodes := by
  intro q r r' hr hr' h
  cases q with
  | single e' =>
    obtain ⟨rfl, hend⟩ := he _ _ _ (stops_of_closes hr) (stops_of_closes hr') h
    exact ⟨rfl, hend⟩
  | commas e' rest =>
    simp only [words, List.cons_append, List.append_assoc] at h
    exact (he.not_comma hr h).elim

theorem Decodes.commas {e : Phrase (.level .expression)} {rest : Phrase .items} (he : e.Decodes)
    (hrest : rest.Decodes) : (commas e rest).Decodes := by
  intro q r r' hr hr' h
  simp only [words, List.cons_append, List.append_assoc] at h
  cases q with
  | single e' =>
    exact (he.not_last hr' h).elim
  | commas e' rest' =>
    simp only [words, List.cons_append, List.append_assoc] at h
    obtain ⟨rfl, htail⟩ := he.before stops_comma h
    obtain ⟨rfl, hend⟩ := hrest _ _ _ hr hr' htail
    exact ⟨rfl, hend⟩

/-! ### All phrases -/

theorem decodes_and {s : Symbol} (p : Phrase s) : p.Decodes ∧ p.KeyDecodes := by
  -- Sets and mappings begin alike, so that entries carry along what their first key decodes.
  induction p with
  | single e he => exact ⟨he.1.single, trivial⟩
  | commas e rest he hrest => exact ⟨he.1.commas hrest.1, trivial⟩
  | chain first rest hfirst hrest => exact ⟨hfirst.1.chain hrest.1, trivial⟩
  | tailEnd => exact ⟨.tailEnd, trivial⟩
  | tailMore op _ e rest he hrest => exact ⟨he.1.tailMore hrest.1, trivial⟩
  | not e he => exact ⟨he.1.not, trivial⟩
  | compared e he => exact ⟨he.1.compared, trivial⟩
  | comparison first rest hfirst hrest => exact ⟨hfirst.1.comparison hrest.1, trivial⟩
  | comparisonsEnd => exact ⟨.comparisonsEnd, trivial⟩
  | comparisonsMore op e rest he hrest => exact ⟨he.1.comparisonsMore hrest.1, trivial⟩
  | signed op _ e he => exact ⟨he.1.signed, trivial⟩
  | unsigned e he => exact ⟨he.1.unsigned, trivial⟩
  | base e he => exact ⟨he.1.base, trivial⟩
  | power e exponent he hexponent => exact ⟨he.1.power hexponent.1, trivial⟩
  | primary e rest he hrest => exact ⟨he.1.primary hrest.1, trivial⟩
  | suffixesEnd => exact ⟨.suffixesEnd, trivial⟩
  | call args rest hargs hrest => exact ⟨hargs.1.call hrest.1, trivial⟩
  | attr label _ rest hrest => exact ⟨hrest.1.attr, trivial⟩
  | subscript i rest hi hrest => exact ⟨hi.1.subscript hrest.1, trivial⟩
  | argumentsEnd => exact ⟨.argumentsEnd, trivial⟩
  | positional e he => exact ⟨he.1.positional, trivial⟩
  | positionalMore e rest he hrest => exact ⟨he.1.positionalMore hrest.1, trivial⟩
  | keyword label e he => exact ⟨he.1.keyword, trivial⟩
  | keywordMore label e rest he hrest => exact ⟨he.1.keywordMore hrest.1, trivial⟩
  | index e he => exact ⟨he.1.index, trivial⟩
  | slice lower rest hlower hrest => exact ⟨hlower.1.slice hrest.1, trivial⟩
  | bound e he => exact ⟨he.1.bound, trivial⟩
  | boundMore e rest he hrest => exact ⟨he.1.boundMore hrest.1, trivial⟩
  | absent => exact ⟨.absent, trivial⟩
  | present e he => exact ⟨he.1.present, trivial⟩
  | itemsEnd => exact ⟨.itemsEnd, trivial⟩
  | item e he => exact ⟨he.1.item, trivial⟩
  | itemMore e rest he hrest => exact ⟨he.1.itemMore hrest.1, trivial⟩
  | entriesEnd => exact ⟨.entriesEnd, trivial⟩
  | entry key value hkey hvalue => exact ⟨hkey.1.entry hvalue.1, hkey.1⟩
  | entryMore key value rest hkey hvalue hrest => exact ⟨hkey.1.entryMore hvalue.1 hrest.1, hkey.1⟩
  | number text => exact ⟨.number, trivial⟩
  | string text => exact ⟨.string, trivial⟩
  | constant text value _ => exact ⟨.constant, trivial⟩
  | name text _ => exact ⟨.name, trivial⟩
  | unit => exact ⟨.unit, trivial⟩
  | group e he => exact ⟨he.1.group, trivial⟩
  | tuple e rest he hrest => exact ⟨he.1.tuple hrest.1, trivial⟩
  | list rest hrest => exact ⟨hrest.1.list, trivial⟩
  | dict rest hrest => exact ⟨hrest.1.dict hrest.2, trivial⟩
  | singleton e he => exact ⟨he.1.singleton, trivial⟩
  | set e rest he hrest => exact ⟨he.1.set hrest.1, trivial⟩

theorem decodes {s : Symbol} (p : Phrase s) : p.Decodes := p.decodes_and.1

/-- Every symbol is stopped by the end of the words. -/
theorem stops_nil (s : Symbol) : s.Stops [] := by
  have hlevel : ∀ l : Level, clings [] < l.tightness := by
    intro l
    cases l with
    | chain t => cases t <;> exact Nat.succ_pos _
    | _ => exact Nat.succ_pos _
  have hcloses : Closes [] := by
    intro w hw
    cases hw
  cases s with
  | level l =>
    cases l with
    | list => exact hcloses
    | _ => exact hlevel _
  | tail t => exact hlevel _
  | comparisons => exact hlevel .comparison
  | suffixes => exact hlevel .primary
  | part => exact stops_part hcloses
  | _ => exact hcloses

/-- No two phrases are written with the same words. -/
theorem words_injective {s : Symbol} : Function.Injective (words (s := s)) := by
  intro p q h
  exact (p.decodes q [] [] (stops_nil s) (stops_nil s) (by rw [h])).1

end Phrase

end Scriptlet
