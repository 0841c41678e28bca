import Scriptlet.Proofs.Grammar.Balance
import Scriptlet.Proofs.Parse.Whole

/-
  Operands in parentheses.

  Where the only word outside of brackets is an operator between two operands, the phrase is that operator
  with what is in front of it and behind it; and words in one pair of parentheses are an atom with a list in
  it. So a phrase for two operands in parentheses holds a phrase for each of them, unless what is written
  between the parentheses closes them itself.

  What is proved:
    1. `Phrase.exists_operands` — an operator that stands alone outside of brackets divides its phrase.
    2. `Phrase.exists_inside` — what stands in one pair of parentheses is a list.
    3. `derives_operands_iff` — a name and a list in parentheses with an operator between them.
-/

namespace Scriptlet

namespace Word

theorem paren_mem_openers : Word.of "(" ∈ openers := List.mem_cons_self

theorem paren_mem_closers : Word.of ")" ∈ closers := List.mem_cons_self

/-- A word that is no operator is no parenthesis. -/
theorem ne_paren {kind : TokenKind} (hkind : kind ≠ .operator) (text : Text) :
    (⟨kind, text⟩ : Word) ≠ .of "(" :=
  fun h => (Word.IsPlain.of_kind (w := ⟨kind, text⟩) hkind).notOpener (h ▸ paren_mem_openers)

end Word

/-- A comparison is written with no operator of arithmetic. -/
theorem CompareOp.not_mem_words (op' : CompareOp) (op : BinaryOp) :
    Joint.word (.binary op) ∉ op'.words := by
  cases op' <;> cases op <;> simp [words, Joint.word, BinaryOp.symbol]

/-- Nothing stands behind an atom with an operator of arithmetic outside of brackets. -/
theorem Joint.not_suffix (op : BinaryOp) :
    ¬ ((Joint.binary op).word = .of "." ∨ (Joint.binary op).word.kind = .name) := by
  cases op <;> simp [word, BinaryOp.symbol, Word.kind_of, Token.operators]

namespace Phrase

/-! ## What stands outside of brackets behind an atom -/

/-- What stands behind an atom has points and names outside of brackets, and nothing else. -/
theorem suffixes_outside (p : Phrase .suffixes) : ∃ us, Closed p.words us ∧
    ∀ u ∈ us, u = .of "." ∨ u.kind = .name := by
  generalize hs : Symbol.suffixes = s at p
  induction p with
  | suffixesEnd => exact ⟨[], .nil, List.forall_mem_nil _⟩
  | call args rest _ ih =>
    obtain ⟨us, hus, hall⟩ := ih rfl
    obtain ⟨xs, hxs⟩ := args.closed
    exact ⟨us, hxs.bracketed Word.paren_mem_openers Word.paren_mem_closers hus, hall⟩
  | attr label _ rest ih =>
    obtain ⟨us, hus, hall⟩ := ih rfl
    have hpoint : (Word.of ".").IsPlain := .of (by decide)
    have hname : (⟨.name, label⟩ : Word).IsPlain := .of_kind (by simp)
    exact ⟨_, (hus.cons hname.notOpener hname.notCloser).cons hpoint.notOpener hpoint.notCloser,
      List.forall_mem_cons.mpr ⟨.inl rfl, List.forall_mem_cons.mpr ⟨.inr rfl, hall⟩⟩⟩
  | subscript i rest _ ih =>
    obtain ⟨us, hus, hall⟩ := ih rfl
    obtain ⟨xs, hxs⟩ := i.closed
    exact ⟨us, hxs.bracketed (by simp [Word.openers]) (by simp [Word.closers]) hus, hall⟩
  | _ => cases hs

/-- An atom that begins with a parenthesis is what stands in it: nothing or a list. -/
theorem atom_inside (p : Phrase (.level .atom)) (hhead : p.words.head? = some (.of "(")) :
    ∃ ws us, p.words = .of "(" :: (ws ++ [.of ")"]) ∧ Closed ws us ∧
      (ws = [] ∨ ∃ q : Phrase (.level .list), q.words = ws ∧ q.meaning = p.meaning) := by
  cases p with
  | number text | string text | constant text | name text =>
    exact absurd (Option.some.inj hhead) (Word.ne_paren (by decide) _)
  | unit => exact ⟨[], [], rfl, .nil, .inl rfl⟩
  | group e =>
    obtain ⟨us, hus⟩ := e.closed
    exact ⟨e.words, us, rfl, hus, .inr ⟨.single e, rfl, rfl⟩⟩
  | tuple e rest =>
    obtain ⟨us, hus⟩ := (commas e rest).closed
    refine ⟨(commas e rest).words, us, ?_, hus, .inr ⟨.commas e rest, rfl, rfl⟩⟩
    simp only [words, List.append_assoc, List.cons_append]
  | list rest | dict rest | singleton e | set e rest =>
    exact absurd (Option.some.inj hhead) (by simp)

/-- Nothing of an atom in parentheses stands outside of brackets. -/
theorem closed_atom {p : Phrase (.level .atom)} (hhead : p.words.head? = some (.of "(")) :
    Closed p.words [] := by
  obtain ⟨ws, us, hwords, hus, -⟩ := p.atom_inside hhead
  rw [hwords]
  exact hus.bracketed Word.paren_mem_openers Word.paren_mem_closers .nil

/-! ## An operator outside of brackets -/

/-- The words are those of a primary, or of the operator between two operands that have nothing outside of
brackets. -/
def IsDivided (op : BinaryOp) (ws : List Word) (m : Expr) : Prop :=
  (∃ q : Phrase (.level .primary), q.words = ws ∧ q.meaning = m) ∨
    ∃ (a b : Level) (l : Phrase (.level a)) (r : Phrase (.level b)),
      ws = l.words ++ Joint.word (.binary op) :: r.words ∧ Closed l.words [] ∧ Closed r.words [] ∧
        m = .binary Expr.nowhere op l.meaning r.meaning

/-- What is said of the phrases of each symbol: if there is nothing outside of brackets, or the operator
alone, a phrase that begins with a parenthesis is divided. -/
def Divides (op : BinaryOp) : {s : Symbol} → Phrase s → Prop
  | .level _, p => ∀ xs, Closed p.words xs → xs = [] ∨ xs = [Joint.word (.binary op)] →
      p.words.head? = some (.of "(") → IsDivided op p.words p.meaning
  | _, _ => True

/-- Where nothing stands outside of brackets but one word at most, a word that is no bracket is that one. -/
theorem only_around {ws us vs xs : List Word} {w v : Word} (hws : Closed ws us) (hw : w.IsPlain)
    (hxs : xs = [] ∨ xs = [v]) (h : Closed (ws ++ w :: vs) xs) : us = [] ∧ w = v ∧ Closed vs [] := by
  obtain ⟨ys, hvs, rfl⟩ := hws.around hw.notOpener hw.notCloser h
  rcases hxs with heq | heq
  · exact absurd heq (by simp)
  cases us with
  | nil =>
    obtain ⟨rfl, rfl⟩ := List.cons.inj heq
    exact ⟨rfl, rfl, hvs⟩
  | cons u us => exact absurd (congrArg List.length heq) (by simp)

theorem divides_chain {op : BinaryOp} {t : Tier} {first : Phrase (.level t.operand)}
    (hfirst : first.Divides op) (rest : Phrase (.tail t)) : (chain first rest).Divides op := by
  intro xs h hxs hhead
  cases rest with
  | tailEnd =>
    have hwords : (chain first .tailEnd).words = first.words := List.append_nil _
    rw [hwords] at h hhead ⊢
    exact hfirst xs h hxs hhead
  | tailMore op' htier e rest =>
    obtain ⟨us, hus⟩ := first.closed
    obtain ⟨rfl, hword, hrest⟩ := only_around hus (Joint.isPlain_word op') hxs h
    obtain rfl := Joint.word_inj hword
    cases rest with
    | tailEnd =>
      rw [words, List.append_nil] at hrest
      refine .inr ⟨_, _, first, e, ?_, hus, hrest, rfl⟩
      simp only [words, List.append_nil]
    | tailMore op' _ e' rest =>
      obtain ⟨us, hus⟩ := e.closed
      have hplain := Joint.isPlain_word op'
      obtain ⟨ys, -, hnil⟩ := hus.around hplain.notOpener hplain.notCloser hrest
      exact absurd (congrArg List.length hnil) (by simp)

theorem divides_comparison {op : BinaryOp} {first : Phrase (.level (.chain .sum))}
    (hfirst : first.Divides op) (rest : Phrase .comparisons) : (comparison first rest).Divides op := by
  intro xs h hxs hhead
  cases rest with
  | comparisonsEnd =>
    have hwords : (comparison first .comparisonsEnd).words = first.words := List.append_nil _
    rw [hwords] at h hhead ⊢
    exact hfirst xs h hxs hhead
  | comparisonsMore op' e rest =>
    obtain ⟨us, hus⟩ := first.closed
    obtain ⟨w, ws, hop'⟩ := List.exists_cons_of_ne_nil
      (show op'.words ≠ [] by cases op' <;> exact List.cons_ne_nil _ _)
    have hwords : (comparison first (.comparisonsMore op' e rest)).words =
        first.words ++ w :: (ws ++ (e.words ++ rest.words)) := by
      simp only [words, hop', List.cons_append]
    rw [hwords] at h
    have hw : w ∈ op'.words := by rw [hop']; exact List.mem_cons_self
    obtain ⟨-, rfl, -⟩ := only_around hus (op'.isPlain_words w hw) hxs h
    exact absurd hw (op'.not_mem_words op)

theorem divides {op : BinaryOp} (hop : op ≠ .pow) {s : Symbol} (p : Phrase s) : p.Divides op := by
  induction p with
  | single e ih => exact ih
  | commas e rest =>
    intro xs h hxs _
    obtain ⟨us, hus⟩ := e.closed
    obtain ⟨-, hcomma, -⟩ := only_around hus (.of (by decide)) hxs h
    cases op <;> simp [Joint.word, BinaryOp.symbol] at hcomma
  | chain first rest ih => exact divides_chain ih rest
  | not e => exact fun _ _ _ hhead => absurd (Option.some.inj hhead) (by simp)
  | compared e ih => exact ih
  | comparison first rest ih => exact divides_comparison ih rest
  | signed op' hsign e =>
    refine fun _ _ _ hhead => absurd (Option.some.inj hhead) ?_
    cases op' <;> simp [UnaryOp.symbol]
  | unsigned e ih | base e ih => exact ih
  | power e exponent =>
    intro xs h hxs _
    obtain ⟨us, hus⟩ := e.closed
    obtain ⟨-, hpower, -⟩ := only_around hus (.of (by decide)) hxs h
    cases op <;> simp [Joint.word, BinaryOp.symbol] at hpower hop
  | primary e rest => exact fun _ _ _ _ => .inl ⟨.primary e rest, rfl, rfl⟩
  | number text | string text | constant text | name text =>
    exact fun _ _ _ hhead => absurd (Option.some.inj hhead) (Word.ne_paren (by decide) _)
  | unit => exact fun _ _ _ _ => .inl ⟨.primary .unit .suffixesEnd, List.append_nil _, rfl⟩
  | group e => exact fun _ _ _ _ => .inl ⟨.primary (.group e) .suffixesEnd, List.append_nil _, rfl⟩
  | tuple e rest =>
    exact fun _ _ _ _ => .inl ⟨.primary (.tuple e rest) .suffixesEnd, List.append_nil _, rfl⟩
  | list rest | dict rest | singleton e | set e rest =>
    exact fun _ _ _ hhead => absurd (Option.some.inj hhead) (by simp)
  | _ => exact trivial

/-- A primary that begins with a parenthesis is an atom that does, and what stands behind it. -/
theorem exists_atom (p : Phrase (.level .primary)) (hhead : p.words.head? = some (.of "(")) :
    ∃ (e : Phrase (.level .atom)) (rest : Phrase .suffixes), p = .primary e rest ∧
      e.words.head? = some (.of "(") := by
  cases p with
  | primary e rest =>
    obtain ⟨w, ws, hw⟩ := List.exists_cons_of_ne_nil (Parse.words_ne_nil e)
    refine ⟨e, rest, rfl, ?_⟩
    rw [words, hw] at hhead
    rw [hw]
    exact hhead

variable {l : Level} {op : BinaryOp}

/-- An operator that stands alone outside of brackets divides its phrase. -/
theorem exists_operands (hop : op ≠ .pow) (p : Phrase (.level l))
    (h : Closed p.words [Joint.word (.binary op)]) (hhead : p.words.head? = some (.of "(")) :
    ∃ (a b : Level) (left : Phrase (.level a)) (right : Phrase (.level b)),
      p.words = left.words ++ Joint.word (.binary op) :: right.words ∧ Closed left.words [] ∧
        Closed right.words [] ∧ p.meaning = .binary Expr.nowhere op left.meaning right.meaning := by
  rcases p.divides hop _ h (.inr rfl) hhead with ⟨q, hwords, -⟩ | hoperands
  · rw [← hwords] at h hhead
    obtain ⟨e, rest, rfl, hparen⟩ := q.exists_atom hhead
    obtain ⟨us, hus, hall⟩ := rest.suffixes_outside
    have hbehind := ((closed_atom hparen).append hus).unique h
    have hword := hall (Joint.word (.binary op)) (by rw [← List.nil_append us, hbehind]; simp)
    exact absurd hword (Joint.not_suffix op)
  · exact hoperands

/-- What stands in one pair of parentheses is a list. -/
theorem exists_inside (p : Phrase (.level l)) {ws us : List Word} (hws : Closed ws us) (hne : ws ≠ [])
    (h : p.words = .of "(" :: (ws ++ [.of ")"])) :
    ∃ q : Phrase (.level .list), q.words = ws ∧ q.meaning = p.meaning := by
  have hclosed : Closed p.words [] := by
    rw [h]
    exact hws.bracketed Word.paren_mem_openers Word.paren_mem_closers .nil
  rcases p.divides (show BinaryOp.add ≠ .pow by decide) _ hclosed (.inl rfl) (by rw [h]; rfl) with
    ⟨q, hwords, hmeaning⟩ | ⟨_, _, left, right, hwords, hleft, -, -⟩
  · obtain ⟨e, rest, rfl, hparen⟩ := q.exists_atom (by rw [hwords, h]; rfl)
    obtain ⟨vs, xs, he, hvs, hinside⟩ := e.atom_inside hparen
    -- The parenthesis that the atom ends with is the last word.
    have hsame : vs ++ .of ")" :: rest.words = ws ++ .of ")" :: [] := by
      rw [h, words, he, List.cons_append, List.append_assoc] at hwords
      exact (List.cons.inj hwords).2
    obtain ⟨rfl, hrest⟩ := hvs.closer_inj hws Word.paren_mem_closers hsame
    rcases hinside with rfl | ⟨list, hlist, hmeans⟩
    · exact absurd rfl hne
    · cases rest with
      | suffixesEnd => exact ⟨list, hlist, hmeans.trans hmeaning⟩
      | call args rest | attr label hname rest | subscript i rest => cases hrest
  · rw [hwords] at hclosed
    have hplus := Joint.isPlain_word (.binary .add)
    obtain ⟨ys, -, hnil⟩ := hleft.around hplus.notOpener hplus.notCloser hclosed
    cases hnil

/-! ## Operands that are put together -/

/-- A list in parentheses is an atom. -/
theorem exists_parenthesized (q : Phrase (.level .list)) :
    ∃ e : Phrase (.level .atom), e.words = .of "(" :: (q.words ++ [.of ")"]) ∧ e.meaning = q.meaning := by
  cases q with
  | single e => exact ⟨.group e, rfl, rfl⟩
  | commas e rest =>
    refine ⟨.tuple e rest, ?_, rfl⟩
    simp only [words, List.append_assoc, List.cons_append]

/-- An atom as an operand of a product. -/
def asFactor (e : Phrase (.level .atom)) : Phrase (.level .factor) :=
  .unsigned (.base (.primary e .suffixesEnd))

theorem words_asFactor (e : Phrase (.level .atom)) : e.asFactor.words = e.words := List.append_nil _

/-- A sum as a list. -/
def asList (e : Phrase (.level (.chain .sum))) : Phrase (.level .list) :=
  .single (.chain (.chain (.compared (.comparison e .comparisonsEnd)) .tailEnd) .tailEnd)

theorem words_asList (e : Phrase (.level (.chain .sum))) : e.asList.words = e.words := by
  simp only [asList, words, List.append_nil]

/-- An operator between two atoms. -/
theorem exists_joined (hop : op ≠ .pow) (left right : Phrase (.level .atom)) :
    ∃ p : Phrase (.level .list), p.words = left.words ++ Joint.word (.binary op) :: right.words ∧
      p.meaning = .binary Expr.nowhere op left.meaning right.meaning := by
  have htier : Joint.tier (.binary op) = some .sum ∨ Joint.tier (.binary op) = some .product := by
    cases op <;> simp [Joint.tier] at hop ⊢
  have hsides : left.asFactor.words ++ Joint.word (.binary op) :: right.asFactor.words =
      left.words ++ Joint.word (.binary op) :: right.words := by
    rw [words_asFactor, words_asFactor]
  rcases htier with htier | htier
  · refine ⟨(chain (t := .sum) (.chain (t := .product) left.asFactor .tailEnd)
      (.tailMore (.binary op) htier (.chain (t := .product) right.asFactor .tailEnd) .tailEnd)).asList,
      ?_, rfl⟩
    rw [words_asList]
    simp only [words, List.append_nil]
    exact hsides
  · refine ⟨(chain (t := .sum) (.chain (t := .product) left.asFactor
      (.tailMore (.binary op) htier right.asFactor .tailEnd)) .tailEnd).asList, ?_, rfl⟩
    rw [words_asList]
    simp only [words, List.append_nil]
    exact hsides

end Phrase

/-- What is derived opens its brackets before it closes them. -/
theorem Derives.opensFirst {ws : List Word} {tree : Expr} (h : Derives ws tree) : OpensFirst ws := by
  obtain ⟨p, rfl, -⟩ := h
  obtain ⟨us, hclosed⟩ := p.closed
  intro hcloses
  rw [Closed, hcloses] at hclosed
  cases hclosed

/-- The words of an operator between a name and a list, both in parentheses. -/
def Word.operands (op : BinaryOp) (x : Text) (ws : List Word) : List Word :=
  (.of "(" :: ([⟨.name, x⟩] ++ [.of ")"])) ++ Joint.word (.binary op) :: (.of "(" :: (ws ++ [.of ")"]))

/-- The operator between a name and a list, both in parentheses, is derived as what they are. -/
theorem derives_operands_iff {op : BinaryOp} {x : Text} {ws : List Word} {tree : Expr} (hop : op ≠ .pow)
    (hx : x ∉ Token.keywords) (hws : OpensFirst ws) (hne : ws ≠ []) :
    Derives (Word.operands op x ws) tree ↔
      ∃ e, Derives ws e ∧ tree = .binary Expr.nowhere op (.name Expr.nowhere x) e := by
  -- The name by itself, and what it means.
  let name := (Phrase.chain (t := .sum) (.chain (t := .product)
    (Phrase.name x hx).asFactor .tailEnd) .tailEnd).asList
  have hname : name.words = [⟨.name, x⟩] := rfl
  have hplain : (⟨.name, x⟩ : Word).IsPlain := .of_kind (by simp)
  have hsingle := Closed.single hplain.notOpener hplain.notCloser
  have hoperator := Joint.isPlain_word (.binary op)
  constructor
  · rintro ⟨p, hwords, rfl⟩
    have hleft : Closed (.of "(" :: ([⟨.name, x⟩] ++ [.of ")"])) [] :=
      hsingle.bracketed Word.paren_mem_openers Word.paren_mem_closers .nil
    obtain ⟨us, hus⟩ : ∃ us, Closed ws us := by
      obtain ⟨xs, hxs⟩ := p.closed
      rw [hwords] at hxs
      obtain ⟨ys, hys, -⟩ := hleft.around hoperator.notOpener hoperator.notCloser hxs
      exact hys.of_bracketed Word.paren_mem_openers Word.paren_mem_closers hws
    have hright : Closed (.of "(" :: (ws ++ [.of ")"])) [] :=
      hus.bracketed Word.paren_mem_openers Word.paren_mem_closers .nil
    have hall : Closed p.words [Joint.word (.binary op)] := by
      rw [hwords]
      exact hleft.append (hright.cons hoperator.notOpener hoperator.notCloser)
    obtain ⟨_, _, left, right, hsplit, hl, -, hmeaning⟩ :=
      p.exists_operands hop hall (by rw [hwords]; rfl)
    obtain ⟨hx', hws'⟩ := hl.around_inj hleft hoperator.notOpener hoperator.notCloser
      (hsplit.symm.trans hwords)
    obtain ⟨q, hq, hqmeaning⟩ := left.exists_inside hsingle (List.cons_ne_nil _ _) hx'
    obtain ⟨e, he, hemeaning⟩ := right.exists_inside hus hne hws'
    obtain rfl : q = name := Phrase.words_injective (hq.trans hname.symm)
    exact ⟨e.meaning, ⟨e, he, rfl⟩, by rw [hmeaning, ← hqmeaning, ← hemeaning]; rfl⟩
  · rintro ⟨-, ⟨e, rfl, rfl⟩, rfl⟩
    obtain ⟨left, hleft, hleftmeans⟩ := name.exists_parenthesized
    obtain ⟨right, hright, hrightmeans⟩ := e.exists_parenthesized
    obtain ⟨p, hp, hpmeans⟩ := Phrase.exists_joined hop left right
    exact ⟨p, by rw [hp, hleft, hright, hname]; rfl, by rw [hpmeans, hleftmeans, hrightmeans]; rfl⟩

end Scriptlet
