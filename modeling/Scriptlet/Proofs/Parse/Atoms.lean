import Scriptlet.Proofs.Parse.Brackets

/-
  What the parser reads is what the grammar derives: atoms.

  Behind an opening bracket the next words tell which of the displays it is; each of them has one
  first part, so that at every step the phrases that are left can be listed.
-/

namespace Scriptlet

namespace Parse

variable {n : Nat} {item : Parse Expr}

/-- Nothing goes on an atom. -/
theorem stops_atom (r : List Word) : (Symbol.level .atom).Stops r := by
  show clings r < 8
  cases r with
  | nil => decide
  | cons w rest =>
    rw [clings]
    split
    · decide
    · exact Nat.lt_succ_of_le w.mem_of_grip.2.2.2.2.2.2.2

/-! ## Parentheses -/

/-- The phrases behind an opening parenthesis that is not closed at once. -/
theorem exists_parentheses {p : Phrase (.level .atom)} {ws r : List Word}
    (hopen : ws.head? ≠ some (.of ")")) (h : .of "(" :: ws = p.words ++ r) :
    ∃ (e : Phrase (.level .expression)) (x : List Word), ws = e.words ++ x ∧ FollowsItem ")" x r := by
  cases p with
  | unit => exact absurd (congrArg List.head? (List.cons.inj h).2) hopen
  | group e =>
    simp only [Phrase.words, List.cons_append, List.nil_append, List.append_assoc, List.cons.injEq,
      true_and] at h
    exact ⟨e, _, h, .inl rfl⟩
  | tuple e rest =>
    simp only [Phrase.words, List.cons_append, List.nil_append, List.append_assoc, List.cons.injEq,
      true_and] at h
    exact ⟨e, _, h, .inr ⟨rest, rfl⟩⟩
  | number _ | string _ | constant _ _ _ | name _ _ =>
    exact absurd (List.cons.inj h).1.symm (Phrase.ne_bracket (by decide) _ (by simp))
  | _ => exact absurd (List.cons.inj h).1 (by simp)

theorem parentheses_settles (hitem : Reads .expression item n) (start : Nat) (c : Cursor)
    (hc : Lexed c.words) (hn : c.words.length ≤ n) :
    Settles (.level .atom) (.of "(" :: c.words) [] (fun e m => e.bare = m)
      (parentheses item start c) := by
  rw [parentheses]
  refine ite_accept_elim hc (fun c₁ _ hwords => ?_) fun hopen => ?_
  · exact ⟨.unit, by rw [hwords]; rfl, stops_atom _, rfl⟩
  refine hitem.bind_elim hc hn (fun first c₁ e hc₁ hlt hsplit hstop hview honly => ?_)
    fun fault hfault hno => ⟨hfault, fun p r _ heq => ?_⟩
  · -- The expression that has been read is the first part of what the parentheses hold.
    have hfollows : ∀ (p : Phrase (.level .atom)) (r : List Word),
        .of "(" :: c.words = p.words ++ r → FollowsItem ")" c₁.words r := by
      intro p r heq
      obtain ⟨e', x, hx, hfollows⟩ := exists_parentheses hopen heq
      exact honly e' x (hfollows.stops bracket_mem_closers) hx ▸ hfollows
    refine ite_accept_elim hc₁ (fun c₂ _ hwords => ?_) fun hopen₁ => ?_
    · refine ⟨.group e, ?_, stops_atom _, hview⟩
      rw [hsplit, hwords]
      simp only [Phrase.words, List.cons_append, List.nil_append, List.append_assoc]
    have hcomma : ∀ (p : Phrase (.level .atom)) (r : List Word),
        .of "(" :: c.words = p.words ++ r →
          ∃ rest : Phrase .items, c₁.words = .of "," :: (rest.words ++ .of ")" :: r) :=
      fun p r heq => (hfollows p r heq).resolve_left fun h => hopen₁ (congrArg List.head? h)
    refine expect_bind_elim hc₁ (fun c₂ hc₂ hwords => ?_) fun fault hfault hne =>
      ⟨hfault, fun p r _ heq => ?_⟩
    · have hlength : c₁.words.length = c₂.words.length + 1 := by rw [hwords, List.length_cons]
      refine (items_settles hitem bracket_mem_closers [first] c₂ hc₂ (by omega)).bind_elim
        (fun all c₃ rest hsplit₂ _ hview₂ => ⟨.tuple e rest, ?_, stops_atom _, ?_⟩)
        fun fault hfault hno => ⟨hfault, fun p r _ heq => ?_⟩
      · rw [hsplit, hwords, hsplit₂]
        simp only [Phrase.words, List.cons_append, List.nil_append, List.append_assoc]
      · show Expr.tuple _ (Expr.bareItems all) = Expr.tuple _ (e.meaning :: rest.meaning)
        rw [hview₂, ← hview]
        rfl
      · obtain ⟨rest, hmore⟩ := hcomma p r heq
        exact hno rest r (closes_cons bracket_mem_closers r)
          (List.cons.inj (hwords.symm.trans hmore)).2
    · obtain ⟨rest, hmore⟩ := hcomma p r heq
      exact hne (congrArg List.head? hmore)
  · obtain ⟨e, x, hx, hfollows⟩ := exists_parentheses hopen heq
    exact hno e x (hfollows.stops bracket_mem_closers) hx

/-! ## Braces -/

/-- What follows the first part of a set or mapping display, up to the words `r` behind it. -/
def FollowsFirst (x r : List Word) : Prop :=
  FollowsItem "\x7d" x r ∨
    ∃ (value : Phrase (.level .expression)) (y : List Word) (m : List (Expr × Expr)),
      x = .of ":" :: (value.words ++ y) ∧ FollowsEntry y r m

theorem FollowsFirst.stops {x r : List Word} (h : FollowsFirst x r) :
    (Symbol.level .expression).Stops x := by
  rcases h with h | ⟨value, y, m, rfl, -⟩
  · exact h.stops brace_mem_closers
  · exact Phrase.stops_colon _

/-- The phrases behind an opening brace that is not closed at once. -/
theorem exists_braces {p : Phrase (.level .atom)} {ws r : List Word}
    (hopen : ws.head? ≠ some (.of "\x7d")) (h : .of "\x7b" :: ws = p.words ++ r) :
    ∃ (e : Phrase (.level .expression)) (x : List Word), ws = e.words ++ x ∧ FollowsFirst x r := by
  cases p with
  | dict rest =>
    simp only [Phrase.words, List.cons_append, List.nil_append, List.append_assoc, List.cons.injEq,
      true_and] at h
    obtain ⟨key, value, y, m, heq, hy⟩ := exists_entry hopen h
    exact ⟨key, _, heq, .inr ⟨value, y, m, rfl, hy⟩⟩
  | singleton e =>
    simp only [Phrase.words, List.cons_append, List.nil_append, List.append_assoc, List.cons.injEq,
      true_and] at h
    exact ⟨e, _, h, .inl (.inl rfl)⟩
  | set e rest =>
    simp only [Phrase.words, List.cons_append, List.nil_append, List.append_assoc, List.cons.injEq,
      true_and] at h
    exact ⟨e, _, h, .inl (.inr ⟨rest, rfl⟩)⟩
  | number _ | string _ | constant _ _ _ | name _ _ =>
    exact absurd (List.cons.inj h).1.symm (Phrase.ne_bracket (by decide) _ (by simp))
  | _ => exact absurd (List.cons.inj h).1 (by simp)

/-- Entries that follow a first one are those of a whole mapping display. -/
theorem FollowsEntry.exists_dict {y r : List Word} {m : List (Expr × Expr)}
    (h : FollowsEntry y r m) (key value : Phrase (.level .expression)) :
    ∃ p : Phrase (.level .atom),
      .of "\x7b" :: (key.words ++ .of ":" :: (value.words ++ y)) = p.words ++ r ∧
        p.meaning = .dict Expr.nowhere ((key.meaning, value.meaning) :: m) := by
  rcases (h.cons : FollowsEntry (.of "," :: (key.words ++ .of ":" :: (value.words ++ y))) r
    ((key.meaning, value.meaning) :: m)) with ⟨hend, -⟩ | ⟨p, hmore, hp⟩
  · exact absurd (List.cons.inj hend).1 (by simp)
  · refine ⟨.dict p, ?_, ?_⟩
    · rw [(List.cons.inj hmore).2]
      simp only [Phrase.words, List.cons_append, List.nil_append, List.append_assoc]
    · show Expr.dict _ p.meaning = _
      rw [hp]

/-- Behind the first key of a mapping display and its colon. -/
theorem keyed_settles (hitem : Reads .expression item n) (start : Nat) {first : Expr}
    {e : Phrase (.level .expression)} (hview : first.bare = e.meaning) {input : List Word} (c : Cursor)
    (hc : Lexed c.words) (hn : c.words.length ≤ n)
    (hinput : input = .of "\x7b" :: (e.words ++ .of ":" :: c.words))
    (hvalues : ∀ (p : Phrase (.level .atom)) (r : List Word), input = p.words ++ r →
      ∃ (value : Phrase (.level .expression)) (y : List Word) (m : List (Expr × Expr)),
        c.words = value.words ++ y ∧ FollowsEntry y r m) :
    Settles (.level .atom) input [] (fun (whole : Expr) m => whole.bare = m)
      ((do
        let value ← item
        let all ← entries item (← get).rest.length [(first, value)]
        expect "\x7d"
        return Expr.dict (← spanFrom start) all) c) := by
  refine hitem.bind_elim hc hn (fun value c₁ v hc₁ hlt hsplit hstop hview₁ honly => ?_)
    fun fault hfault hno => ⟨hfault, fun p r _ heq => ?_⟩
  · rw [bind_of_ok (get_apply c₁)]
    have hentries : ∀ (p : Phrase (.level .atom)) (r : List Word), input = p.words ++ r →
        ∃ m, FollowsEntry c₁.words r m := by
      intro p r heq
      obtain ⟨v', y, m, hy, hfollows⟩ := hvalues p r heq
      exact ⟨m, honly v' y hfollows.stops hy ▸ hfollows⟩
    have hall := entries_settles hitem c₁.rest.length [(first, value)] c₁ hc₁ (by omega)
      (Nat.le_of_eq c₁.length_words)
    match hresult : entries item c₁.rest.length [(first, value)] c₁, hall with
    | .ok (all, c₂), .inl ⟨r, m, hr, hfollows, hall⟩ =>
      rw [bind_of_ok hresult]
      refine expect_bind_elim (hr ▸ hfollows.lexed hc₁) (fun c₃ _ hwords₃ => ?_)
        fun _ _ hne => absurd (congrArg List.head? hr) hne
      obtain ⟨p, hp, hmeaning⟩ := hfollows.exists_dict e v
      refine ⟨p, ?_, stops_atom _, ?_⟩
      · rw [hinput, hsplit, hp, (List.cons.inj (hr.symm.trans hwords₃)).2]
        rfl
      · rw [hmeaning]
        show Expr.dict _ (Expr.bareEntries all) = _
        rw [hall, ← hview, ← hview₁]
        rfl
    | .ok (all, c₂), .inr ⟨hlexed, hne, hno⟩ =>
      rw [bind_of_ok hresult]
      refine expect_bind_elim hlexed (fun c₃ _ hwords₃ => absurd (congrArg List.head? hwords₃) hne)
        fun fault hfault _ => ⟨hfault, fun p r _ heq => ?_⟩
      obtain ⟨m, hfollows⟩ := hentries p r heq
      exact hno r m hfollows
    | .error fault, ⟨hfault, hno⟩ =>
      rw [bind_of_error hresult]
      refine ⟨hfault, fun p r _ heq => ?_⟩
      obtain ⟨m, hfollows⟩ := hentries p r heq
      exact hno r m hfollows
  · obtain ⟨v, y, m, hy, hfollows⟩ := hvalues p r heq
    exact hno v y hfollows.stops hy

theorem braces_settles (hitem : Reads .expression item n) (start : Nat) (c : Cursor)
    (hc : Lexed c.words) (hn : c.words.length ≤ n) :
    Settles (.level .atom) (.of "\x7b" :: c.words) [] (fun e m => e.bare = m)
      (braces item start c) := by
  rw [braces]
  refine ite_accept_elim hc (fun c₁ _ hwords => ?_) fun hopen => ?_
  · exact ⟨.dict .entriesEnd, by rw [hwords]; rfl, stops_atom _, rfl⟩
  refine hitem.bind_elim hc hn (fun first c₁ e hc₁ hlt hsplit hstop hview honly => ?_)
    fun fault hfault hno => ⟨hfault, fun p r _ heq => ?_⟩
  · have hnext : ∀ (p : Phrase (.level .atom)) (r : List Word),
        .of "\x7b" :: c.words = p.words ++ r → FollowsFirst c₁.words r := by
      intro p r heq
      obtain ⟨e', x, hx, hfollows⟩ := exists_braces hopen heq
      exact honly e' x hfollows.stops hx ▸ hfollows
    refine ite_accept_elim hc₁ (fun c₂ hc₂ hwords => ?_) fun hnocolon => ?_
    · -- A mapping display: what has been read is its first key.
      have hlength : c₁.words.length = c₂.words.length + 1 := by rw [hwords, List.length_cons]
      refine keyed_settles hitem start hview c₂ hc₂ (by omega) (by rw [hsplit, hwords])
        fun p r heq => ?_
      rcases hnext p r heq with (h | ⟨rest, h⟩) | ⟨value, y, m, h, hy⟩
      · exact absurd (List.cons.inj (hwords.symm.trans h)).1 (by simp)
      · exact absurd (List.cons.inj (hwords.symm.trans h)).1 (by simp)
      · exact ⟨value, y, m, (List.cons.inj (hwords.symm.trans h)).2, hy⟩
    have hitems : ∀ (p : Phrase (.level .atom)) (r : List Word),
        .of "\x7b" :: c.words = p.words ++ r → FollowsItem "\x7d" c₁.words r := by
      intro p r heq
      rcases hnext p r heq with h | ⟨value, y, m, h, -⟩
      · exact h
      · exact absurd (congrArg List.head? h) hnocolon
    refine ite_accept_elim hc₁ (fun c₂ hc₂ hwords => ?_) fun hnocomma => ?_
    · have hlength : c₁.words.length = c₂.words.length + 1 := by rw [hwords, List.length_cons]
      refine (items_settles hitem brace_mem_closers [first] c₂ hc₂ (by omega)).bind_elim
        (fun all c₃ rest hsplit₂ _ hview₂ => ⟨.set e rest, ?_, stops_atom _, ?_⟩)
        fun fault hfault hno => ⟨hfault, fun p r _ heq => ?_⟩
      · rw [hsplit, hwords, hsplit₂]
        simp only [Phrase.words, List.cons_append, List.nil_append, List.append_assoc]
      · show Expr.set _ (Expr.bareItems all) = Expr.set _ (e.meaning :: rest.meaning)
        rw [hview₂, ← hview]
        rfl
      · rcases hitems p r heq with h | ⟨rest, h⟩
        · exact absurd (List.cons.inj (hwords.symm.trans h)).1 (by simp)
        · exact hno rest r (closes_cons brace_mem_closers r) (List.cons.inj (hwords.symm.trans h)).2
    · refine expect_bind_elim hc₁ (fun c₂ _ hwords => ⟨.singleton e, ?_, stops_atom _, ?_⟩)
        fun fault hfault hne => ⟨hfault, fun p r _ heq => ?_⟩
      · rw [hsplit, hwords]
        simp only [Phrase.words, List.cons_append, List.nil_append, List.append_assoc]
      · show Expr.set _ [first.bare] = Expr.set _ [e.meaning]
        rw [hview]
      · rcases hitems p r heq with h | ⟨rest, h⟩
        · exact hne (congrArg List.head? h)
        · exact hnocomma (congrArg List.head? h)
  · obtain ⟨e, x, hx, hfollows⟩ := exists_braces hopen heq
    exact hno e x hfollows.stops hx

/-! ## Atoms -/

/-- Every atom begins with a word that opens one. -/
theorem opensAtom {w : Word} {ws r : List Word} {p : Phrase (.level .atom)}
    (h : w :: ws = p.words ++ r) : w.OpensAtom := by
  obtain ⟨w', rest, hwords, hopens, -⟩ := p.begins
  rw [hwords] at h
  obtain ⟨rfl, -⟩ := List.cons.inj h
  rcases hopens with hopens | ⟨hsigns, -⟩ | ⟨hnot, -⟩
  · exact hopens
  · cases hsigns
  · cases hnot

/-- The phrases behind an opening square bracket. -/
theorem exists_square {p : Phrase (.level .atom)} {ws r : List Word}
    (h : .of "[" :: ws = p.words ++ r) :
    ∃ rest : Phrase .items, ws = rest.words ++ .of "]" :: r := by
  cases p with
  | list rest =>
    simp only [Phrase.words, List.cons_append, List.nil_append, List.append_assoc, List.cons.injEq,
      true_and] at h
    exact ⟨rest, h⟩
  | number _ | string _ | constant _ _ _ | name _ _ =>
    exact absurd (List.cons.inj h).1.symm (Phrase.ne_bracket (by decide) _ (by simp))
  | _ => exact absurd (List.cons.inj h).1 (by simp)

theorem number_apply {token : Token} (htoken : token.word.IsLexed) (hkind : token.kind = .number)
    (c : Cursor) : number token.text c = .ok (.ofNumber token.text, c) := by
  rw [number, Literal.ofNumber]
  split
  · rfl
  · rename_i hwhole
    have hshort : token.text.length ≤ NumberText.maxDigits :=
      htoken.short hkind (Bool.eq_false_iff.mpr hwhole)
    rw [if_neg (Nat.not_lt.mpr hshort)]
    rfl

/-- Behind an operator that comes next: something in brackets, or nothing. -/
theorem bracketed_settles (hitem : 0 < n → Reads .expression item (n - 1)) (start : Nat) (c : Cursor)
    (hc : Lexed c.words) (hn : c.words.length ≤ n) {w : Word} (hhead : c.words.head? = some w)
    (hkind : w.kind = .operator) :
    Settles (.level .atom) c.words [] (fun (whole : Expr) m => whole.bare = m)
      ((do
        if ← accept "(" then parentheses item start
        else if ← accept "[" then
          let all ← items item "]" []
          return Expr.list (← spanFrom start) all
        else if ← accept "\x7b" then braces item start
        else refuse .anything) c) := by
  refine ite_accept_elim hc (fun c₁ hc₁ hopen => ?_) fun hnoround => ?_
  · have hlength : c.words.length = c₁.words.length + 1 := by rw [hopen, List.length_cons]
    rw [hopen]
    exact parentheses_settles (hitem (by omega)) start c₁ hc₁ (by omega)
  refine ite_accept_elim hc (fun c₁ hc₁ hopen => ?_) fun hnosquare => ?_
  · have hlength : c.words.length = c₁.words.length + 1 := by rw [hopen, List.length_cons]
    refine (items_settles (hitem (by omega)) square_mem_closers [] c₁ hc₁ (by omega)).bind_elim
      (fun all c₂ rest hsplit _ hview => ⟨.list rest, ?_, stops_atom _, ?_⟩)
      fun fault hfault hno => ⟨hfault, fun p r _ heq => ?_⟩
    · rw [hopen, hsplit]
      simp only [Phrase.words, List.cons_append, List.nil_append, List.append_assoc]
    · show Expr.list _ (Expr.bareItems all) = Expr.list _ rest.meaning
      rw [hview]
      rfl
    · obtain ⟨rest, hmore⟩ := exists_square (hopen.symm.trans heq)
      exact hno rest r (closes_cons square_mem_closers r) hmore
  refine ite_accept_elim hc (fun c₁ hc₁ hopen => ?_) fun hnobrace => ?_
  · have hlength : c.words.length = c₁.words.length + 1 := by rw [hopen, List.length_cons]
    rw [hopen]
    exact braces_settles (hitem (by omega)) start c₁ hc₁ (by omega)
  obtain ⟨fault, hrefuse, hfault⟩ := refuse_isRefusal (α := Expr) .anything c
  rw [hrefuse]
  refine ⟨hfault, fun p r _ heq => ?_⟩
  obtain ⟨ws, hws⟩ := List.head?_eq_some_iff.mp hhead
  rcases opensAtom (hws.symm.trans heq) with h | h | ⟨h, -⟩ | h
  · cases hkind.symm.trans h
  · cases hkind.symm.trans h
  · cases hkind.symm.trans h
  · simp only [List.mem_cons, List.not_mem_nil, or_false] at h
    rcases h with rfl | rfl | rfl
    · exact hnoround hhead
    · exact hnosquare hhead
    · exact hnobrace hhead

theorem atom_reads (hitem : 0 < n → Reads .expression item (n - 1)) : Reads .atom (atom item) n := by
  rintro ⟨tokens, lastStop⟩ hc hn
  rw [atom, bind_of_ok (position_apply _), bind_of_ok (peek_apply _)]
  cases tokens with
  | nil =>
    obtain ⟨fault, hrefuse, hfault⟩ := refuse_isRefusal (α := Expr) .anything ⟨[], lastStop⟩
    simp only [List.head?_nil, hrefuse]
    refine ⟨hfault, fun p r _ heq => ?_⟩
    exact words_ne_nil p (List.append_eq_nil_iff.mp heq.symm).1
  | cons token rest =>
    have htoken : token.word.IsLexed := hc.head
    have hpass : advance ⟨token :: rest, lastStop⟩ = .ok ((), ⟨rest, token.stop⟩) := rfl
    have hwords : (⟨token :: rest, lastStop⟩ : Cursor).words =
        ⟨token.kind, token.text⟩ :: (⟨rest, token.stop⟩ : Cursor).words := rfl
    simp only [List.head?_cons]
    cases hkind : token.kind with
    | number =>
      simp only [bind_apply, hpass, spanFrom_apply, number_apply htoken hkind, pure_apply]
      exact ⟨.number token.text, by rw [hwords, hkind]; rfl, stops_atom _, rfl⟩
    | string =>
      simp only [bind_apply, hpass, spanFrom_apply, pure_apply]
      exact ⟨.string token.text, by rw [hwords, hkind]; rfl, stops_atom _, rfl⟩
    | name =>
      cases hconstant : constant? token.text with
      | some value =>
        simp only [bind_apply, hpass, spanFrom_apply, pure_apply]
        exact ⟨.constant token.text value hconstant, by rw [hwords, hkind]; rfl, stops_atom _, rfl⟩
      | none =>
        by_cases hkeyword : token.text ∈ Token.keywords
        · obtain ⟨fault, hrefuse, hfault⟩ :=
            refuse_isRefusal (α := Expr) .anything ⟨token :: rest, lastStop⟩
          simp only [List.contains_iff_mem.mpr hkeyword, if_true, hrefuse]
          refine ⟨hfault, fun p r _ heq => ?_⟩
          have hopens := opensAtom (hwords.symm.trans heq)
          rw [hkind] at hopens
          rcases hopens with h | h | ⟨-, h | h⟩ | h
          · cases h
          · cases h
          · exact h hkeyword
          · simp [hconstant] at h
          · exact Phrase.ne_bracket (by decide) _ h rfl
        · simp only [List.contains_eq_mem, hkeyword, decide_false, Bool.false_eq_true, if_false,
            bind_apply, hpass, spanFrom_apply, pure_apply]
          exact ⟨.name token.text hkeyword, by rw [hwords, hkind]; rfl, stops_atom _, rfl⟩
    | operator => exact bracketed_settles hitem _ _ hc hn (congrArg List.head? hwords) hkind

end Parse

end Scriptlet
