import Scriptlet.Proofs.Parse.Chains

/-
  What the parser reads is what the grammar derives: what stands between brackets.

  Items, entries and arguments are read up to their closing bracket. In each loop the words that are
  left have one phrase at most that the bracket follows; a step takes its first part off.
-/

namespace Scriptlet

namespace Parse

variable {n : Nat} {item : Parse Expr}

theorem bracket_mem_closers : Word.of ")" ∈ Word.closers := by simp [Word.closers]

theorem square_mem_closers : Word.of "]" ∈ Word.closers := by simp [Word.closers]

theorem brace_mem_closers : Word.of "\x7d" ∈ Word.closers := by simp [Word.closers]

/-! ## Items -/

theorem closer_ne_comma {w : Word} (hw : w ∈ Word.closers) : w ≠ .of "," := by
  rintro rfl
  simp [Word.closers] at hw

/-- What follows an item, up to the closing bracket and the words `r` behind it. -/
def FollowsItem (closing : Text) (ws r : List Word) : Prop :=
  ws = .of closing :: r ∨ ∃ rest : Phrase .items, ws = .of "," :: (rest.words ++ .of closing :: r)

theorem FollowsItem.stops {closing : Text} {ws r : List Word} (h : FollowsItem closing ws r)
    (hclosing : Word.of closing ∈ Word.closers) : (Symbol.level .expression).Stops ws := by
  rcases h with rfl | ⟨rest, rfl⟩
  · exact Phrase.stops_closer hclosing r
  · exact Phrase.stops_comma _

/-- Items that are not closed at once begin with an expression. -/
theorem exists_item {p : Phrase .items} {closing : Text} {ws r : List Word}
    (hopen : ws.head? ≠ some (.of closing)) (h : ws = p.words ++ .of closing :: r) :
    ∃ (e : Phrase (.level .expression)) (x : List Word),
      ws = e.words ++ x ∧ FollowsItem closing x r := by
  cases p with
  | itemsEnd => exact absurd (congrArg List.head? h) hopen
  | item e => exact ⟨e, _, h, .inl rfl⟩
  | itemMore e rest =>
    simp only [Phrase.words, List.append_assoc, List.cons_append] at h
    exact ⟨e, _, h, .inr ⟨rest, rfl⟩⟩

theorem itemsUpTo_settles (hitem : Reads .expression item n) {closing : Text}
    (hclosing : Word.of closing ∈ Word.closers) (steps : Nat) (done : List Expr) (c : Cursor)
    (hc : Lexed c.words) (hn : c.words.length ≤ n) (hsteps : c.words.length < steps) :
    Settles .items c.words [.of closing]
      (fun es m => Expr.bareItems es = Expr.bareItems done.reverse ++ m)
      (itemsUpTo item closing steps done c) := by
  induction steps generalizing done c with
  | zero => exact absurd hsteps (Nat.not_lt_zero _)
  | succ steps ih =>
    rw [itemsUpTo]
    refine ite_accept_elim hc (fun c₁ _ hwords => ?_) fun hopen => ?_
    · exact ⟨.itemsEnd, hwords, closes_cons hclosing _, (List.append_nil _).symm⟩
    refine hitem.bind_elim hc hn (fun next c₁ e hc₁ hlt hsplit hstop hview honly => ?_)
      fun fault hfault hno => ⟨hfault, fun p r hr heq => ?_⟩
    · -- The next expression is the first part of every phrase of these items.
      have hfollows : ∀ (p : Phrase .items) (r : List Word), c.words = p.words ++ .of closing :: r →
          FollowsItem closing c₁.words r := by
        intro p r heq
        obtain ⟨e', x, hx, hfollows⟩ := exists_item hopen heq
        exact honly e' x (hfollows.stops hclosing) hx ▸ hfollows
      refine ite_accept_elim hc₁ (fun c₂ hc₂ hwords => ?_) fun hhead => ?_
      · have hlength : c₁.words.length = c₂.words.length + 1 := by rw [hwords, List.length_cons]
        refine (ih (next :: done) c₂ hc₂ (by omega) (by omega)).elim
          (fun all c₃ rest hsplit₂ hstop₂ hview₂ => ⟨.itemMore e rest, ?_, hstop₂, ?_⟩)
          fun fault hfault hno => ⟨hfault, fun p r hr heq => ?_⟩
        · rw [hsplit, hwords, hsplit₂]
          simp only [Phrase.words, List.append_assoc, List.cons_append]
        · show Expr.bareItems all = Expr.bareItems done.reverse ++ e.meaning :: rest.meaning
          rw [hview₂, ← hview]
          simp [Expr.bareItems_eq]
        · rcases hfollows p r heq with hend | ⟨rest, hmore⟩
          · exact closer_ne_comma hclosing (List.cons.inj (hend.symm.trans hwords)).1
          · exact hno rest r hr (List.cons.inj (hwords.symm.trans hmore)).2
      · refine expect_bind_elim hc₁ (fun c₂ _ hwords => ?_) fun fault hfault hne =>
          ⟨hfault, fun p r hr heq => ?_⟩
        · refine ⟨.item e, by rw [hsplit, hwords]; rfl, closes_cons hclosing _, ?_⟩
          show Expr.bareItems (next :: done).reverse = Expr.bareItems done.reverse ++ [e.meaning]
          rw [← hview]
          simp [Expr.bareItems_eq]
        · rcases hfollows p r heq with hend | ⟨rest, hmore⟩
          · exact hne (congrArg List.head? hend)
          · exact hhead (congrArg List.head? hmore)
    · obtain ⟨e, x, hx, hfollows⟩ := exists_item hopen heq
      exact hno e x (hfollows.stops hclosing) hx

theorem items_settles (hitem : Reads .expression item n) {closing : Text}
    (hclosing : Word.of closing ∈ Word.closers) (done : List Expr) (c : Cursor)
    (hc : Lexed c.words) (hn : c.words.length ≤ n) :
    Settles .items c.words [.of closing]
      (fun es m => Expr.bareItems es = Expr.bareItems done.reverse ++ m)
      (items item closing done c) := by
  simp only [items, bind_apply, get_apply]
  exact itemsUpTo_settles hitem hclosing _ done c hc hn
    (by rw [Cursor.length_words]; exact Nat.lt_succ_self _)

/-! ## Entries -/

/-- What follows an entry of a mapping display, up to the closing brace and the words `r` behind it. -/
def FollowsEntry (ws r : List Word) (m : List (Expr × Expr)) : Prop :=
  (ws = .of "\x7d" :: r ∧ m = []) ∨
    ∃ p : Phrase .entries, ws = .of "," :: (p.words ++ .of "\x7d" :: r) ∧ p.meaning = m

theorem FollowsEntry.stops {ws r : List Word} {m : List (Expr × Expr)} (h : FollowsEntry ws r m) :
    (Symbol.level .expression).Stops ws := by
  rcases h with ⟨rfl, -⟩ | ⟨p, rfl, -⟩
  · exact Phrase.stops_closer brace_mem_closers r
  · exact Phrase.stops_comma _

/-- What comes behind the entries is lexed with them. -/
theorem FollowsEntry.lexed {ws r : List Word} {m : List (Expr × Expr)} (h : FollowsEntry ws r m)
    (hws : Lexed ws) : Lexed (.of "\x7d" :: r) := by
  rcases h with ⟨rfl, -⟩ | ⟨p, rfl, -⟩
  · exact hws
  · exact hws.tail.of_append

/-- What does not close begins with a key, a colon and a value. -/
theorem exists_entry {p : Phrase .entries} {ws r : List Word}
    (hopen : ws.head? ≠ some (.of "\x7d")) (h : ws = p.words ++ .of "\x7d" :: r) :
    ∃ (key value : Phrase (.level .expression)) (x : List Word) (m : List (Expr × Expr)),
      ws = key.words ++ .of ":" :: (value.words ++ x) ∧ FollowsEntry x r m := by
  cases p with
  | entriesEnd => exact absurd (congrArg List.head? h) hopen
  | entry key value =>
    refine ⟨key, value, _, _, ?_, .inl ⟨rfl, rfl⟩⟩
    simpa only [Phrase.words, List.append_assoc, List.cons_append] using h
  | entryMore key value rest =>
    refine ⟨key, value, _, _, ?_, .inr ⟨rest, rfl, rfl⟩⟩
    simpa only [Phrase.words, List.append_assoc, List.cons_append] using h

/-- Entries that follow one go on as said, and a key and a value come before them. -/
theorem FollowsEntry.cons {key value : Phrase (.level .expression)} {x r : List Word}
    {m : List (Expr × Expr)} (h : FollowsEntry x r m) :
    FollowsEntry (.of "," :: (key.words ++ .of ":" :: (value.words ++ x))) r
      ((key.meaning, value.meaning) :: m) := by
  rcases h with ⟨rfl, rfl⟩ | ⟨p, rfl, rfl⟩
  · refine .inr ⟨.entry key value, ?_, rfl⟩
    simp only [Phrase.words, List.append_assoc, List.cons_append]
  · refine .inr ⟨.entryMore key value p, ?_, rfl⟩
    simp only [Phrase.words, List.append_assoc, List.cons_append]

/-- The outcome agrees with the grammar: what is left closes the display, or nothing would. -/
def SettlesEntries (ws : List Word) (done : List (Expr × Expr)) :
    Except ParseFault (List (Expr × Expr) × Cursor) → Prop
  | .ok (all, c) =>
    (∃ r m, c.words = .of "\x7d" :: r ∧ FollowsEntry ws r m ∧
      Expr.bareEntries all = Expr.bareEntries done.reverse ++ m) ∨
    (Lexed c.words ∧ c.words.head? ≠ some (.of "\x7d") ∧ ∀ r m, ¬ FollowsEntry ws r m)
  | .error fault => fault.IsRefusal ∧ ∀ r m, ¬ FollowsEntry ws r m

/-- Entries settle within so many steps, whatever has been read. -/
def SettlesSteps (item : Parse Expr) (n steps : Nat) : Prop :=
  ∀ (done : List (Expr × Expr)) (c : Cursor), Lexed c.words → c.words.length ≤ n →
    c.words.length ≤ steps → SettlesEntries c.words done (entries item steps done c)

/-- Behind a comma, a key and a colon comes a value with the entries that follow it. -/
theorem value_settles (hitem : Reads .expression item n) {steps : Nat} (ih : SettlesSteps item n steps)
    {done : List (Expr × Expr)} {key : Expr} {k : Phrase (.level .expression)}
    (hview : key.bare = k.meaning) {input : List Word} (c : Cursor) (hc : Lexed c.words)
    (hn : c.words.length ≤ n) (hsteps : c.words.length ≤ steps)
    (hinput : input = .of "," :: (k.words ++ .of ":" :: c.words))
    (hvalues : ∀ r m, FollowsEntry input r m →
      ∃ (value : Phrase (.level .expression)) (x : List Word) (m : List (Expr × Expr)),
        c.words = value.words ++ x ∧ FollowsEntry x r m) :
    SettlesEntries input done ((item >>= fun value => entries item steps ((key, value) :: done)) c) := by
  refine hitem.bind_elim hc hn (fun value c₁ v hc₁ hlt hsplit hstop hview₁ honly => ?_)
    fun fault hfault hno => ⟨hfault, fun r m h => ?_⟩
  · have hnext : ∀ r m, FollowsEntry input r m → ∃ m, FollowsEntry c₁.words r m := by
      intro r m h
      obtain ⟨v', x, m', heq, hx⟩ := hvalues r m h
      exact ⟨m', honly v' x hx.stops heq ▸ hx⟩
    have hrest := ih ((key, value) :: done) c₁ hc₁ (by omega) (by omega)
    match hresult : entries item steps ((key, value) :: done) c₁, hrest with
    | .ok (all, c₂), .inl ⟨r, m, hr, hfollows, hall⟩ =>
      refine .inl ⟨r, (k.meaning, v.meaning) :: m, hr, ?_, ?_⟩
      · rw [hinput, hsplit]
        exact hfollows.cons
      · rw [hall, ← hview, ← hview₁]
        simp [Expr.bareEntries_eq]
    | .ok (all, c₂), .inr ⟨hlexed, hne, hno⟩ =>
      refine .inr ⟨hlexed, hne, fun r m h => ?_⟩
      obtain ⟨m', hx⟩ := hnext r m h
      exact hno r m' hx
    | .error fault, ⟨hfault, hno⟩ =>
      refine ⟨hfault, fun r m h => ?_⟩
      obtain ⟨m', hx⟩ := hnext r m h
      exact hno r m' hx
  · obtain ⟨v, x, m', heq, hx⟩ := hvalues r m h
    exact hno v x hx.stops heq

/-- Behind a comma that nothing closes comes an entry with those that follow it. -/
theorem entry_settles (hitem : Reads .expression item n) {steps : Nat} (ih : SettlesSteps item n steps)
    {done : List (Expr × Expr)} (c : Cursor) (hc : Lexed c.words) (hn : c.words.length ≤ n)
    (hsteps : c.words.length ≤ steps) (hopen : c.words.head? ≠ some (.of "\x7d")) :
    SettlesEntries (.of "," :: c.words) done ((do
      let key ← item
      expect ":"
      let value ← item
      entries item steps ((key, value) :: done)) c) := by
  have hfirst : ∀ r m, FollowsEntry (.of "," :: c.words) r m →
      ∃ (key value : Phrase (.level .expression)) (x : List Word) (m : List (Expr × Expr)),
        c.words = key.words ++ .of ":" :: (value.words ++ x) ∧ FollowsEntry x r m := by
    rintro r m (⟨h, -⟩ | ⟨p, h, -⟩)
    · exact absurd (List.cons.inj h).1 (by simp)
    · exact exists_entry hopen (List.cons.inj h).2
  refine hitem.bind_elim hc hn (fun key c₁ k hc₁ hlt hsplit hstop hview honly => ?_)
    fun fault hfault hno => ⟨hfault, fun r m h => ?_⟩
  · refine expect_bind_elim hc₁ (fun c₂ hc₂ hwords => ?_) fun fault hfault hne =>
      ⟨hfault, fun r m h => ?_⟩
    · have hlength : c₁.words.length = c₂.words.length + 1 := by rw [hwords, List.length_cons]
      refine value_settles hitem ih hview c₂ hc₂ (by omega) (by omega) (by rw [hsplit, hwords])
        fun r m h => ?_
      obtain ⟨k', v, x, m', heq, hx⟩ := hfirst r m h
      have hend := honly k' _ (Phrase.stops_colon _) heq
      exact ⟨v, x, m', (List.cons.inj (hwords.symm.trans hend)).2, hx⟩
    · obtain ⟨k', v, x, m', heq, -⟩ := hfirst r m h
      exact hne (congrArg List.head? (honly k' _ (Phrase.stops_colon _) heq))
  · obtain ⟨k, v, x, m', heq, -⟩ := hfirst r m h
    exact hno k _ (Phrase.stops_colon _) heq

theorem entries_settles (hitem : Reads .expression item n) (steps : Nat) : SettlesSteps item n steps := by
  induction steps with
  | zero =>
    intro done c hc _ hsteps
    have hnil : c.words = [] := List.length_eq_zero_iff.mp (Nat.le_zero.mp hsteps)
    rw [entries, pure_apply, hnil]
    refine .inr ⟨hc, by simp [hnil], fun r m h => ?_⟩
    rcases h with ⟨h, -⟩ | ⟨p, h, -⟩ <;> cases h
  | succ steps ih =>
    intro done c hc hn hsteps
    rw [entries]
    refine ite_accept_elim hc (fun c₁ hc₁ hwords => ?_) fun hhead => ?_
    · have hlength : c.words.length = c₁.words.length + 1 := by rw [hwords, List.length_cons]
      rw [hwords]
      refine ite_at?_elim hc₁ (fun hclose => ?_) fun hopen =>
        entry_settles hitem ih c₁ hc₁ (by omega) (by omega) hopen
      obtain ⟨r, hr⟩ := List.head?_eq_some_iff.mp hclose
      exact .inl ⟨r, [], hr, .inr ⟨.entriesEnd, by rw [hr]; rfl, rfl⟩, (List.append_nil _).symm⟩
    · by_cases hclose : c.words.head? = some (.of "\x7d")
      · obtain ⟨r, hr⟩ := List.head?_eq_some_iff.mp hclose
        exact .inl ⟨r, [], hr, .inl ⟨hr, rfl⟩, (List.append_nil _).symm⟩
      · refine .inr ⟨hc, hclose, fun r m h => ?_⟩
        rcases h with ⟨h, -⟩ | ⟨p, h, -⟩
        · exact hclose (congrArg List.head? h)
        · exact hhead (congrArg List.head? h)

/-! ## Arguments -/

/-- What follows an argument of a call, up to the closing bracket and the words `r` behind it. -/
def FollowsArgument (named : Bool) (ws r : List Word)
    (m : List Expr × List (Span × Text × Expr)) : Prop :=
  (ws = .of ")" :: r ∧ m = ([], [])) ∨
    ∃ p : Phrase (.arguments named), ws = .of "," :: (p.words ++ .of ")" :: r) ∧ p.meaning = m

theorem FollowsArgument.stops {named : Bool} {ws r : List Word}
    {m : List Expr × List (Span × Text × Expr)} (h : FollowsArgument named ws r m) :
    (Symbol.level .expression).Stops ws := by
  rcases h with ⟨rfl, -⟩ | ⟨p, rfl, -⟩
  · exact Phrase.stops_closer bracket_mem_closers r
  · exact Phrase.stops_comma _

/-- Behind a name and `=` stands the value of an argument. -/
theorem exists_keyword {named : Bool} {p : Phrase (.arguments named)} {label : Text}
    {ws r : List Word} (h : ⟨.name, label⟩ :: .of "=" :: ws = p.words ++ .of ")" :: r) :
    ∃ (e : Phrase (.level .expression)) (x : List Word) (m : List Expr × List (Span × Text × Expr)),
      ws = e.words ++ x ∧ FollowsArgument true x r m := by
  cases p with
  | argumentsEnd =>
    exact absurd (congrArg Word.kind (List.cons.inj h).1) (by simp [Word.kind_of, Token.operators])
  | positional e => exact absurd h.symm (Phrase.ne_keyword e (by simp))
  | positionalMore e rest =>
    simp only [Phrase.words, List.append_assoc, List.cons_append] at h
    exact absurd h.symm (Phrase.ne_keyword e (by simp))
  | keyword label' e =>
    simp only [Phrase.words, List.cons_append, List.cons.injEq, true_and] at h
    exact ⟨e, _, _, h.2, .inl ⟨rfl, rfl⟩⟩
  | keywordMore label' e rest =>
    simp only [Phrase.words, List.append_assoc, List.cons_append, List.cons.injEq, true_and] at h
    exact ⟨e, _, _, h.2, .inr ⟨rest, rfl, rfl⟩⟩

/-- What does not close, and is no name and `=`, begins with a positional argument. -/
theorem exists_positional {named : Bool} {p : Phrase (.arguments named)} {ws r : List Word}
    (hopen : ws.head? ≠ some (.of ")"))
    (hnot : ∀ label rest, ws ≠ ⟨.name, label⟩ :: .of "=" :: rest)
    (h : ws = p.words ++ .of ")" :: r) :
    named = false ∧ ∃ (e : Phrase (.level .expression)) (x : List Word)
      (m : List Expr × List (Span × Text × Expr)),
      ws = e.words ++ x ∧ FollowsArgument false x r m := by
  cases p with
  | argumentsEnd => exact absurd (congrArg List.head? h) hopen
  | positional e => exact ⟨rfl, e, _, _, h, .inl ⟨rfl, rfl⟩⟩
  | positionalMore e rest =>
    simp only [Phrase.words, List.append_assoc, List.cons_append] at h
    exact ⟨rfl, e, _, _, h, .inr ⟨rest, rfl, rfl⟩⟩
  | keyword label e => exact absurd h (hnot _ _)
  | keywordMore label e rest => exact absurd h (hnot _ _)

/-- What has been read before, and then what a phrase means. -/
def ViewsArguments (args : List Expr) (keywords : List (Span × Text × Expr))
    (all : List Expr × List (Span × Text × Expr)) (m : List Expr × List (Span × Text × Expr)) :
    Prop :=
  Expr.bareItems all.1 = Expr.bareItems args.reverse ++ m.1 ∧
    Expr.bareKeywords all.2 = Expr.bareKeywords keywords.reverse ++ m.2

/-- What is done behind an argument. -/
def restOfArguments (item : Parse Expr) (steps : Nat) (args : List Expr)
    (keywords : List (Span × Text × Expr)) : Parse (List Expr × List (Span × Text × Expr)) := do
  if ← accept "," then argumentsUpTo item steps args keywords
  else
    expect ")"
    return (args.reverse, keywords.reverse)

/-- What holds where the arguments go on to the bracket, and where they do not, holds of the rest. -/
theorem restOfArguments_elim {steps : Nat} {args : List Expr}
    {keywords : List (Span × Text × Expr)} {named : Bool} {c : Cursor} (hc : Lexed c.words)
    (ih : ∀ c', Lexed c'.words → c'.words.length < c.words.length →
      Settles (.arguments named) c'.words [.of ")"] (ViewsArguments args keywords)
        (argumentsUpTo item steps args keywords c'))
    {P : Except ParseFault ((List Expr × List (Span × Text × Expr)) × Cursor) → Prop}
    (hread : ∀ all c' m, FollowsArgument named c.words c'.words m →
      ViewsArguments args keywords all m → P (.ok (all, c')))
    (hnone : ∀ fault : ParseFault, fault.IsRefusal →
      (∀ r m, ¬ FollowsArgument named c.words r m) → P (.error fault)) :
    P (restOfArguments item steps args keywords c) := by
  rw [restOfArguments]
  refine ite_accept_elim hc (fun c₁ hc₁ hwords => ?_) fun hhead => ?_
  · have hlength : c.words.length = c₁.words.length + 1 := by rw [hwords, List.length_cons]
    refine (ih c₁ hc₁ (by omega)).elim (fun all c₂ rest hsplit _ hview => ?_)
      fun fault hfault hno => hnone fault hfault ?_
    · exact hread all c₂ rest.meaning (.inr ⟨rest, by rw [hwords, hsplit]; rfl, rfl⟩) hview
    · rintro r m (⟨h, -⟩ | ⟨rest, h, -⟩)
      · exact absurd (List.cons.inj (hwords.symm.trans h)).1 (by simp)
      · exact hno rest r (closes_cons bracket_mem_closers r) (List.cons.inj (hwords.symm.trans h)).2
  · refine expect_bind_elim hc (fun c₁ _ hwords => ?_) fun fault hfault hne => hnone fault hfault ?_
    · exact hread _ c₁ ([], []) (.inl ⟨hwords, rfl⟩) ⟨(List.append_nil _).symm, (List.append_nil _).symm⟩
    · rintro r m (⟨h, -⟩ | ⟨rest, h, -⟩)
      · exact hne (congrArg List.head? h)
      · exact hhead (congrArg List.head? h)

/-- The name of an argument, if one comes next with `=` behind it. -/
theorem exists_label {c : Cursor} (hc : Lexed c.words) :
    (∃ token c₁, (c.rest.head?.filter (·.kind == .name)) = some token ∧
      secondIs "=" c = .ok (true, c) ∧ (advance >>= fun _ => advance) c = .ok ((), c₁) ∧
      c.words = ⟨.name, token.text⟩ :: .of "=" :: c₁.words) ∨
    ((∃ second, secondIs "=" c = .ok (second, c) ∧
        (c.rest.head?.filter (·.kind == .name) = none ∨ second = false)) ∧
      ∀ label rest, c.words ≠ ⟨.name, label⟩ :: .of "=" :: rest) := by
  by_cases hlabel : ∃ label rest, c.words = ⟨.name, label⟩ :: .of "=" :: rest
  · obtain ⟨label, rest, hwords⟩ := hlabel
    left
    obtain ⟨c₁, hadvance₁, hc₁⟩ := advance_apply hwords
    obtain ⟨c₂, hadvance₂, hc₂⟩ := advance_apply hc₁
    obtain ⟨tokens, lastStop⟩ := c
    cases tokens with
    | nil => cases hwords
    | cons token tokens =>
      have hword : token.word = ⟨.name, label⟩ := (List.cons.inj hwords).1
      have hkind : token.kind = .name := congrArg Word.kind hword
      have htext : token.text = label := congrArg Word.text hword
      refine ⟨token, c₂, ?_, ?_, ?_, ?_⟩
      · simp [hkind]
      · rw [secondIs_apply hc, hwords]
        simp
      · simp only [bind_apply, hadvance₁, hadvance₂]
      · rw [hwords, htext, hc₂]
  · right
    refine ⟨⟨_, secondIs_apply hc "=", ?_⟩, fun label rest heq => hlabel ⟨label, rest, heq⟩⟩
    obtain ⟨tokens, lastStop⟩ := c
    cases tokens with
    | nil => exact .inl rfl
    | cons token tokens =>
      by_cases hkind : token.kind = .name
      · right
        refine decide_eq_false fun hsecond => ?_
        obtain ⟨rest, hrest⟩ := List.head?_eq_some_iff.mp hsecond
        refine hlabel ⟨token.text, rest, ?_⟩
        show token.word :: _ = _
        rw [← hrest, Token.word, hkind]
        rfl
      · left
        simp [hkind]

theorem argumentsUpTo_keyword {steps : Nat} {args : List Expr}
    {keywords : List (Span × Text × Expr)} {c c₁ : Cursor} {token : Token}
    (hclose : accept ")" c = .ok (false, c))
    (hnamed : c.rest.head?.filter (·.kind == .name) = some token)
    (hsecond : secondIs "=" c = .ok (true, c))
    (hadvance : (advance >>= fun _ => advance) c = .ok ((), c₁)) :
    argumentsUpTo item (steps + 1) args keywords c =
      (do
        let value ← item
        let span ← spanFrom (place c)
        restOfArguments item steps args ((span, token.text, value) :: keywords)) c₁ := by
  rw [bind_apply] at hadvance
  rw [argumentsUpTo]
  simp only [bind_apply, hclose, Bool.false_eq_true, if_false, position_apply, peek_apply, hnamed,
    hsecond]
  cases hfirst : advance c with
  | error fault => simp [hfirst] at hadvance
  | ok result =>
    simp only [hfirst] at hadvance
    simp only [hadvance]
    cases item c₁ with
    | error fault => rfl
    | ok value => simp only [spanFrom_apply, pure_apply, restOfArguments, bind_apply]

theorem argumentsUpTo_positional {steps : Nat} {args : List Expr}
    {keywords : List (Span × Text × Expr)} {c : Cursor} {second : Bool}
    (hclose : accept ")" c = .ok (false, c)) (hsecond : secondIs "=" c = .ok (second, c))
    (hnot : c.rest.head?.filter (·.kind == .name) = none ∨ second = false) :
    argumentsUpTo item (steps + 1) args keywords c =
      (if keywords.isEmpty then do
        let value ← item
        restOfArguments item steps (value :: args) keywords
      else refuse .positionalBeforeKeyword) c := by
  rw [argumentsUpTo]
  simp only [bind_apply, hclose, Bool.false_eq_true, if_false, position_apply, peek_apply, hsecond]
  cases hnamed : c.rest.head?.filter (·.kind == .name) with
  | none =>
    cases keywords.isEmpty with
    | false => rfl
    | true =>
      simp only [if_true, bind_apply]
      cases item c with
      | error fault => rfl
      | ok value => simp only [pure_apply, restOfArguments, bind_apply]
  | some token =>
    obtain rfl : second = false := by simpa [hnamed] using hnot
    cases keywords.isEmpty with
    | false => rfl
    | true =>
      simp only [if_true, bind_apply]
      cases item c with
      | error fault => rfl
      | ok value => simp only [pure_apply, restOfArguments, bind_apply]

/-- Arguments settle within so many steps, whatever has been read. -/
def SettlesArguments (item : Parse Expr) (n steps : Nat) : Prop :=
  ∀ (args : List Expr) (keywords : List (Span × Text × Expr)) (c : Cursor), Lexed c.words →
    c.words.length ≤ n → c.words.length < steps →
    Settles (.arguments (!keywords.isEmpty)) c.words [.of ")"] (ViewsArguments args keywords)
      (argumentsUpTo item steps args keywords c)

/-- Behind the name of an argument comes its value with the arguments that follow it. -/
theorem keyword_settles (hitem : Reads .expression item n) {steps : Nat}
    (ih : SettlesArguments item n steps) {args : List Expr} {keywords : List (Span × Text × Expr)}
    {named : Bool} (start : Nat) {label : Text} {input : List Word} (c : Cursor) (hc : Lexed c.words)
    (hn : c.words.length ≤ n) (hsteps : c.words.length ≤ steps)
    (hinput : input = ⟨.name, label⟩ :: .of "=" :: c.words) :
    Settles (.arguments named) input [.of ")"] (ViewsArguments args keywords)
      ((do
        let value ← item
        let span ← spanFrom start
        restOfArguments item steps args ((span, label, value) :: keywords)) c) := by
  refine hitem.bind_elim hc hn (fun value c₁ e hc₁ hlt hsplit hstop hview honly => ?_)
    fun fault hfault hno => ⟨hfault, fun p r _ heq => ?_⟩
  · rw [bind_of_ok (spanFrom_apply _ c₁)]
    refine restOfArguments_elim hc₁ (fun c' hc' hlt' => ih args
      ((⟨start, c₁.lastStop⟩, label, value) :: keywords) c' hc' (by omega) (by omega))
      (fun all c₂ m hfollows hviews => ?_) fun fault hfault hno => ⟨hfault, fun p r _ heq => ?_⟩
    · have hall : ViewsArguments args keywords all (m.1, (Expr.nowhere, label, e.meaning) :: m.2) := by
        refine ⟨hviews.1, ?_⟩
        rw [hviews.2, ← hview]
        simp [Expr.bareKeywords_eq]
      rcases hfollows with ⟨hend, rfl⟩ | ⟨rest, hmore, rfl⟩
      · refine ⟨.keyword label e, ?_, closes_cons bracket_mem_closers _, hall⟩
        rw [hinput, hsplit, hend]
        simp only [Phrase.words, List.cons_append, List.nil_append]
      · refine ⟨.keywordMore label e rest, ?_, closes_cons bracket_mem_closers _, hall⟩
        rw [hinput, hsplit, hmore]
        simp only [Phrase.words, List.append_assoc, List.cons_append, List.nil_append]
    · obtain ⟨e', x, m, hmore, hx⟩ := exists_keyword (hinput.symm.trans heq)
      exact hno r m (honly e' x hx.stops hmore ▸ hx)
  · obtain ⟨e, x, m, hmore, hx⟩ := exists_keyword (hinput.symm.trans heq)
    exact hno e x hx.stops hmore

/-- An argument without a name, and the arguments that follow it. -/
theorem positional_settles (hitem : Reads .expression item n) {steps : Nat}
    (ih : SettlesArguments item n steps) {args : List Expr} (c : Cursor) (hc : Lexed c.words)
    (hn : c.words.length ≤ n) (hsteps : c.words.length ≤ steps)
    (hopen : c.words.head? ≠ some (.of ")"))
    (hnot : ∀ label rest, c.words ≠ ⟨.name, label⟩ :: .of "=" :: rest) :
    Settles (.arguments false) c.words [.of ")"] (ViewsArguments args [])
      ((do
        let value ← item
        restOfArguments item steps (value :: args) []) c) := by
  refine hitem.bind_elim hc hn (fun value c₁ e hc₁ hlt hsplit hstop hview honly => ?_)
    fun fault hfault hno => ⟨hfault, fun p r _ heq => ?_⟩
  · refine restOfArguments_elim hc₁
      (fun c' hc' hlt' => ih (value :: args) [] c' hc' (by omega) (by omega))
      (fun all c₂ m hfollows hviews => ?_) fun fault hfault hno => ⟨hfault, fun p r _ heq => ?_⟩
    · have hall : ViewsArguments args [] all (e.meaning :: m.1, m.2) := by
        refine ⟨?_, hviews.2⟩
        rw [hviews.1, ← hview]
        simp [Expr.bareItems_eq]
      rcases hfollows with ⟨hend, rfl⟩ | ⟨rest, hmore, rfl⟩
      · exact ⟨.positional e, by rw [hsplit, hend]; rfl, closes_cons bracket_mem_closers _, hall⟩
      · refine ⟨.positionalMore e rest, ?_, closes_cons bracket_mem_closers _, hall⟩
        rw [hsplit, hmore]
        simp only [Phrase.words, List.append_assoc, List.cons_append, List.nil_append]
    · obtain ⟨-, e', x, m, hmore, hx⟩ := exists_positional hopen hnot heq
      exact hno r m (honly e' x hx.stops hmore ▸ hx)
  · obtain ⟨-, e, x, m, hmore, hx⟩ := exists_positional hopen hnot heq
    exact hno e x hx.stops hmore

theorem argumentsUpTo_settles (hitem : Reads .expression item n) (steps : Nat) :
    SettlesArguments item n steps := by
  induction steps with
  | zero => exact fun _ _ _ _ _ hsteps => absurd hsteps (Nat.not_lt_zero _)
  | succ steps ih =>
    intro args keywords c hc hn hsteps
    rcases accept_cases hc ")" with ⟨c₁, hclose, hwords⟩ | ⟨hclose, hopen⟩
    · rw [argumentsUpTo, bind_of_ok hclose]
      exact ⟨.argumentsEnd, hwords, closes_cons bracket_mem_closers _, (List.append_nil _).symm,
        (List.append_nil _).symm⟩
    rcases exists_label hc with
      ⟨token, c₁, hnamed, hsecond, hadvance, hwords⟩ | ⟨⟨second, hsecond, hnamed⟩, hnot⟩
    · rw [argumentsUpTo_keyword hclose hnamed hsecond hadvance]
      have hlength : c.words.length = c₁.words.length + 2 := by
        rw [hwords, List.length_cons, List.length_cons]
      exact keyword_settles hitem ih (place c) c₁ (hwords ▸ hc).tail.tail (by omega) (by omega) hwords
    · rw [argumentsUpTo_positional hclose hsecond hnamed]
      cases keywords with
      | nil =>
        rw [List.isEmpty_nil, if_pos rfl]
        exact positional_settles hitem ih c hc hn (by omega) hopen hnot
      | cons keyword keywords =>
        -- Behind an argument with a name there is none without one.
        obtain ⟨fault, hrefuse, hfault⟩ := refuse_isRefusal
          (α := List Expr × List (Span × Text × Expr)) .positionalBeforeKeyword c
        rw [List.isEmpty_cons, if_neg Bool.false_ne_true, hrefuse]
        refine ⟨hfault, fun p r _ heq => ?_⟩
        obtain ⟨hnamed, -⟩ := exists_positional hopen hnot heq
        cases hnamed

end Parse

end Scriptlet
