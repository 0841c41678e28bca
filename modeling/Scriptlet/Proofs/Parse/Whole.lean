import Scriptlet.Proofs.Parse.Levels
import Scriptlet.Proofs.Parse.Primaries

/-
  A whole text is parsed to what its one derivation means.

  What is proved:
    1. `Parse.rules_read` — with room for ten rules for each word, every rule settles its level.
    2. `Token.scan_lexed` — the words of a text are lexed, if its integers are short.
    3. `Expr.parseWhole_iff` — a text is parsed to an expression exactly if the grammar derives it,
       no text has two derivations, and every other text is reported.
-/

namespace Scriptlet

namespace Parse

variable {n : Nat} {item : Parse Expr}

/-! ## The rules together -/

/-- With this much room the rules settle their levels, on as many words as there is room for. -/
structure RulesRead (room : Nat) : Prop where
  expression : ∀ n, 10 * n + 10 ≤ room → Reads .expression (expression room) n
  disjunction : ∀ n, 10 * n + 9 ≤ room → Reads (.chain .or) (disjunction room) n
  conjunction : ∀ n, 10 * n + 8 ≤ room → Reads (.chain .and) (conjunction room) n
  negation : ∀ n, 10 * n + 7 ≤ room → Reads .negation (negation room) n
  comparison : ∀ n, 10 * n + 6 ≤ room → Reads .comparison (comparison room) n
  sum : ∀ n, 10 * n + 5 ≤ room → Reads (.chain .sum) (sum room) n
  product : ∀ n, 10 * n + 4 ≤ room → Reads (.chain .product) (product room) n
  factor : ∀ n, 10 * n + 3 ≤ room → Reads .factor (factor room) n
  power : ∀ n, 10 * n + 2 ≤ room → Reads .power (power room) n
  primary : ∀ n, 10 * n + 1 ≤ room → Reads .primary (primary room) n

theorem rules_read (room : Nat) : RulesRead room := by
  induction room with
  | zero => constructor <;> intro n h <;> omega
  | succ room ih =>
    exact {
      expression := fun n h => by
        rw [expression]
        exact ih.disjunction n (by omega)
      disjunction := fun n h => by
        rw [disjunction]
        exact chain_reads or_readsOperators (ih.conjunction n (by omega)) fun _ _ _ _ => rfl
      conjunction := fun n h => by
        rw [conjunction]
        exact chain_reads and_readsOperators (ih.negation n (by omega)) fun _ _ _ _ => rfl
      negation := fun n h =>
        negation_reads (fun hn => ih.negation (n - 1) (by omega)) (ih.comparison n (by omega))
      comparison := fun n h => comparison_reads (ih.sum n (by omega))
      sum := fun n h => by
        rw [sum]
        exact chain_reads sum_readsOperators (ih.product n (by omega)) fun _ _ _ _ => rfl
      product := fun n h => by
        rw [product]
        exact chain_reads product_readsOperators (ih.factor n (by omega)) fun _ _ _ _ => rfl
      factor := fun n h =>
        factor_reads (fun hn => ih.factor (n - 1) (by omega)) (ih.power n (by omega))
      power := fun n h =>
        power_reads (ih.primary n (by omega)) fun hn => ih.factor (n - 1) (by omega)
      primary := fun n h => primary_reads fun hn => ih.expression (n - 1) (by omega) }

/-! ## Lists -/

/-- What follows the first expression of a whole text. -/
def FollowsWhole (ws : List Word) (m : List Expr) : Prop :=
  (ws = [] ∧ m = []) ∨ ∃ p : Phrase .items, ws = .of "," :: p.words ∧ p.meaning = m

theorem FollowsWhole.stops {ws : List Word} {m : List Expr} (h : FollowsWhole ws m) :
    (Symbol.level .expression).Stops ws := by
  rcases h with ⟨rfl, -⟩ | ⟨p, rfl, -⟩
  · exact Phrase.stops_nil _
  · exact Phrase.stops_comma _

/-- Expressions that follow a comma and an expression follow that comma with it. -/
theorem FollowsWhole.cons {e : Phrase (.level .expression)} {ws : List Word} {m : List Expr}
    (h : FollowsWhole ws m) : FollowsWhole (.of "," :: (e.words ++ ws)) (e.meaning :: m) := by
  rcases h with ⟨rfl, rfl⟩ | ⟨p, rfl, rfl⟩
  · exact .inr ⟨.item e, by rw [List.append_nil]; rfl, rfl⟩
  · exact .inr ⟨.itemMore e p, rfl, rfl⟩

/-- Behind a comma that is not the end stands an expression. -/
theorem FollowsWhole.exists_item {ws : List Word} {m : List Expr} (hws : ws ≠ [])
    (h : FollowsWhole (.of "," :: ws) m) :
    ∃ (e : Phrase (.level .expression)) (x : List Word) (m : List Expr),
      ws = e.words ++ x ∧ FollowsWhole x m := by
  rcases h with ⟨h, -⟩ | ⟨p, h, -⟩
  · cases h
  · have h := (List.cons.inj h).2
    cases p with
    | itemsEnd => exact absurd h hws
    | item e => exact ⟨e, [], [], by rw [List.append_nil]; exact h, .inl ⟨rfl, rfl⟩⟩
    | itemMore e rest => exact ⟨e, _, _, h, .inr ⟨rest, rfl, rfl⟩⟩

/-- The outcome agrees with the grammar: all is read, or nothing would follow. -/
def SettlesWhole (ws : List Word) (done : List Expr) :
    Except ParseFault (List Expr × Cursor) → Prop
  | .ok (all, c) =>
    (c.words = [] ∧ ∃ m, FollowsWhole ws m ∧
      Expr.bareItems all = Expr.bareItems done.reverse ++ m) ∨
    (c.words ≠ [] ∧ ∀ m, ¬ FollowsWhole ws m)
  | .error fault => fault.IsRefusal ∧ ∀ m, ¬ FollowsWhole ws m

/-- Of the operators those begin an expression that the parser looks for. -/
theorem mem_of_opens {l : Level} {w : Word} (h : l.Opens w) (hkind : w.kind = .operator) :
    w ∈ [.of "(", .of "[", .of "\x7b", .of "-", .of "+"] := by
  rcases h with (h | h | ⟨h, -⟩ | h) | ⟨-, h⟩ | ⟨-, rfl⟩
  · rw [hkind] at h
    cases h
  · rw [hkind] at h
    cases h
  · rw [hkind] at h
    cases h
  · simp only [List.mem_cons, List.not_mem_nil, or_false] at h ⊢
    rcases h with rfl | rfl | rfl <;> simp
  · simp only [List.mem_cons, List.not_mem_nil, or_false] at h ⊢
    rcases h with rfl | rfl <;> simp
  · simp [Word.kind_of, Token.operators] at hkind

/-- Behind a comma that is not the end stands what begins an expression. -/
theorem FollowsWhole.opens {ws : List Word} {m : List Expr} (hws : ws ≠ [])
    (h : FollowsWhole (.of "," :: ws) m) : ∃ w ∈ ws.head?, Level.expression.Opens w := by
  obtain ⟨e, x, -, rfl, -⟩ := h.exists_item hws
  obtain ⟨w, ws, hwords, hopens, -⟩ := e.begins
  exact ⟨w, by rw [hwords]; rfl, hopens⟩

/-- Expressions settle within so many steps, whatever has been read. -/
def SettlesTail (item : Parse Expr) (n steps : Nat) : Prop :=
  ∀ (done : List Expr) (c : Cursor), Lexed c.words → c.words.length ≤ n →
    c.words.length ≤ steps → SettlesWhole c.words done (listTail item steps done c)

/-- Behind a comma comes an expression with those that follow it. -/
theorem next_settles (hitem : Reads .expression item n) {steps : Nat} (ih : SettlesTail item n steps)
    (done : List Expr) (c : Cursor) (hc : Lexed c.words) (hn : c.words.length ≤ n)
    (hsteps : c.words.length ≤ steps) (hne : c.words ≠ []) :
    SettlesWhole (.of "," :: c.words) done
      ((item >>= fun next => listTail item steps (next :: done)) c) := by
  refine hitem.bind_elim hc hn (fun next c₁ e hc₁ hlt hsplit hstop hview honly => ?_)
    fun fault hfault hno => ⟨hfault, fun m h => ?_⟩
  · have hfollows : ∀ m, FollowsWhole (.of "," :: c.words) m → ∃ m, FollowsWhole c₁.words m := by
      intro m h
      obtain ⟨e', x, m', heq, hx⟩ := h.exists_item hne
      exact ⟨m', honly e' x hx.stops heq ▸ hx⟩
    have hrest := ih (next :: done) c₁ hc₁ (by omega) (by omega)
    match hresult : listTail item steps (next :: done) c₁, hrest with
    | .ok (all, c₂), .inl ⟨hnil, m, hm, hall⟩ =>
      refine .inl ⟨hnil, e.meaning :: m, ?_, ?_⟩
      · rw [hsplit]
        exact hm.cons
      · rw [hall, ← hview]
        simp [Expr.bareItems_eq]
    | .ok (all, c₂), .inr ⟨hleft, hno⟩ =>
      refine .inr ⟨hleft, fun m h => ?_⟩
      obtain ⟨m', hm⟩ := hfollows m h
      exact hno m' hm
    | .error fault, ⟨hfault, hno⟩ =>
      refine ⟨hfault, fun m h => ?_⟩
      obtain ⟨m', hm⟩ := hfollows m h
      exact hno m' hm
  · obtain ⟨e, x, m', heq, hx⟩ := h.exists_item hne
    exact hno e x hx.stops heq

theorem listTail_settles (hitem : Reads .expression item n) (steps : Nat) : SettlesTail item n steps := by
  induction steps with
  | zero =>
    intro done c _ _ hsteps
    have hnil : c.words = [] := List.length_eq_zero_iff.mp (Nat.le_zero.mp hsteps)
    rw [listTail, pure_apply]
    exact .inl ⟨hnil, [], .inl ⟨hnil, rfl⟩, (List.append_nil _).symm⟩
  | succ steps ih =>
    intro done c hc hn hsteps
    rw [listTail]
    refine ite_accept_elim hc (fun c₁ hc₁ hwords => ?_) fun hhead => ?_
    · have hlength : c.words.length = c₁.words.length + 1 := by rw [hwords, List.length_cons]
      rw [hwords]
      rcases startsExpression_cases c₁ with ⟨hstarts, hne⟩ | ⟨hstarts, hnone⟩
      · rw [bind_of_ok hstarts, if_pos rfl]
        exact next_settles hitem ih done c₁ hc₁ (by omega) (by omega) hne
      · rw [bind_of_ok hstarts, if_neg Bool.false_ne_true]
        by_cases hnil : c₁.words = []
        · rw [hnil]
          exact .inl ⟨hnil, [], .inr ⟨.itemsEnd, rfl, rfl⟩, (List.append_nil _).symm⟩
        · refine .inr ⟨hnil, fun m h => ?_⟩
          obtain ⟨w, hw, hopens⟩ := h.opens hnil
          obtain ⟨hkind, hnot⟩ := hnone w hw
          exact hnot (mem_of_opens hopens hkind)
    · by_cases hnil : c.words = []
      · exact .inl ⟨hnil, [], .inl ⟨hnil, rfl⟩, (List.append_nil _).symm⟩
      · refine .inr ⟨hnil, fun m h => ?_⟩
        rcases h with ⟨h, -⟩ | ⟨p, h, -⟩
        · exact hnil h
        · exact hhead (congrArg List.head? h)

/-- What is read of a whole text, or that it is no list. -/
def SettlesList (ws : List Word) : Except ParseFault (Expr × Cursor) → Prop
  | .ok (e, c) =>
    (c.words = [] ∧ ∃ p : Phrase (.level .list), p.words = ws ∧ p.meaning = e.bare) ∨
    (c.words ≠ [] ∧ ∀ p : Phrase (.level .list), p.words ≠ ws)
  | .error fault => fault.IsRefusal ∧ ∀ p : Phrase (.level .list), p.words ≠ ws

/-- A list is an expression and what follows it. -/
theorem exists_first (p : Phrase (.level .list)) :
    ∃ (e : Phrase (.level .expression)) (x : List Word) (m : List Expr),
      p.words = e.words ++ x ∧ FollowsWhole x m := by
  cases p with
  | single e => exact ⟨e, [], [], (List.append_nil _).symm, .inl ⟨rfl, rfl⟩⟩
  | commas e rest => exact ⟨e, _, _, rfl, .inr ⟨rest, rfl, rfl⟩⟩

theorem expressionList_settles (hitem : Reads .expression item n) (c : Cursor)
    (hc : Lexed c.words) (hn : c.words.length ≤ n) :
    SettlesList c.words (expressionList item c) := by
  rw [expressionList, bind_of_ok (position_apply c)]
  refine hitem.bind_elim hc hn (fun first c₁ e hc₁ hlt hsplit hstop hview honly => ?_)
    fun fault hfault hno => ⟨hfault, fun p heq => ?_⟩
  · have hfollows : ∀ p : Phrase (.level .list), p.words = c.words →
        ∃ m, FollowsWhole c₁.words m := by
      intro p heq
      obtain ⟨e', x, m, hx, hm⟩ := exists_first p
      exact ⟨m, honly e' x hm.stops (heq.symm.trans hx) ▸ hm⟩
    refine ite_at?_elim hc₁ (fun hcomma => ?_) fun hcomma => ?_
    · rw [bind_of_ok (get_apply c₁)]
      have hall := listTail_settles hitem c₁.rest.length [first] c₁ hc₁ (by omega)
        (Nat.le_of_eq c₁.length_words)
      match hresult : listTail item c₁.rest.length [first] c₁, hall with
      | .ok (all, c₂), .inl ⟨hnil, m, hm, hall⟩ =>
        rw [bind_of_ok hresult]
        rcases hm with ⟨h, -⟩ | ⟨p, h, rfl⟩
        · rw [h] at hcomma
          cases hcomma
        · refine .inl ⟨hnil, .commas e p, by rw [hsplit, h]; rfl, ?_⟩
          show Expr.tuple _ (e.meaning :: p.meaning) = Expr.tuple _ (Expr.bareItems all)
          rw [hall, ← hview]
          rfl
      | .ok (all, c₂), .inr ⟨hleft, hno⟩ =>
        rw [bind_of_ok hresult]
        refine .inr ⟨hleft, fun p heq => ?_⟩
        obtain ⟨m, hm⟩ := hfollows p heq
        exact hno m hm
      | .error fault, ⟨hfault, hno⟩ =>
        rw [bind_of_error hresult]
        refine ⟨hfault, fun p heq => ?_⟩
        obtain ⟨m, hm⟩ := hfollows p heq
        exact hno m hm
    · by_cases hnil : c₁.words = []
      · refine .inl ⟨hnil, .single e, ?_, hview.symm⟩
        rw [hsplit, hnil, List.append_nil]
        rfl
      · refine .inr ⟨hnil, fun p heq => ?_⟩
        obtain ⟨m, ⟨h, -⟩ | ⟨q, h, -⟩⟩ := hfollows p heq
        · exact hnil h
        · exact hcomma (congrArg List.head? h)
  · obtain ⟨e, x, m, hx, hm⟩ := exists_first p
    exact hno e x hm.stops (heq.symm.trans hx)

end Parse

/-! ## The words of a text -/

namespace Token

/-- The kind of a piece of text is what its characters say. -/
structure Fits (kind : TokenKind) (text : Text) : Prop where
  operator : kind = .operator → text ∈ operators
  name : kind = .name → text ∉ operators

/-- No operator begins like a name. -/
theorem not_mem_operators {c : CodePoint} (hc : c.startsIdentifier = true) (rest : Text) :
    c :: rest ∉ operators := by
  have hnone : ∀ op ∈ operators, op.head?.any CodePoint.startsIdentifier = false := by decide +kernel
  intro hmem
  have := hnone _ hmem
  simp [hc] at this

theorem lexeme_fits {c : CodePoint} {rest : Text} {kind : TokenKind} {n : Nat}
    (h : lexeme c rest = .ok (some kind, n)) : Fits kind (c :: rest.take n) := by
  rw [lexeme] at h
  split at h
  · cases h
  dsimp only at h
  split at h
  · cases h
    exact ⟨fun h => (by cases h), fun h => (by cases h)⟩
  split at h
  · split at h
    · cases h
      exact ⟨fun h => (by cases h), fun h => (by cases h)⟩
    · cases h
  split at h
  · rename_i hstart
    cases h
    exact ⟨fun h => (by cases h), fun _ => not_mem_operators hstart _⟩
  split at h
  · rename_i op hop
    cases h
    have hmem := List.mem_of_find?_eq_some hop
    have hfound := List.find?_some (p := fun x => List.isPrefixOf x (c :: rest)) hop
    have hpre := List.isPrefixOf_iff_prefix.mp hfound
    have hne : op ≠ [] := by
      rintro rfl
      revert hmem
      decide
    have htext : c :: rest.take (op.length - 1) = op := by
      obtain ⟨d, tail, rfl⟩ := List.exists_cons_of_ne_nil hne
      have h := List.prefix_iff_eq_take.mp hpre
      simpa using h.symm
    exact ⟨fun _ => by rw [htext]; exact hmem, fun h => (by cases h)⟩
  · cases h

theorem scanFrom_fits (start : Nat) (done : List Token) (text : Text) {tokens : List Token}
    (hdone : ∀ token ∈ done, Fits token.kind token.text)
    (h : scanFrom start done text = .ok tokens) :
    ∀ token ∈ tokens, Fits token.kind token.text := by
  induction start, done, text using scanFrom.induct with
  | case1 start done =>
    unfold scanFrom at h
    cases h
    simpa using hdone
  | case2 start done c rest fault hlexeme =>
    unfold scanFrom at h
    simp only [hlexeme] at h
    cases h
  | case3 start done c rest kind n hlexeme stop done' ih =>
    unfold scanFrom at h
    simp only [hlexeme] at h
    refine ih (fun token htoken => ?_) h
    cases kind with
    | none => exact hdone token htoken
    | some kind =>
      rcases List.mem_cons.mp htoken with rfl | htoken
      · exact lexeme_fits hlexeme
      · exact hdone token htoken

/-- A number without a point and an exponent. -/
def IsInteger (token : Token) : Prop :=
  token.kind = .number ∧ token.text.any (fun c => c.val == 46 || c.val == 101 || c.val == 69) = false

/-- The words of a text are lexed, if its integers are short. -/
theorem scan_lexed {text : Text} {tokens : List Token} (hscan : scan text = .ok tokens)
    (hshort : ∀ token ∈ tokens, token.IsInteger → token.text.length ≤ NumberText.maxDigits) :
    Lexed (tokens.map word) := by
  intro w hw
  obtain ⟨token, htoken, rfl⟩ := List.mem_map.mp hw
  have hfits := scanFrom_fits 0 [] text (by simp) hscan token htoken
  exact ⟨hfits.operator, hfits.name, fun hkind hwhole => hshort token htoken ⟨hkind, hwhole⟩⟩

end Token

/-! ## Whole texts -/

/-- The grammar derives the expression from the words. -/
def Derives (ws : List Word) (tree : Expr) : Prop :=
  ∃ p : Phrase (.level .list), p.words = ws ∧ p.meaning = tree

namespace Expr

theorem parseWhole_settles {text : Text} {tokens : List Token} (hscan : Token.scan text = .ok tokens)
    (hlexed : Lexed (tokens.map Token.word)) {room : Nat} (hroom : 10 * tokens.length + 10 ≤ room) :
    (∃ e, parseWhole room text = .ok e ∧ Derives (tokens.map Token.word) e.bare) ∨
      ∃ fault message, parseWhole room text = .error fault ∧ fault.message? = some message ∧
        ∀ tree, ¬ Derives (tokens.map Token.word) tree := by
  rw [parseWhole, hscan]
  cases tokens with
  | nil =>
    refine .inr ⟨.empty, _, rfl, rfl, fun tree h => ?_⟩
    obtain ⟨p, hwords, -⟩ := h
    exact Parse.words_ne_nil p hwords
  | cons token tokens =>
    have hlist := Parse.expressionList_settles ((Parse.rules_read room).expression _ hroom)
      ⟨token :: tokens, 0⟩ hlexed (Nat.le_of_eq (Cursor.length_words _))
    simp only [StateT.run]
    match hresult : Parse.expressionList (Parse.expression room) ⟨token :: tokens, 0⟩, hlist with
    | .ok (e, ⟨[], lastStop⟩), .inl ⟨_, p, hwords, hmeaning⟩ =>
      exact .inl ⟨e, rfl, p, hwords, hmeaning⟩
    | .ok (e, ⟨[], lastStop⟩), .inr ⟨hleft, _⟩ => exact absurd rfl hleft
    | .ok (e, ⟨next :: rest, lastStop⟩), .inl ⟨hnil, _⟩ => cases hnil
    | .ok (e, ⟨next :: rest, lastStop⟩), .inr ⟨_, hno⟩ =>
      exact .inr ⟨_, _, rfl, rfl, fun tree ⟨p, hwords, _⟩ => hno p hwords⟩
    | .error (.unexpected expected found), ⟨_, hno⟩ =>
      exact .inr ⟨_, _, rfl, rfl, fun tree ⟨p, hwords, _⟩ => hno p hwords⟩

/-- What the grammar derives from the words of a text is what the text is parsed to. -/
theorem exists_parseWhole {text : Text} {tokens : List Token} (hscan : Token.scan text = .ok tokens)
    (hlexed : Lexed (tokens.map Token.word)) {tree : Expr}
    (htree : Derives (tokens.map Token.word) tree) {room : Nat}
    (hroom : 10 * tokens.length + 10 ≤ room) : ∃ e, parseWhole room text = .ok e ∧ e.bare = tree := by
  rcases parseWhole_settles hscan hlexed hroom with ⟨e, hparsed, p, hp, hmeaning⟩ | ⟨_, _, _, _, hno⟩
  · obtain ⟨q, hq, rfl⟩ := htree
    obtain rfl := Phrase.words_injective (hp.trans hq.symm)
    exact ⟨e, hparsed, hmeaning.symm⟩
  · exact absurd htree (hno tree)

/-- A text whose integers are short is parsed to an expression exactly if the grammar derives it;
every other text is reported as no expression, and no text has two derivations. -/
theorem parseWhole_iff {text : Text} {tokens : List Token} (hscan : Token.scan text = .ok tokens)
    (hshort : ∀ token ∈ tokens, token.IsInteger → token.text.length ≤ NumberText.maxDigits)
    {room : Nat} (hroom : 10 * tokens.length + 10 ≤ room) :
    (∀ tree, (∃ e, parseWhole room text = .ok e ∧ e.bare = tree) ↔
      Derives (tokens.map Token.word) tree) ∧
    ((∀ tree, ¬ Derives (tokens.map Token.word) tree) →
      ∃ fault message, parseWhole room text = .error fault ∧ fault.message? = some message) ∧
    ∀ p q : Phrase (.level .list), p.words = tokens.map Token.word →
      q.words = tokens.map Token.word → p = q := by
  have hunique : ∀ p q : Phrase (.level .list), p.words = tokens.map Token.word →
      q.words = tokens.map Token.word → p = q :=
    fun p q hp hq => Phrase.words_injective (hp.trans hq.symm)
  rcases parseWhole_settles hscan (Token.scan_lexed hscan hshort) hroom with
    ⟨e, hparse, hderives⟩ | ⟨fault, message, hparse, hmessage, hno⟩
  · refine ⟨fun tree => ⟨?_, ?_⟩, fun hno => absurd hderives (hno _), hunique⟩
    · rintro ⟨e', hparse', rfl⟩
      obtain rfl : e = e' := Except.ok.inj (hparse.symm.trans hparse')
      exact hderives
    · rintro ⟨q, hq, rfl⟩
      -- The text has one derivation only, so it is the one that has been found.
      obtain ⟨p, hp, hmeaning⟩ := hderives
      obtain rfl := hunique p q hp hq
      exact ⟨e, hparse, hmeaning.symm⟩
  · refine ⟨fun tree => ⟨?_, fun h => absurd h (hno tree)⟩, fun _ => ⟨fault, message, hparse, hmessage⟩,
      hunique⟩
    rintro ⟨e', hparse', -⟩
    rw [hparse] at hparse'
    cases hparse'

/-- Differences group to the left. -/
theorem parseWhole_iff_difference :
    ∃ e, parseWhole 60 "a - b - c" = .ok e ∧ e.bare =
      .binary nowhere .sub (.binary nowhere .sub (.name nowhere "a") (.name nowhere "b"))
        (.name nowhere "c") := by
  let tokens : List Token := [⟨.name, "a", 0, 1⟩, ⟨.operator, "-", 2, 3⟩, ⟨.name, "b", 4, 5⟩,
    ⟨.operator, "-", 6, 7⟩, ⟨.name, "c", 8, 9⟩]
  have hscan : Token.scan "a - b - c" = .ok tokens := by
    have hoption : (Token.scan "a - b - c").toOption = some tokens := by decide +kernel
    cases hresult : Token.scan "a - b - c" with
    | error fault =>
      rw [hresult] at hoption
      cases hoption
    | ok found =>
      rw [hresult] at hoption
      exact congrArg Except.ok (Option.some.inj hoption)
  have hshort : ∀ token ∈ tokens, token.IsInteger →
      token.text.length ≤ NumberText.maxDigits := by
    intro token htoken hinteger
    simp only [tokens, List.mem_cons, List.not_mem_nil, or_false] at htoken
    rcases htoken with rfl | rfl | rfl | rfl | rfl <;> cases hinteger.1
  have hname : ∀ text ∈ [("a" : Text), "b", "c"], text ∉ Token.keywords := by
    simp [Token.keywords]
  let operand (text : Text) (h : text ∉ Token.keywords) : Phrase (.level (.chain .product)) :=
    .chain (.unsigned (.base (.primary (.name text h) .suffixesEnd))) .tailEnd
  let difference : Phrase (.level (.chain .sum)) :=
    .chain (operand "a" (hname _ (by simp)))
      (.tailMore (.binary .sub) rfl (operand "b" (hname _ (by simp)))
        (.tailMore (.binary .sub) rfl (operand "c" (hname _ (by simp))) .tailEnd))
  refine ((parseWhole_iff hscan hshort (by decide)).1 _).mpr
    ⟨.single (.chain (.chain (.compared (.comparison difference .comparisonsEnd)) .tailEnd)
      .tailEnd), ?_, rfl⟩
  have hminus : Word.of (.ofString BinaryOp.sub.symbol) = ⟨.operator, "-"⟩ := by
    have hkind : (Word.of "-").kind = .operator := by simp [Word.kind_of, Token.operators]
    have htext : (Word.of "-").text = "-" := Word.text_of _
    show (⟨(Word.of "-").kind, (Word.of "-").text⟩ : Word) = _
    rw [hkind, htext]
  simp only [tokens, difference, operand, Phrase.words, Joint.word, hminus]
  rfl

end Expr

end Scriptlet
