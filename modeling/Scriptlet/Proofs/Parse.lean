import Scriptlet.Proofs.Grammar.Words

/-
  Steps of the parser, applied to a cursor.

  What the combinators and the small steps of the parser do is said in terms of the words that are
  left, so that proofs about the rules of the grammar do not look at tokens.
-/

namespace Scriptlet

/-- What every word of a text satisfies: its kind fits its text, and integers are not too long. -/
structure Word.IsLexed (w : Word) : Prop where
  operator : w.kind = .operator → w.text ∈ Token.operators
  name : w.kind = .name → w.text ∉ Token.operators
  short : w.kind = .number → w.text.any (fun c => c.val == 46 || c.val == 101 || c.val == 69) = false →
    w.text.length ≤ NumberText.maxDigits

/-- All of some words are lexed. -/
def Lexed (ws : List Word) : Prop := ∀ w ∈ ws, w.IsLexed

theorem Lexed.of_append {front back : List Word} (h : Lexed (front ++ back)) : Lexed back :=
  fun w hw => h w (List.mem_append_right _ hw)

theorem Lexed.tail {w : Word} {ws : List Word} (h : Lexed (w :: ws)) : Lexed ws :=
  fun w' hw => h w' (List.mem_cons_of_mem _ hw)

theorem Lexed.head {w : Word} {ws : List Word} (h : Lexed (w :: ws)) : w.IsLexed :=
  h w List.mem_cons_self

/-- A token is the operator or name that its word says. -/
theorem Token.is_iff {token : Token} (h : token.word.IsLexed) (text : Text) :
    Token.is text token = true ↔ token.word = Word.of text := by
  obtain ⟨kind, tokenText, start, stop⟩ := token
  have hoperator : kind = .operator → tokenText ∈ Token.operators := h.operator
  have hname : kind = .name → tokenText ∉ Token.operators := h.name
  simp only [Token.is, Token.word, Word.of, Word.mk.injEq, Bool.and_eq_true, Bool.or_eq_true,
    beq_iff_eq]
  constructor
  · rintro ⟨hkind | hkind, rfl⟩
    · exact ⟨by rw [if_pos (hoperator hkind), hkind], rfl⟩
    · exact ⟨by rw [if_neg (hname hkind), hkind], rfl⟩
  · rintro ⟨hkind, rfl⟩
    refine ⟨?_, rfl⟩
    rw [hkind]
    split
    · exact .inl rfl
    · exact .inr rfl

/-- The words that are left. -/
def Cursor.words (c : Cursor) : List Word := c.rest.map Token.word

theorem Cursor.length_words (c : Cursor) : c.words.length = c.rest.length := List.length_map ..

/-- The fault says that something does not fit at its place. -/
def ParseFault.IsRefusal : ParseFault → Prop
  | .unexpected _ _ => True
  | _ => False

namespace Parse

variable {α β : Type}

/-! ## Combinators -/

theorem pure_apply (a : α) (c : Cursor) : (pure a : Parse α) c = .ok (a, c) := rfl

theorem bind_apply (x : Parse α) (f : α → Parse β) (c : Cursor) :
    (x >>= f) c = match x c with
      | .ok (a, c') => f a c'
      | .error fault => .error fault := by
  show Except.bind (x c) (fun p => f p.1 p.2) = _
  cases x c <;> rfl

theorem bind_of_ok {x : Parse α} {f : α → Parse β} {a : α} {c c' : Cursor} (h : x c = .ok (a, c')) :
    (x >>= f) c = f a c' := by
  rw [bind_apply, h]

theorem bind_of_error {x : Parse α} {f : α → Parse β} {c : Cursor} {fault : ParseFault}
    (h : x c = .error fault) : (x >>= f) c = .error fault := by
  rw [bind_apply, h]

theorem get_apply (c : Cursor) : (get : Parse Cursor) c = .ok (c, c) := rfl

theorem peek_apply (c : Cursor) : peek c = .ok (c.rest.head?, c) := rfl

/-- The offset where the next token begins. -/
def place (c : Cursor) : Nat :=
  match c.rest with
  | [] => c.lastStop
  | token :: _ => token.start

theorem position_apply (c : Cursor) : position c = .ok (place c, c) := by
  obtain ⟨rest, lastStop⟩ := c
  cases rest <;> rfl

theorem spanFrom_apply (start : Nat) (c : Cursor) :
    spanFrom start c = .ok (⟨start, c.lastStop⟩, c) := rfl

theorem refuse_isRefusal (expected : Expected) (c : Cursor) :
    ∃ fault, (refuse expected : Parse α) c = .error fault ∧ fault.IsRefusal :=
  ⟨.unexpected expected (c.rest.head?.map (·.text)), rfl, trivial⟩

/-! ## Steps -/

theorem advance_apply {c : Cursor} {w : Word} {ws : List Word} (h : c.words = w :: ws) :
    ∃ c', advance c = .ok ((), c') ∧ c'.words = ws := by
  obtain ⟨rest, lastStop⟩ := c
  cases rest with
  | nil => cases h
  | cons token rest => exact ⟨⟨rest, token.stop⟩, rfl, (List.cons.inj h).2⟩

theorem at?_apply {c : Cursor} (hc : Lexed c.words) (text : Text) :
    at? text c = .ok (decide (c.words.head? = some (.of text)), c) := by
  obtain ⟨rest, lastStop⟩ := c
  cases rest with
  | nil => rfl
  | cons token rest =>
    have his := Token.is_iff (hc token.word List.mem_cons_self) text
    show Except.ok (Token.is text token, _) = _
    congr 2
    rw [Bool.eq_iff_iff, his]
    simp [Cursor.words]

theorem secondIs_apply {c : Cursor} (hc : Lexed c.words) (text : Text) :
    secondIs text c = .ok (decide (c.words.tail.head? = some (.of text)), c) := by
  obtain ⟨rest, lastStop⟩ := c
  match rest with
  | [] => rfl
  | [token] => rfl
  | token :: second :: rest =>
    have his := Token.is_iff (hc second.word (by simp [Cursor.words])) text
    show Except.ok (Token.is text second, _) = _
    congr 2
    rw [Bool.eq_iff_iff, his]
    simp [Cursor.words]

/-- Either the operator or name comes next and is passed, or it does not and nothing happens. -/
theorem accept_cases {c : Cursor} (hc : Lexed c.words) (text : Text) :
    (∃ c', accept text c = .ok (true, c') ∧ c.words = .of text :: c'.words) ∨
      (accept text c = .ok (false, c) ∧ c.words.head? ≠ some (.of text)) := by
  by_cases h : c.words.head? = some (.of text)
  · left
    obtain ⟨ws, hws⟩ := List.head?_eq_some_iff.mp h
    obtain ⟨c', hadvance, hc'⟩ := advance_apply hws
    refine ⟨c', ?_, by rw [hws, hc']⟩
    simp only [accept, bind_apply, at?_apply hc, h, decide_true, if_true, hadvance, pure_apply]
  · right
    refine ⟨?_, h⟩
    simp only [accept, bind_apply, at?_apply hc, h, decide_false, Bool.false_eq_true, if_false,
      pure_apply]

/-- Either the operator or name comes next and is passed, or what comes next is refused. -/
theorem expect_cases {c : Cursor} (hc : Lexed c.words) (text : Text) :
    (∃ c', expect text c = .ok ((), c') ∧ c.words = .of text :: c'.words) ∨
      ((∃ fault, expect text c = .error fault ∧ fault.IsRefusal) ∧
        c.words.head? ≠ some (.of text)) := by
  rcases accept_cases hc text with ⟨c', haccept, hwords⟩ | ⟨haccept, hhead⟩
  · left
    refine ⟨c', ?_, hwords⟩
    simp only [expect, bind_apply, haccept, if_true, pure_apply]
  · right
    obtain ⟨fault, hrefuse, hfault⟩ := refuse_isRefusal (α := Unit) (.token text) c
    refine ⟨⟨fault, ?_, hfault⟩, hhead⟩
    simp only [expect, bind_apply, haccept, Bool.false_eq_true, if_false, hrefuse]

/-- What holds of both ways to go on holds where the next word decides between them. -/
theorem ite_accept_elim {c : Cursor} (hc : Lexed c.words) {text : Text} {yes no : Parse α}
    {P : Except ParseFault (α × Cursor) → Prop}
    (hyes : ∀ c', Lexed c'.words → c.words = .of text :: c'.words → P (yes c'))
    (hno : c.words.head? ≠ some (.of text) → P (no c)) :
    P ((do if ← accept text then yes else no) c) := by
  rcases accept_cases hc text with ⟨c', haccept, hwords⟩ | ⟨haccept, hhead⟩
  · rw [bind_of_ok haccept]
    exact hyes c' (hwords ▸ hc).tail hwords
  · rw [bind_of_ok haccept]
    exact hno hhead

theorem ite_at?_elim {c : Cursor} (hc : Lexed c.words) {text : Text} {yes no : Parse α}
    {P : Except ParseFault (α × Cursor) → Prop}
    (hyes : c.words.head? = some (.of text) → P (yes c))
    (hno : c.words.head? ≠ some (.of text) → P (no c)) :
    P ((do if ← at? text then yes else no) c) := by
  rw [bind_of_ok (at?_apply hc text)]
  by_cases hhead : c.words.head? = some (.of text)
  · rw [decide_eq_true hhead, if_pos rfl]
    exact hyes hhead
  · rw [decide_eq_false hhead, if_neg Bool.false_ne_true]
    exact hno hhead

/-- What holds behind a word and of a refusal holds where that word has to come next. -/
theorem expect_bind_elim {c : Cursor} (hc : Lexed c.words) {text : Text} {next : Unit → Parse α}
    {P : Except ParseFault (α × Cursor) → Prop}
    (hyes : ∀ c', Lexed c'.words → c.words = .of text :: c'.words → P (next () c'))
    (hno : ∀ fault : ParseFault, fault.IsRefusal → c.words.head? ≠ some (.of text) →
      P (.error fault)) :
    P ((expect text >>= next) c) := by
  rcases expect_cases hc text with ⟨c', hexpect, hwords⟩ | ⟨⟨fault, hexpect, hfault⟩, hhead⟩
  · rw [bind_of_ok hexpect]
    exact hyes c' (hwords ▸ hc).tail hwords
  · rw [bind_of_error hexpect]
    exact hno fault hfault hhead

/-- An operator is what its word says. -/
theorem isOperator_iff {token : Token} (h : token.word.IsLexed) {text : Text}
    (htext : text ∈ Token.operators) :
    (token.isOperator && token.text == text) = true ↔ token.word = Word.of text := by
  rw [← Token.is_iff h]
  simp only [Token.is, Token.isOperator, Bool.and_eq_true, Bool.or_eq_true, beq_iff_eq]
  constructor
  · rintro ⟨hkind, rfl⟩
    exact ⟨.inl hkind, rfl⟩
  · rintro ⟨hkind | hkind, rfl⟩
    · exact ⟨hkind, rfl⟩
    · exact absurd htext (h.name hkind)

/-- Either an operator of the table comes next and is passed, or none does. -/
theorem acceptOperator_cases {c : Cursor} (hc : Lexed c.words) {table : List (Text × α)}
    (htable : ∀ entry ∈ table, entry.1 ∈ Token.operators) :
    (∃ entry ∈ table, ∃ c', acceptOperator table c = .ok (some entry.2, c') ∧
        c.words = .of entry.1 :: c'.words) ∨
      (acceptOperator table c = .ok (none, c) ∧
        ∀ entry ∈ table, c.words.head? ≠ some (.of entry.1)) := by
  obtain ⟨rest, lastStop⟩ := c
  cases rest with
  | nil => exact .inr ⟨rfl, by simp [Cursor.words]⟩
  | cons token rest =>
    have hlexed : token.word.IsLexed := hc _ List.mem_cons_self
    cases hfind : table.find? fun entry => token.isOperator && token.text == entry.1 with
    | none =>
      right
      refine ⟨?_, fun entry hentry hhead => ?_⟩
      · simp only [acceptOperator, bind_apply, peek_apply, List.head?_cons, hfind, pure_apply]
      · have hnot := List.find?_eq_none.mp hfind entry hentry
        exact hnot ((isOperator_iff hlexed (htable entry hentry)).mpr (Option.some.inj hhead))
    | some entry =>
      left
      have hentry := List.mem_of_find?_eq_some hfind
      have hfound := List.find?_some hfind
      have hword := (isOperator_iff hlexed (htable entry hentry)).mp hfound
      refine ⟨entry, hentry, ⟨rest, token.stop⟩, ?_, ?_⟩
      · simp only [acceptOperator, bind_apply, peek_apply, List.head?_cons, hfind]
        rfl
      · rw [← hword]
        rfl

/-- Every word but an operator may begin an expression, and of the operators some do. -/
theorem startsExpression_cases (c : Cursor) :
    (startsExpression c = .ok (true, c) ∧ c.words ≠ []) ∨
      (startsExpression c = .ok (false, c) ∧ ∀ w ∈ c.words.head?,
        w.kind = .operator ∧ w ∉ [.of "(", .of "[", .of "\x7b", .of "-", .of "+"]) := by
  obtain ⟨rest, lastStop⟩ := c
  cases rest with
  | nil => exact .inr ⟨rfl, fun w h => by cases h⟩
  | cons token rest =>
    let starts := !token.isOperator ||
      (token.text == "(" || token.text == "[" || token.text == "\x7b" || token.text == "-" ||
        token.text == "+")
    have happly : startsExpression ⟨token :: rest, lastStop⟩ =
        .ok (starts, ⟨token :: rest, lastStop⟩) := rfl
    cases hstarts : starts with
    | true => exact .inl ⟨hstarts ▸ happly, List.cons_ne_nil _ _⟩
    | false =>
      refine .inr ⟨hstarts ▸ happly, fun w hw => ?_⟩
      obtain rfl : token.word = w := Option.some.inj hw
      simp only [starts, Bool.or_eq_false_iff, Bool.not_eq_false', Token.isOperator, beq_iff_eq,
        beq_eq_false_iff_ne] at hstarts
      obtain ⟨hkind, ⟨⟨⟨hround, hsquare⟩, hbrace⟩, hminus⟩, hplus⟩ := hstarts
      refine ⟨hkind, fun hmem => ?_⟩
      simp only [List.mem_cons, List.not_mem_nil, or_false] at hmem
      rcases hmem with h | h | h | h | h
      · exact hround ((congrArg Word.text h).trans (Word.text_of _))
      · exact hsquare ((congrArg Word.text h).trans (Word.text_of _))
      · exact hbrace ((congrArg Word.text h).trans (Word.text_of _))
      · exact hminus ((congrArg Word.text h).trans (Word.text_of _))
      · exact hplus ((congrArg Word.text h).trans (Word.text_of _))

end Parse

end Scriptlet
