import Scriptlet.Proofs.Parse.Whole
import Scriptlet.Proofs.Spans

/-
  Words that stand in a list of tokens.

  Places are numbers of tokens. `Stands tokens i ws` says that behind the first `i` tokens come tokens
  with the words `ws`, `Fills tokens i j ws` that these are the tokens up to `j`, and
  `Yields tokens parser i post` that the parser, begun there, ends behind some number of tokens if it
  gives anything, and what it gives satisfies `post` there.

  What is proved:
    1. `stands_append` and `Fills.append` — words stand one behind the other.
    2. `Yields.pure`, `Yields.bind` and a lemma for each small step of the parser.
-/

namespace Scriptlet

namespace Parse

variable {α β : Type}

/-! ## Places -/

/-- Where the last of the first so many tokens ends. -/
def stopBefore (tokens : List Token) : Nat → Nat
  | 0 => 0
  | i + 1 => (tokens[i]?.map Token.stop).getD 0

/-- The cursor behind the first `i` tokens. -/
def behind (tokens : List Token) (i : Nat) : Cursor := ⟨tokens.drop i, stopBefore tokens i⟩

/-- The span from the token `i` up to the token `j`. -/
def spanAt (tokens : List Token) (i j : Nat) : Span :=
  ⟨place (behind tokens i), stopBefore tokens j⟩

/-- The token `i` is the word, which is lexed. -/
def IsAt (tokens : List Token) (i : Nat) (w : Word) : Prop :=
  ∃ token, tokens[i]? = some token ∧ token.word = w ∧ w.IsLexed

/-- Behind the first `i` tokens come tokens with the words. -/
def Stands (tokens : List Token) : Nat → List Word → Prop
  | _, [] => True
  | i, w :: ws => IsAt tokens i w ∧ Stands tokens (i + 1) ws

/-- Begun behind the first `i` tokens, the parser gives only what satisfies `post` of the number of
tokens behind which it ends and what it gives. -/
def Yields (tokens : List Token) (parser : Parse α) (i : Nat) (post : Nat → α → Prop) : Prop :=
  ∀ a c, parser (behind tokens i) = .ok (a, c) → ∃ j, c = behind tokens j ∧ post j a

variable {tokens : List Token} {i j k : Nat} {w : Word} {ws us : List Word}

theorem IsAt.lt (h : IsAt tokens i w) : i < tokens.length := by
  obtain ⟨token, htoken, -⟩ := h
  exact (List.getElem?_eq_some_iff.mp htoken).1

theorem stands_nil : Stands tokens i [] := trivial

theorem stands_cons : Stands tokens i (w :: ws) ↔ IsAt tokens i w ∧ Stands tokens (i + 1) ws := .rfl

theorem stands_append :
    Stands tokens i (ws ++ us) ↔ Stands tokens i ws ∧ Stands tokens (i + ws.length) us := by
  induction ws generalizing i with
  | nil => simp [Stands]
  | cons w ws ih =>
    rw [List.cons_append, stands_cons, stands_cons, ih, and_assoc, List.length_cons,
      Nat.add_right_comm, Nat.add_assoc]

theorem Stands.lexed (h : Stands tokens i ws) : Lexed ws := by
  induction ws generalizing i with
  | nil => exact fun w hw => absurd hw (by simp)
  | cons w ws ih =>
    obtain ⟨⟨token, -, -, hlexed⟩, hrest⟩ := h
    exact List.forall_mem_cons.mpr ⟨hlexed, ih hrest⟩

/-- Words that stand somewhere are the words of the tokens there. -/
theorem Stands.words_eq (h : Stands tokens i ws) :
    ((tokens.drop i).take ws.length).map Token.word = ws := by
  induction ws generalizing i with
  | nil => simp
  | cons w ws ih =>
    obtain ⟨⟨token, htoken, hword, -⟩, hrest⟩ := h
    have hdrop : tokens.drop i = token :: tokens.drop (i + 1) := by
      obtain ⟨hlt, rfl⟩ := List.getElem?_eq_some_iff.mp htoken
      exact List.drop_eq_getElem_cons hlt
    rw [hdrop, List.length_cons, List.take_succ_cons, List.map_cons, hword, ih hrest]

theorem Stands.length_le (h : Stands tokens i ws) (hi : i ≤ tokens.length) :
    i + ws.length ≤ tokens.length := by
  have hlength := congrArg List.length h.words_eq
  simp only [List.length_map, List.length_take, List.length_drop] at hlength
  omega

/-- The words stand from `i` up to `j`. -/
structure Fills (tokens : List Token) (i j : Nat) (ws : List Word) : Prop where
  stands : Stands tokens i ws
  stop : j = i + ws.length

theorem Stands.fills (h : Stands tokens i ws) : Fills tokens i (i + ws.length) ws := ⟨h, rfl⟩

namespace Fills

theorem nil : Fills tokens i i [] := ⟨trivial, rfl⟩

theorem cons (hw : IsAt tokens i w) (hws : Fills tokens (i + 1) j ws) :
    Fills tokens i j (w :: ws) := by
  refine ⟨⟨hw, hws.stands⟩, ?_⟩
  rw [hws.stop, List.length_cons, Nat.add_assoc, Nat.add_comm 1]

theorem single (hw : IsAt tokens i w) : Fills tokens i (i + 1) [w] := cons hw nil

theorem append (hws : Fills tokens i j ws) (hus : Fills tokens j k us) :
    Fills tokens i k (ws ++ us) := by
  obtain ⟨hstands, rfl⟩ := hws
  refine ⟨stands_append.mpr ⟨hstands, hus.stands⟩, ?_⟩
  rw [hus.stop, List.length_append, Nat.add_assoc]

/-- Words that stand around one word. -/
theorem append_cons (hws : Fills tokens i j ws) (hw : IsAt tokens j w)
    (hus : Fills tokens (j + 1) k us) : Fills tokens i k (ws ++ w :: us) :=
  hws.append (cons hw hus)

/-- Words with one word behind them. -/
theorem append_single (hws : Fills tokens i j ws) (hw : IsAt tokens j w) :
    Fills tokens i (j + 1) (ws ++ [w]) :=
  hws.append (single hw)

end Fills

/-! ## Steps of the parser -/

namespace Yields

variable {post mid : Nat → α → Prop} {post' : Nat → β → Prop}

theorem pure {a : α} (h : post i a) : Yields tokens (pure a) i post := by
  intro a' c hok
  cases hok
  exact ⟨i, rfl, h⟩

theorem bind {x : Parse α} {f : α → Parse β} (hx : Yields tokens x i mid)
    (hf : ∀ j a, mid j a → Yields tokens (f a) j post') : Yields tokens (x >>= f) i post' := by
  intro b c hok
  rw [bind_apply] at hok
  cases hfirst : x (behind tokens i) with
  | error fault =>
    rw [hfirst] at hok
    cases hok
  | ok result =>
    obtain ⟨a, c'⟩ := result
    rw [hfirst] at hok
    obtain ⟨j, rfl, hmid⟩ := hx a c' hfirst
    exact hf j a hmid b c hok

theorem mono {x : Parse α} (hx : Yields tokens x i mid) (h : ∀ j a, mid j a → post j a) :
    Yields tokens x i post := by
  intro a c hok
  obtain ⟨j, hc, hmid⟩ := hx a c hok
  exact ⟨j, hc, h j a hmid⟩

theorem throw (fault : ParseFault) : Yields tokens (throw fault : Parse α) i post :=
  fun _ _ hok => by cases hok

theorem refuse (expected : Expected) : Yields tokens (refuse expected : Parse α) i post :=
  fun _ _ hok => by cases hok

theorem refuse_bind (expected : Expected) {f : α → Parse β} :
    Yields tokens (Parse.refuse expected >>= f) i post' :=
  fun _ _ hok => by cases hok

/-- A step that looks at the cursor and leaves it where it is. -/
theorem look {x : Parse α} {f : α → Parse β} {a : α}
    (hx : x (behind tokens i) = .ok (a, behind tokens i)) (hf : Yields tokens (f a) i post') :
    Yields tokens (x >>= f) i post' := by
  intro b c hok
  rw [bind_apply, hx] at hok
  exact hf b c hok

theorem position {f : Nat → Parse β} (hf : Yields tokens (f (place (behind tokens i))) i post') :
    Yields tokens (position >>= f) i post' :=
  look (position_apply _) hf

theorem spanFrom {f : Span → Parse β} (hf : Yields tokens (f (spanAt tokens j i)) i post') :
    Yields tokens (spanFrom (place (behind tokens j)) >>= f) i post' :=
  look (spanFrom_apply _ _) hf

theorem get {f : Cursor → Parse β} (hf : Yields tokens (f (behind tokens i)) i post') :
    Yields tokens (get >>= f) i post' :=
  look (get_apply _) hf

theorem peek {f : Option Token → Parse β} (hf : Yields tokens (f tokens[i]?) i post') :
    Yields tokens (peek >>= f) i post' := by
  refine look (peek_apply _) ?_
  rw [behind, List.head?_drop]
  exact hf

/-- A token that is there is passed. -/
theorem advance {f : Unit → Parse β} (hi : i < tokens.length)
    (hf : Yields tokens (f ()) (i + 1) post') : Yields tokens (advance >>= f) i post' := by
  have hadvance : Parse.advance (behind tokens i) = .ok ((), behind tokens (i + 1)) := by
    show Except.ok ((), _) = _
    simp only [behind, List.drop_eq_getElem_cons hi, stopBefore, List.getElem?_eq_getElem hi,
      Option.map_some, Option.getD_some]
  intro b c hok
  rw [bind_apply, hadvance] at hok
  exact hf b c hok

end Yields

/-- The kinds of the tokens fit their texts, as those of a text do. -/
def Fitting (tokens : List Token) : Prop := ∀ token ∈ tokens, Token.Fits token.kind token.text

section Words

variable (hfits : Fitting tokens) {text : Text}

include hfits

theorem isLexed_of_kind {token : Token} (htoken : tokens[i]? = some token)
    (hkind : token.kind ≠ .number) : token.word.IsLexed :=
  have hfit := hfits token (List.mem_of_getElem? htoken)
  ⟨hfit.operator, hfit.name, fun h => absurd h hkind⟩

theorem isAt_of_kind {token : Token} (htoken : tokens[i]? = some token)
    (hkind : token.kind ≠ .number) : IsAt tokens i token.word :=
  ⟨token, htoken, rfl, isLexed_of_kind hfits htoken hkind⟩

theorem isAt_name {token : Token} (htoken : tokens[i]? = some token) (hkind : token.kind = .name) :
    IsAt tokens i ⟨.name, token.text⟩ := by
  rw [← hkind]
  exact isAt_of_kind hfits htoken (by rw [hkind]; decide)

theorem is_iff_isAt {token : Token} (htoken : tokens[i]? = some token) :
    Token.is text token = true ↔ IsAt tokens i (.of text) := by
  have hof : (Word.of text).kind ≠ .number := by
    rw [Word.kind_of]
    split <;> decide
  constructor
  · intro his
    have hkind : token.kind ≠ .number := by
      intro hnumber
      simp [Token.is, hnumber] at his
    have hlexed := isLexed_of_kind hfits htoken hkind
    have hword := (Token.is_iff hlexed text).mp his
    exact ⟨token, htoken, hword, hword ▸ hlexed⟩
  · rintro ⟨token', htoken', hword, hlexed⟩
    obtain rfl : token = token' := Option.some.inj (htoken.symm.trans htoken')
    exact (Token.is_iff (hword ▸ hlexed) text).mpr hword

theorem any_is_iff : tokens[i]?.any (Token.is text) = true ↔ IsAt tokens i (.of text) := by
  cases htoken : tokens[i]? with
  | none => simp [IsAt, htoken]
  | some token => exact is_iff_isAt hfits htoken

theorem at?_behind (i : Nat) (text : Text) : ∃ b,
    at? text (behind tokens i) = .ok (b, behind tokens i) ∧
      (b = true ↔ IsAt tokens i (.of text)) := by
  refine ⟨_, rfl, ?_⟩
  rw [behind, List.head?_drop]
  exact any_is_iff hfits

theorem secondIs_behind (i : Nat) (text : Text) : ∃ b,
    secondIs text (behind tokens i) = .ok (b, behind tokens i) ∧
      (b = true ↔ IsAt tokens (i + 1) (.of text)) := by
  refine ⟨_, rfl, ?_⟩
  rw [behind, List.drop_drop, List.head?_drop]
  exact any_is_iff hfits

variable {post : Nat → α → Prop} {yes no : Parse α}

theorem Yields.ite_at? (hyes : IsAt tokens i (.of text) → Yields tokens yes i post)
    (hno : ¬ IsAt tokens i (.of text) → Yields tokens no i post) :
    Yields tokens (Parse.at? text >>= fun b => if b = true then yes else no) i post := by
  obtain ⟨b, hat, hb⟩ := at?_behind hfits i text
  refine .look hat ?_
  split
  · exact hyes (hb.mp ‹_›)
  · exact hno fun h => ‹¬ _› (hb.mpr h)

theorem Yields.accept : Yields tokens (Parse.accept text) i fun j b =>
    (b = true ∧ IsAt tokens i (.of text) ∧ j = i + 1) ∨
      (b = false ∧ ¬ IsAt tokens i (.of text) ∧ j = i) :=
  .ite_at? hfits (fun h => .advance h.lt (.pure (.inl ⟨rfl, h, rfl⟩)))
    fun h => .pure (.inr ⟨rfl, h, rfl⟩)

theorem Yields.ite_accept (hyes : IsAt tokens i (.of text) → Yields tokens yes (i + 1) post)
    (hno : ¬ IsAt tokens i (.of text) → Yields tokens no i post) :
    Yields tokens (Parse.accept text >>= fun b => if b = true then yes else no) i post := by
  refine (Yields.accept hfits).bind fun j b hb => ?_
  rcases hb with ⟨rfl, hat, rfl⟩ | ⟨rfl, hat, rfl⟩
  · exact hyes hat
  · exact hno hat

theorem Yields.expect {f : Unit → Parse α}
    (hf : IsAt tokens i (.of text) → Yields tokens (f ()) (i + 1) post) :
    Yields tokens (Parse.expect text >>= f) i post := by
  have hexpect : Yields tokens (Parse.expect text) i fun j _ =>
      IsAt tokens i (.of text) ∧ j = i + 1 :=
    .ite_accept hfits (fun h => .pure ⟨h, rfl⟩) fun _ => .refuse _
  refine hexpect.bind fun j _ hj => ?_
  obtain ⟨hat, rfl⟩ := hj
  exact hf hat

theorem Yields.acceptOperator {table : List (Text × α)}
    (htable : ∀ entry ∈ table, entry.1 ∈ Token.operators) :
    Yields tokens (Parse.acceptOperator table) i fun j op => (op = none ∧ j = i) ∨
      ∃ entry ∈ table, op = some entry.2 ∧ IsAt tokens i (.of entry.1) ∧ j = i + 1 := by
  refine .peek ?_
  cases htoken : tokens[i]? with
  | none => exact .pure (.inl ⟨rfl, rfl⟩)
  | some token =>
    dsimp only
    split
    · rename_i text op hfind
      have hentry := List.mem_of_find?_eq_some hfind
      have hfound := List.find?_some hfind
      have hkind : token.kind = .operator := by
        simp only [Token.isOperator, Bool.and_eq_true, beq_iff_eq] at hfound
        exact hfound.1
      have hlexed := isLexed_of_kind hfits htoken (by rw [hkind]; decide)
      have hword := (isOperator_iff hlexed (htable _ hentry)).mp hfound
      have hat : IsAt tokens i (.of text) := ⟨token, htoken, hword, hword ▸ hlexed⟩
      exact .advance hat.lt (.pure (.inr ⟨_, hentry, rfl, hat, rfl⟩))
    · exact .pure (.inl ⟨rfl, rfl⟩)

end Words

end Parse

end Scriptlet
