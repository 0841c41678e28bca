import Scriptlet.Proofs.Parse.Whole

/-
  Parsing in less room, and of integers that are too long.

  Room is spent on rules within rules, and a rule that finds none left says so at once. An integer with too
  many digits is reported where it is read. No rule goes on behind either. So what a parser does in some
  room on any tokens is what it does in more room on the tokens with one digit in the place of each integer
  that is too long, until it runs out of room or comes to such an integer.

  What is proved:
    1. `Follows` — being the same up to that point is kept by whatever parsers are put together with.
    2. `rules_follow` — so every rule is the rule in more room on shorter integers, up to that point.
    3. `Expr.parseWhole_outcomes` — in any room a text is too deep, or has an integer that is too long, or is
       parsed to what the grammar derives, or the grammar derives nothing.
-/

namespace Scriptlet

/-! ## Shorter integers -/

namespace Word

/-- An integer that is too long to be read. -/
def isLong (w : Word) : Bool :=
  w.kind == .number && !w.text.any (fun c => c.val == 46 || c.val == 101 || c.val == 69) &&
    NumberText.maxDigits < w.text.length

/-- The word, or one digit in the place of an integer that is too long. -/
def shortened (w : Word) : Word := if w.isLong then ⟨.number, "0"⟩ else w

theorem shortened_of_not_isLong {w : Word} (h : w.isLong = false) : w.shortened = w :=
  if_neg (ne_true_of_eq_false h)

theorem isLong_of_kind {w : Word} (h : w.kind ≠ .number) : w.isLong = false := by
  simp [isLong, h]

theorem kind_shortened (w : Word) : w.shortened.kind = w.kind := by
  unfold shortened
  split
  · rename_i h
    simp only [isLong, Bool.and_eq_true, beq_iff_eq] at h
    exact h.1.1.symm
  · rfl

theorem shortened_of_kind {w : Word} (h : w.kind ≠ .number) : w.shortened = w :=
  shortened_of_not_isLong (isLong_of_kind h)

theorem isLong_of (text : Text) : (Word.of text).isLong = false := by
  refine isLong_of_kind ?_
  rw [kind_of]
  split <;> exact fun h => by cases h

theorem shortened_of (text : Text) : (Word.of text).shortened = .of text :=
  shortened_of_not_isLong (isLong_of text)

theorem isLong_shortened (w : Word) : w.shortened.isLong = false := by
  unfold shortened
  split
  · decide
  · exact Bool.eq_false_iff.mpr ‹_›

/-- Words whose integers are shortened are lexed if their kinds fit their texts. -/
theorem isLexed_shortened {w : Word} (hoperator : w.kind = .operator → w.text ∈ Token.operators)
    (hname : w.kind = .name → w.text ∉ Token.operators) : w.shortened.IsLexed where
  operator h := by
    have hkind : w.kind = .operator := w.kind_shortened ▸ h
    rw [shortened_of_kind (by rw [hkind]; exact fun h => by cases h)]
    exact hoperator hkind
  name h := by
    have hkind : w.kind = .name := w.kind_shortened ▸ h
    rw [shortened_of_kind (by rw [hkind]; exact fun h => by cases h)]
    exact hname hkind
  short hkind hwhole := by
    have hshort := w.isLong_shortened
    simpa [isLong, hkind, hwhole] using hshort

theorem IsLexed.isLong_eq_false {w : Word} (h : w.IsLexed) : w.isLong = false := by
  refine Bool.eq_false_iff.mpr fun hlong => ?_
  simp only [isLong, Bool.and_eq_true, beq_iff_eq, Bool.not_eq_true', decide_eq_true_eq] at hlong
  exact absurd (h.short hlong.1.1 hlong.1.2) (Nat.not_le.mpr hlong.2)

end Word

namespace Token

/-- The token with one digit in the place of an integer that is too long. -/
def shortened (token : Token) : Token := { token with text := token.word.shortened.text }

theorem word_shortened (token : Token) : token.shortened.word = token.word.shortened := by
  have hkind := token.word.kind_shortened
  show (⟨token.kind, token.word.shortened.text⟩ : Word) = _
  rw [show token.kind = token.word.kind from rfl, ← hkind]

theorem shortened_of_not_isLong {token : Token} (h : token.word.isLong = false) :
    token.shortened = token := by
  rw [shortened, Word.shortened_of_not_isLong h]
  rfl

theorem shortened_of_kind {token : Token} (h : token.kind ≠ .number) : token.shortened = token :=
  shortened_of_not_isLong (Word.isLong_of_kind h)

theorem isLong_iff {token : Token} : token.word.isLong = true ↔
    token.IsInteger ∧ NumberText.maxDigits < token.text.length := by
  rw [Word.isLong, Bool.and_eq_true, Bool.and_eq_true, beq_iff_eq, Bool.not_eq_true']
  exact and_congr_right fun _ => decide_eq_true_iff

theorem is_shortened (text : Text) (token : Token) :
    Token.is text token.shortened = Token.is text token := by
  by_cases h : token.kind = .number
  · rw [Token.is, Token.is, shortened, h]
    rfl
  · rw [shortened_of_kind h]

theorem isLong_of_is {text : Text} {token : Token} (h : Token.is text token = true) :
    token.word.isLong = false := by
  refine Word.isLong_of_kind fun hkind => ?_
  have hkind : token.kind = .number := hkind
  simp [Token.is, hkind] at h

end Token

namespace Cursor

/-- The cursor with its integers shortened. -/
def shortened (c : Cursor) : Cursor := { c with rest := c.rest.map Token.shortened }

theorem length_shortened (c : Cursor) : c.shortened.rest.length = c.rest.length := List.length_map ..

theorem shortened_cons {token : Token} {rest : List Token} {lastStop : Nat}
    (h : token.word.isLong = false) : shortened ⟨token :: rest, lastStop⟩ =
      ⟨token :: rest.map Token.shortened, lastStop⟩ := by
  rw [shortened, List.map_cons, Token.shortened_of_not_isLong h]

theorem shortened_of_short {c : Cursor} (h : ∀ token ∈ c.rest, token.word.isLong = false) :
    c.shortened = c := by
  rw [shortened, List.map_congr_left fun token htoken => Token.shortened_of_not_isLong (h token htoken),
    List.map_id']

theorem words_shortened (c : Cursor) : c.shortened.words = c.words.map Word.shortened := by
  unfold words shortened
  rw [List.map_map, List.map_map]
  exact List.map_congr_left fun token _ => token.word_shortened

/-- The second cursor is left of the first one behind tokens that are not too long. -/
def Leaves (c c' : Cursor) : Prop :=
  ∃ front, c.rest = front ++ c'.rest ∧ ∀ token ∈ front, token.word.isLong = false

theorem Leaves.refl (c : Cursor) : c.Leaves c := ⟨[], rfl, List.forall_mem_nil _⟩

theorem Leaves.cons {token : Token} {rest : List Token} {lastStop : Nat}
    (h : token.word.isLong = false) : Leaves ⟨token :: rest, lastStop⟩ ⟨rest, token.stop⟩ :=
  ⟨[token], rfl, List.forall_mem_singleton.mpr h⟩

theorem Leaves.trans {c c' c'' : Cursor} (h : c.Leaves c') (h' : c'.Leaves c'') : c.Leaves c'' := by
  obtain ⟨front, hrest, hfront⟩ := h
  obtain ⟨next, hnext, hshort⟩ := h'
  refine ⟨front ++ next, by rw [hrest, hnext, List.append_assoc], fun token htoken => ?_⟩
  rcases List.mem_append.mp htoken with hmem | hmem
  · exact hfront token hmem
  · exact hshort token hmem

theorem Leaves.mem {c c' : Cursor} (h : c.Leaves c') {token : Token} (htoken : token ∈ c'.rest) :
    token ∈ c.rest := by
  obtain ⟨front, hrest, -⟩ := h
  rw [hrest]
  exact List.mem_append_right front htoken

end Cursor

namespace Parse

/-! ## Parsers that do the same -/

/-- An outcome on a cursor, beside another one on the cursor with its integers shortened: it is too deep, or
an integer is too long, or both are the same. It is too deep alone only where there is less room for it. -/
inductive Agrees {α : Type} (less : Prop) (c : Cursor) :
    Except ParseFault (α × Cursor) → Except ParseFault (α × Cursor) → Prop where
  | tooDeep {other} : (less ∨ other = .error .tooDeep) → Agrees less c (.error .tooDeep) other
  | long {token : Token} {other} : token ∈ c.rest → token.word.isLong = true →
      Agrees less c (.error (.longInteger token.text.length)) other
  | refused {fault fault' : ParseFault} : fault.IsRefusal → fault'.IsRefusal →
      Agrees less c (.error fault) (.error fault')
  | read {a : α} {c' : Cursor} : c.Leaves c' → Agrees less c (.ok (a, c')) (.ok (a, c'.shortened))

variable {less : Prop}

theorem Agrees.behind {α : Type} {c c' : Cursor} {outcome other : Except ParseFault (α × Cursor)}
    (h : c.Leaves c') (hagrees : Agrees less c' outcome other) : Agrees less c outcome other := by
  cases hagrees with
  | tooDeep hdeep => exact .tooDeep hdeep
  | long htoken hlong => exact .long (h.mem htoken) hlong
  | refused hfault hfault' => exact .refused hfault hfault'
  | read hleaves => exact .read (h.trans hleaves)

theorem Agrees.stays {α : Type} {token : Token} {rest : List Token} {s : Nat} (a : α)
    (h : token.word.isLong = false) : Agrees less ⟨token :: rest, s⟩ (.ok (a, ⟨token :: rest, s⟩))
      (.ok (a, ⟨token :: rest.map Token.shortened, s⟩)) := by
  rw [← Cursor.shortened_cons h]
  exact .read (.refl _)

/-- On every cursor the first parser does what the second one does on shorter integers, unless it is too
deep or comes to an integer that is too long. -/
def Follows (less : Prop) {α : Type} (p q : Parse α) : Prop := ∀ c, Agrees less c (p c) (q c.shortened)

/-- A number is read, or it is an integer that is too long. -/
theorem Agrees.numeral {token : Token} {rest : List Token} {s : Nat} (start : Nat)
    (hkind : token.kind = .number) : Agrees less ⟨token :: rest, s⟩
      ((do advance; return Expr.literal (← spanFrom start) (← number token.text)) ⟨token :: rest, s⟩)
      ((do advance; return Expr.literal (← spanFrom start) (← number token.shortened.text))
        ⟨token.shortened :: rest.map Token.shortened, s⟩) := by
  have hpass : ∀ (number : Token) others, advance ⟨number :: others, s⟩ = .ok ((), ⟨others, number.stop⟩) :=
    fun _ _ => rfl
  cases hlong : token.word.isLong with
  | true =>
    obtain ⟨⟨-, hwhole⟩, hlength⟩ := Token.isLong_iff.mp hlong
    have hnumber : ∀ c, number token.text c = .error (.longInteger token.text.length) := by
      intro c
      rw [number, hwhole, if_neg Bool.false_ne_true, if_pos hlength]
      rfl
    rw [bind_of_ok (hpass token rest), bind_of_ok (spanFrom_apply _ _), bind_of_error (hnumber _)]
    exact .long (List.mem_cons_self ..) hlong
  | false =>
    have hlexed : token.word.IsLexed := by
      rw [← Word.shortened_of_not_isLong hlong]
      exact Word.isLexed_shortened (fun h => by cases hkind.symm.trans h)
        fun h => by cases hkind.symm.trans h
    rw [Token.shortened_of_not_isLong hlong]
    simp only [bind_apply, hpass, spanFrom_apply, number_apply hlexed hkind, pure_apply]
    exact .read (.cons hlong)

namespace Follows

variable {α β : Type}

theorem pure (a : α) : Follows less (pure a) (pure a) := fun c => .read (.refl c)

theorem tooDeep {p : Parse α} (h : less ∨ p = throw .tooDeep) : Follows less (throw .tooDeep) p :=
  fun _ => .tooDeep (h.imp_right fun hdeep => congrFun hdeep _)

theorem bind {p q : Parse α} {f g : α → Parse β} (h : Follows less p q)
    (hfg : ∀ a, Follows less (f a) (g a)) :
    Follows less (p >>= f) (q >>= g) := by
  intro c
  rw [bind_apply, bind_apply]
  match p c, q c.shortened, h c with
  | _, _, .tooDeep hdeep =>
    refine .tooDeep (hdeep.imp_right fun hother => ?_)
    rw [hother]
  | _, _, .long htoken hlong => exact .long htoken hlong
  | _, _, .refused hfault hfault' => exact .refused hfault hfault'
  | .ok (a, c'), _, .read hleaves => exact (hfg a c').behind hleaves

theorem ite {c : Prop} [Decidable c] {p q p' q' : Parse α} (h : Follows less p q) (h' : Follows less p' q') :
    Follows less (if c then p else p') (if c then q else q') := by
  split
  · exact h
  · exact h'

/-- What only looks at the cursor, and sees no texts of integers. -/
theorem look {p : Parse α} {f : Cursor → α} (hp : ∀ c, p c = .ok (f c, c))
    (hf : ∀ c, f c.shortened = f c) : Follows less p p := by
  intro c
  rw [hp, hp, hf]
  exact .read (.refl c)

theorem get_bind {f g : Cursor → Parse β} (h : ∀ c, Follows less (f c) (g c.shortened)) :
    Follows less (get >>= f) (get >>= g) :=
  fun c => h c c

/-- A cursor is at the end, or at a number, or at a token that stays as it is. -/
theorem of_cases {p q : Parse α} (hnil : ∀ s, Agrees less ⟨[], s⟩ (p ⟨[], s⟩) (q ⟨[], s⟩))
    (hnumber : ∀ token rest s, token.kind = .number → Agrees less ⟨token :: rest, s⟩ (p ⟨token :: rest, s⟩)
      (q ⟨token.shortened :: rest.map Token.shortened, s⟩))
    (hother : ∀ token rest s, token.word.isLong = false → token.kind ≠ .number →
      Agrees less ⟨token :: rest, s⟩ (p ⟨token :: rest, s⟩) (q ⟨token :: rest.map Token.shortened, s⟩)) :
    Follows less p q := by
  rintro ⟨rest, s⟩
  cases rest with
  | nil => exact hnil s
  | cons token rest =>
    by_cases h : token.kind = .number
    · exact hnumber token rest s h
    · have hshort : token.word.isLong = false := Word.isLong_of_kind h
      rw [Cursor.shortened_cons hshort]
      exact hother token rest s hshort h

end Follows

/-! ## Steps -/

theorem follows_position : Follows less position position := by
  refine .look position_apply fun c => ?_
  obtain ⟨rest, lastStop⟩ := c
  cases rest <;> rfl

theorem follows_spanFrom (start : Nat) : Follows less (spanFrom start) (spanFrom start) :=
  .look (spanFrom_apply start) fun _ => rfl

/-- What is built of the span alone. -/
theorem follows_build {α : Type} (start : Nat) (build : Span → α) :
    Follows less (do return build (← spanFrom start)) (do return build (← spanFrom start)) :=
  (follows_spanFrom start).bind fun span => .pure (build span)

theorem any_is_shortened (text : Text) (tokens : List Token) :
    (tokens.map Token.shortened).head?.any (Token.is text) = tokens.head?.any (Token.is text) := by
  cases tokens with
  | nil => rfl
  | cons token rest => exact token.is_shortened text

theorem follows_at? (text : Text) : Follows less (at? text) (at? text) :=
  .look (f := fun c => c.rest.head?.any (Token.is text)) (fun _ => rfl)
    fun c => any_is_shortened text c.rest

theorem follows_startsExpression : Follows less startsExpression startsExpression := by
  refine .of_cases (fun s => .read (.refl _)) (fun token rest s hkind => ?_)
    fun token rest s hshort _ => .stays _ hshort
  have hstarts : ∀ (number : Token) others, number.kind = .number →
      startsExpression ⟨number :: others, s⟩ = .ok (true, ⟨number :: others, s⟩) := by
    intro number others hnumber
    show Except.ok (!number.isOperator || _, _) = _
    rw [Token.isOperator, hnumber]
    rfl
  rw [hstarts token rest hkind, hstarts token.shortened _ hkind]
  exact .read (.refl _)

theorem follows_refuse {α : Type} (expected : Expected) :
    Follows less (refuse expected : Parse α) (refuse expected) := fun _ => .refused trivial trivial

namespace Follows

variable {α β : Type}

/-- What is done behind an operator or a name that comes next. -/
theorem pass {text : Text} {f f' g g' : Parse β} (h : Follows less f f') (h' : Follows less g g') :
    Follows less (do if ← at? text then advance; f else g) (do if ← at? text then advance; f' else g') := by
  rintro ⟨rest, s⟩
  cases rest with
  | nil => exact h' ⟨[], s⟩
  | cons token rest =>
    have hat : ∀ (other : Token) others, at? text ⟨other :: others, s⟩ =
        .ok (Token.is text other, ⟨other :: others, s⟩) := fun _ _ => rfl
    rw [Cursor.shortened, List.map_cons, bind_of_ok (hat _ _), bind_of_ok (hat _ _), Token.is_shortened]
    cases his : Token.is text token with
    | true => exact (h ⟨rest, token.stop⟩).behind (.cons (Token.isLong_of_is his))
    | false => exact h' ⟨token :: rest, s⟩

/-- What is done behind two operators or names that come next. -/
theorem passTwo {first second : Text} {f f' g g' : Parse β} (h : Follows less f f') (h' : Follows less g g') :
    Follows less (do if (← at? first) && (← secondIs second) then advance; advance; f else g)
      (do if (← at? first) && (← secondIs second) then advance; advance; f' else g') := by
  have hfirst : ∀ (token : Token) rest s, at? first ⟨token :: rest, s⟩ =
      .ok (Token.is first token, ⟨token :: rest, s⟩) := fun _ _ _ => rfl
  rintro ⟨rest, s⟩
  match rest with
  | [] => exact h' ⟨[], s⟩
  | [token] =>
    have hsecond : ∀ token : Token, secondIs second ⟨[token], s⟩ = .ok (false, ⟨[token], s⟩) :=
      fun _ => rfl
    rw [Cursor.shortened, List.map_cons, List.map_nil, bind_of_ok (hfirst _ _ _),
      bind_of_ok (hfirst _ _ _), bind_of_ok (hsecond _), bind_of_ok (hsecond _), Bool.and_false,
      Bool.and_false]
    exact h' ⟨[token], s⟩
  | token :: next :: rest =>
    have hsecond : ∀ (token next : Token) rest, secondIs second ⟨token :: next :: rest, s⟩ =
        .ok (Token.is second next, ⟨token :: next :: rest, s⟩) := fun _ _ _ => rfl
    rw [Cursor.shortened, List.map_cons, List.map_cons, bind_of_ok (hfirst _ _ _),
      bind_of_ok (hfirst _ _ _), bind_of_ok (hsecond _ _ _), bind_of_ok (hsecond _ _ _),
      Token.is_shortened, Token.is_shortened]
    cases hboth : Token.is first token && Token.is second next with
    | true =>
      obtain ⟨his, hnext⟩ := Bool.and_eq_true_iff.mp hboth
      have hleaves : Cursor.Leaves ⟨token :: next :: rest, s⟩ ⟨next :: rest, token.stop⟩ :=
        .cons (Token.isLong_of_is his)
      exact (h ⟨rest, next.stop⟩).behind (hleaves.trans (.cons (Token.isLong_of_is hnext)))
    | false => exact h' ⟨token :: next :: rest, s⟩

end Follows

theorem follows_accept (text : Text) : Follows less (accept text) (accept text) :=
  .pass (.pure true) (.pure false)

theorem follows_expect (text : Text) : Follows less (expect text) (expect text) :=
  (follows_accept text).bind fun _ => .ite (.pure ()) (follows_refuse _)

theorem follows_word (text : Text) (op : BoolOp) : Follows less (word text op) (word text op) :=
  (follows_accept text).bind fun _ => .pure _

theorem follows_acceptOperator {α : Type} (table : List (Text × α)) :
    Follows less (acceptOperator table) (acceptOperator table) := by
  refine .of_cases (fun s => .read (.refl _)) (fun token rest s hkind => ?_)
    fun token rest s hshort _ => ?_
  · -- No operator is a number.
    have hnone : ∀ (number : Token) others, number.kind = .number →
        acceptOperator table ⟨number :: others, s⟩ = .ok (none, ⟨number :: others, s⟩) := by
      intro number others hnumber
      have hfind : table.find? (fun entry => number.isOperator && number.text == entry.1) = none := by
        simp [Token.isOperator, hnumber]
      simp only [acceptOperator, bind_apply, peek_apply, List.head?_cons, hfind, pure_apply]
    rw [hnone token rest hkind, hnone token.shortened _ hkind]
    exact .read (.refl _)
  · cases hfind : table.find? (fun entry => token.isOperator && token.text == entry.1) with
    | none =>
      simp only [acceptOperator, bind_apply, peek_apply, List.head?_cons, hfind, pure_apply]
      exact .stays _ hshort
    | some entry =>
      simp only [acceptOperator, bind_apply, peek_apply, List.head?_cons, hfind]
      exact .read (.cons hshort)

theorem follows_compareOperator : Follows less compareOperator compareOperator := by
  refine (follows_acceptOperator _).bind fun op => ?_
  cases op with
  | some op => exact .pure _
  | none =>
    exact (follows_accept "in").bind fun _ => .ite (.pure _) <| .passTwo (.pure _) <|
      (follows_accept "is").bind fun _ => .ite
        ((follows_accept "not").bind fun _ => .ite (.pure _) (.pure _)) (.pure _)

/-! ## Rules that use other rules -/

namespace Follows

variable {α : Type} {item item' : Parse Expr} (h : Follows less item item')

include h

theorem leftChain {operator : Parse (Option α)} (hoperator : Follows less operator operator)
    (build : Span → α → Expr → Expr → Expr) (start steps : Nat) (left : Expr) :
    Follows less (leftChain operator item build start steps left)
      (leftChain operator item' build start steps left) := by
  induction steps generalizing left with
  | zero => exact .pure _
  | succ steps ih =>
    refine hoperator.bind fun op => ?_
    cases op with
    | none => exact .pure _
    | some op => exact h.bind fun right => (follows_spanFrom start).bind fun span => ih _

theorem chain {operator : Parse (Option α)} (hoperator : Follows less operator operator)
    (build : Span → α → Expr → Expr → Expr) :
    Follows less (chain operator item build) (chain operator item' build) :=
  follows_position.bind fun start => h.bind fun first => .get_bind fun c => by
    rw [c.length_shortened]
    exact h.leftChain hoperator build start _ first

theorem comparisons (steps : Nat) (done : List (CompareOp × Expr)) :
    Follows less (comparisons item steps done) (comparisons item' steps done) := by
  induction steps generalizing done with
  | zero => exact .pure _
  | succ steps ih =>
    refine follows_compareOperator.bind fun op => ?_
    cases op with
    | none => exact .pure _
    | some op => exact h.bind fun right => ih _

theorem itemsUpTo (closing : Text) (steps : Nat) (done : List Expr) :
    Follows less (itemsUpTo item closing steps done) (itemsUpTo item' closing steps done) := by
  induction steps generalizing done with
  | zero => exact .pure _
  | succ steps ih =>
    exact (follows_accept closing).bind fun _ => .ite (.pure _) <| h.bind fun next =>
      (follows_accept ",").bind fun _ => .ite (ih _) ((follows_expect closing).bind fun _ => .pure _)

theorem items (closing : Text) (done : List Expr) :
    Follows less (items item closing done) (items item' closing done) :=
  .get_bind fun c => by
    rw [c.length_shortened]
    exact h.itemsUpTo closing _ done

theorem listTail (steps : Nat) (done : List Expr) :
    Follows less (listTail item steps done) (listTail item' steps done) := by
  induction steps generalizing done with
  | zero => exact .pure _
  | succ steps ih =>
    exact (follows_accept ",").bind fun _ => .ite (follows_startsExpression.bind fun _ =>
      .ite (h.bind fun next => ih _) (.pure _)) (.pure _)

theorem expressionList : Follows less (expressionList item) (expressionList item') :=
  follows_position.bind fun start => h.bind fun first => (follows_at? ",").bind fun _ =>
    .ite (.get_bind fun c => by
      rw [c.length_shortened]
      exact (h.listTail _ _).bind fun all => follows_build start _) (.pure _)

/-- Arguments are followed within so many steps, whatever has been read. -/
def FollowsArguments (less : Prop) (item item' : Parse Expr) (steps : Nat) : Prop :=
  ∀ args keywords, Follows less (argumentsUpTo item steps args keywords)
    (argumentsUpTo item' steps args keywords)

omit h in
theorem restOfArguments {steps : Nat} (hmore : FollowsArguments less item item' steps) (args : List Expr)
    (keywords : List (Span × Text × Expr)) :
    Follows less (restOfArguments item steps args keywords) (restOfArguments item' steps args keywords) :=
  (follows_accept ",").bind fun _ =>
    .ite (hmore args keywords) ((follows_expect ")").bind fun _ => .pure _)

theorem positional {steps : Nat} (hmore : FollowsArguments less item item' steps) (args : List Expr)
    (keywords : List (Span × Text × Expr)) :
    Follows less
      (if keywords.isEmpty then do
        let value ← item
        Parse.restOfArguments item steps (value :: args) keywords
      else refuse .positionalBeforeKeyword)
      (if keywords.isEmpty then do
        let value ← item'
        Parse.restOfArguments item' steps (value :: args) keywords
      else refuse .positionalBeforeKeyword) :=
  .ite (h.bind fun value => restOfArguments hmore (value :: args) keywords) (follows_refuse _)

theorem keyword {steps : Nat} (hmore : FollowsArguments less item item' steps) (start : Nat) (text : Text)
    (args : List Expr) (keywords : List (Span × Text × Expr)) :
    Follows less
      (do
        let value ← item
        let span ← spanFrom start
        Parse.restOfArguments item steps args ((span, text, value) :: keywords))
      (do
        let value ← item'
        let span ← spanFrom start
        Parse.restOfArguments item' steps args ((span, text, value) :: keywords)) :=
  h.bind fun value => (follows_spanFrom start).bind fun span =>
    restOfArguments hmore args ((span, text, value) :: keywords)

theorem argumentsUpTo (steps : Nat) : FollowsArguments less item item' steps := by
  induction steps with
  | zero => exact fun _ _ => .pure _
  | succ steps ih =>
    intro args keywords
    refine (follows_accept ")").bind fun _ => .ite (.pure _) <| follows_position.bind fun start => ?_
    have hpositional := h.positional ih args keywords
    -- An argument has a name if its first token is one and `=` follows it.
    rintro ⟨rest, s⟩
    match rest with
    | [] => exact hpositional ⟨[], s⟩
    | ⟨.number, text, first, last⟩ :: rest => exact hpositional ⟨⟨.number, text, first, last⟩ :: rest, s⟩
    | ⟨.string, text, first, last⟩ :: rest => exact hpositional ⟨⟨.string, text, first, last⟩ :: rest, s⟩
    | ⟨.operator, text, first, last⟩ :: rest =>
      exact hpositional ⟨⟨.operator, text, first, last⟩ :: rest, s⟩
    | [⟨.name, text, first, last⟩] => exact hpositional ⟨[⟨.name, text, first, last⟩], s⟩
    | ⟨.name, text, first, last⟩ :: next :: rest =>
      have hname : (Token.mk .name text first last).word.isLong = false :=
        Word.isLong_of_kind fun h => by cases h
      have hsecond : ∀ (token next : Token) rest, secondIs "=" ⟨token :: next :: rest, s⟩ =
          .ok (Token.is "=" next, ⟨token :: next :: rest, s⟩) := fun _ _ _ => rfl
      rw [Cursor.shortened_cons hname, List.map_cons, bind_of_ok (peek_apply _), bind_of_ok (peek_apply _),
        bind_of_ok (hsecond _ _ _), bind_of_ok (hsecond _ _ _), Token.is_shortened]
      cases hnext : Token.is "=" next with
      | false =>
        have hplain := hpositional ⟨⟨.name, text, first, last⟩ :: next :: rest, s⟩
        rwa [Cursor.shortened_cons hname, List.map_cons] at hplain
      | true =>
        have hleaves : Cursor.Leaves ⟨⟨.name, text, first, last⟩ :: next :: rest, s⟩ ⟨next :: rest, last⟩ :=
          .cons hname
        exact (h.keyword ih start text args keywords ⟨rest, next.stop⟩).behind
          (hleaves.trans (.cons (Token.isLong_of_is hnext)))

theorem subscriptParts (steps : Nat) (before : List (Option Expr)) (part : Option Expr) :
    Follows less (subscriptParts item steps before part) (subscriptParts item' steps before part) := by
  induction steps generalizing before part with
  | zero => exact .pure _
  | succ steps ih =>
    refine .pass (.ite (follows_refuse _) (ih _ _)) ?_
    refine (follows_at? "]").bind fun _ => .ite (.pure _) ?_
    cases part with
    | some part => exact follows_refuse _
    | none => exact h.bind fun next => ih _ _

theorem subscript : Follows less (subscript item) (subscript item') :=
  follows_position.bind fun start => .get_bind fun c => by
    rw [c.length_shortened]
    refine (h.subscriptParts _ _ _).bind fun parts => ?_
    obtain ⟨before, part⟩ := parts
    match before, part with
    | [], some index => exact .pure _
    | [], none => exact follows_refuse _
    | [lower], part => exact follows_build start _
    | upper :: lower :: _, part => exact follows_build start _

theorem suffixes (start steps : Nat) (target : Expr) :
    Follows less (suffixes item start steps target) (suffixes item' start steps target) := by
  induction steps generalizing target with
  | zero => exact .pure _
  | succ steps ih =>
    refine (follows_accept "(").bind fun _ => .ite ?call <| (follows_accept ".").bind fun _ =>
      .ite ?member <| (follows_accept "[").bind fun _ => .ite ?subscript (.pure _)
    case call =>
      exact .get_bind fun c => by
        rw [c.length_shortened]
        exact (h.argumentsUpTo _ _ _).bind fun given => (follows_spanFrom start).bind fun span => ih _
    case member =>
      refine .of_cases (fun s => .refused trivial trivial) (fun token rest s hkind => ?_)
        fun token rest s hshort _ => ?_
      · obtain ⟨kind, text, first, last⟩ := token
        subst hkind
        exact .refused trivial trivial
      · rw [bind_of_ok (peek_apply _), bind_of_ok (peek_apply _)]
        dsimp only [List.head?_cons]
        cases hname : (some token).filter (fun t => t.kind == .name && !Token.keywords.contains t.text) with
        | none => exact .refused trivial trivial
        | some name =>
          exact (((follows_spanFrom start).bind fun span => ih _) ⟨rest, token.stop⟩).behind (.cons hshort)
    case subscript =>
      exact h.subscript.bind fun index => (follows_expect "]").bind fun _ =>
        (follows_spanFrom start).bind fun span => ih _

theorem entries (steps : Nat) (done : List (Expr × Expr)) :
    Follows less (entries item steps done) (entries item' steps done) := by
  induction steps generalizing done with
  | zero => exact .pure _
  | succ steps ih =>
    exact (follows_accept ",").bind fun _ => .ite ((follows_at? _).bind fun _ => .ite (.pure _) <|
      h.bind fun key => (follows_expect ":").bind fun _ => h.bind fun value => ih _) (.pure _)

theorem braces (start : Nat) : Follows less (braces item start) (braces item' start) := by
  refine (follows_accept _).bind fun _ => .ite (follows_build start _) <| h.bind fun first =>
    (follows_accept ":").bind fun _ => .ite ?_ ?_
  · refine h.bind fun value => .get_bind fun c => ?_
    rw [c.length_shortened]
    exact (h.entries _ _).bind fun all => (follows_expect _).bind fun _ => follows_build start _
  · exact (follows_accept ",").bind fun _ => .ite ((h.items _ _).bind fun all => follows_build start _)
      ((follows_expect _).bind fun _ => follows_build start _)

theorem parentheses (start : Nat) : Follows less (parentheses item start) (parentheses item' start) :=
  (follows_accept ")").bind fun _ => .ite (follows_build start _) <| h.bind fun first =>
    (follows_accept ")").bind fun _ => .ite (.pure first) <| (follows_expect ",").bind fun _ =>
      (h.items _ _).bind fun _ => follows_build start _

/-- What stands in brackets. -/
theorem bracketed (start : Nat) : Follows less
    (do
      if ← accept "(" then Parse.parentheses item start
      else if ← accept "[" then
        let all ← Parse.items item "]" []
        return Expr.list (← spanFrom start) all
      else if ← accept "\x7b" then Parse.braces item start
      else refuse .anything)
    (do
      if ← accept "(" then Parse.parentheses item' start
      else if ← accept "[" then
        let all ← Parse.items item' "]" []
        return Expr.list (← spanFrom start) all
      else if ← accept "\x7b" then Parse.braces item' start
      else refuse .anything) :=
  (follows_accept "(").bind fun _ => .ite (h.parentheses start) <| (follows_accept "[").bind fun _ =>
    .ite ((h.items "]" []).bind fun _ => follows_build start _) <|
      (follows_accept "\x7b").bind fun _ => .ite (h.braces start) (follows_refuse .anything)

theorem atom : Follows less (atom item) (atom item') := by
  refine follows_position.bind fun start => .of_cases (fun s => .refused trivial trivial)
    (fun token rest s hkind => ?_) fun token rest s hshort hkind => ?_
  · obtain ⟨kind, text, first, last⟩ := token
    subst hkind
    exact .numeral start rfl
  · rw [bind_of_ok (peek_apply _), bind_of_ok (peek_apply _)]
    obtain ⟨kind, text, first, last⟩ := token
    cases kind with
    | number => exact absurd rfl hkind
    | string => exact .read (.cons hshort)
    | name =>
      dsimp only [List.head?_cons]
      cases constant? text with
      | some value => exact .read (.cons hshort)
      | none =>
        cases Token.keywords.contains text with
        | true => exact .refused trivial trivial
        | false => exact .read (.cons hshort)
    | operator =>
      have hcursor := h.bracketed start ⟨⟨.operator, text, first, last⟩ :: rest, s⟩
      rw [Cursor.shortened_cons hshort] at hcursor
      exact hcursor

end Follows

/-- Every rule in the one room follows the rule in the other room. -/
structure RulesFollow (less : Prop) (n m : Nat) : Prop where
  expression : Follows less (expression n) (expression m)
  disjunction : Follows less (disjunction n) (disjunction m)
  conjunction : Follows less (conjunction n) (conjunction m)
  negation : Follows less (negation n) (negation m)
  comparison : Follows less (comparison n) (comparison m)
  sum : Follows less (sum n) (sum m)
  product : Follows less (product n) (product m)
  factor : Follows less (factor n) (factor m)
  power : Follows less (power n) (power m)
  primary : Follows less (primary n) (primary m)

theorem rules_follow {n m : Nat} (h : n ≤ m) (hless : n < m → less) : RulesFollow less n m := by
  -- On the smaller room: a rule is made of rules with one less, and follows as they do.
  induction n generalizing m with
  | zero =>
    obtain rfl | hpos := Nat.eq_zero_or_pos m
    · constructor <;> exact .tooDeep (.inr rfl)
    · constructor <;> exact .tooDeep (.inl (hless hpos))
  | succ n ih =>
    obtain ⟨k, rfl⟩ : ∃ k, m = k + 1 := ⟨m - 1, by omega⟩
    have hrules := ih (Nat.le_of_succ_le_succ h) fun hlt => hless (Nat.succ_lt_succ hlt)
    constructor
    case expression => exact hrules.disjunction
    case disjunction => exact hrules.conjunction.chain (follows_word _ _) _
    case conjunction => exact hrules.negation.chain (follows_word _ _) _
    case negation =>
      exact follows_position.bind fun start => (follows_accept "not").bind fun _ =>
        .ite (hrules.negation.bind fun _ => follows_build start _) hrules.comparison
    case comparison =>
      refine follows_position.bind fun start => hrules.sum.bind fun left => .get_bind fun c => ?_
      rw [c.length_shortened]
      exact (hrules.sum.comparisons _ _).bind fun rest => .ite (.pure left) (follows_build start _)
    case sum => exact hrules.product.chain (follows_acceptOperator _) _
    case product => exact hrules.factor.chain (follows_acceptOperator _) _
    case factor =>
      refine follows_position.bind fun start => (follows_acceptOperator _).bind fun op => ?_
      cases op with
      | some op => exact hrules.factor.bind fun _ => follows_build start _
      | none => exact hrules.power
    case power =>
      exact follows_position.bind fun start => hrules.primary.bind fun base =>
        (follows_accept "**").bind fun _ =>
          .ite (hrules.factor.bind fun _ => follows_build start _) (.pure base)
    case primary =>
      refine follows_position.bind fun start => hrules.expression.atom.bind fun target =>
        .get_bind fun c => ?_
      rw [c.length_shortened]
      exact hrules.expression.suffixes _ _ _

end Parse

/-! ## Shorter phrases -/

namespace Phrase

/-- The phrase with its integers shortened. -/
def shortened : {s : Symbol} → Phrase s → Phrase s
  | _, .single e => .single e.shortened
  | _, .commas e rest => .commas e.shortened rest.shortened
  | _, .chain first rest => .chain first.shortened rest.shortened
  | _, .tailEnd => .tailEnd
  | _, .tailMore op h e rest => .tailMore op h e.shortened rest.shortened
  | _, .not e => .not e.shortened
  | _, .compared e => .compared e.shortened
  | _, .comparison first rest => .comparison first.shortened rest.shortened
  | _, .comparisonsEnd => .comparisonsEnd
  | _, .comparisonsMore op e rest => .comparisonsMore op e.shortened rest.shortened
  | _, .signed op h e => .signed op h e.shortened
  | _, .unsigned e => .unsigned e.shortened
  | _, .base e => .base e.shortened
  | _, .power e exponent => .power e.shortened exponent.shortened
  | _, .primary e rest => .primary e.shortened rest.shortened
  | _, .suffixesEnd => .suffixesEnd
  | _, .call args rest => .call args.shortened rest.shortened
  | _, .attr label h rest => .attr label h rest.shortened
  | _, .subscript i rest => .subscript i.shortened rest.shortened
  | _, .argumentsEnd => .argumentsEnd
  | _, .positional e => .positional e.shortened
  | _, .positionalMore e rest => .positionalMore e.shortened rest.shortened
  | _, .keyword label e => .keyword label e.shortened
  | _, .keywordMore label e rest => .keywordMore label e.shortened rest.shortened
  | _, .index e => .index e.shortened
  | _, .slice lower rest => .slice lower.shortened rest.shortened
  | _, .bound e => .bound e.shortened
  | _, .boundMore e rest => .boundMore e.shortened rest.shortened
  | _, .absent => .absent
  | _, .present e => .present e.shortened
  | _, .itemsEnd => .itemsEnd
  | _, .item e => .item e.shortened
  | _, .itemMore e rest => .itemMore e.shortened rest.shortened
  | _, .entriesEnd => .entriesEnd
  | _, .entry key value => .entry key.shortened value.shortened
  | _, .entryMore key value rest => .entryMore key.shortened value.shortened rest.shortened
  | _, .number text => .number (Word.shortened ⟨.number, text⟩).text
  | _, .string text => .string text
  | _, .constant text value h => .constant text value h
  | _, .name text h => .name text h
  | _, .unit => .unit
  | _, .group e => .group e.shortened
  | _, .tuple e rest => .tuple e.shortened rest.shortened
  | _, .list rest => .list rest.shortened
  | _, .dict rest => .dict rest.shortened
  | _, .singleton e => .singleton e.shortened
  | _, .set e rest => .set e.shortened rest.shortened

theorem words_shortened {s : Symbol} (p : Phrase s) : p.shortened.words = p.words.map Word.shortened := by
  have hname : ∀ text, Word.shortened ⟨.name, text⟩ = ⟨.name, text⟩ :=
    fun text => Word.shortened_of_kind fun h => by cases h
  have hstring : ∀ text, Word.shortened ⟨.string, text⟩ = ⟨.string, text⟩ :=
    fun text => Word.shortened_of_kind fun h => by cases h
  have hnumber : ∀ text, (⟨.number, (Word.shortened ⟨.number, text⟩).text⟩ : Word) =
      Word.shortened ⟨.number, text⟩ :=
    fun text => congrArg (Word.mk · _) (Word.kind_shortened ⟨.number, text⟩).symm
  have hcompare : ∀ op : CompareOp, op.words.map Word.shortened = op.words := by
    intro op
    cases op <;> simp only [CompareOp.words, List.map_cons, List.map_nil, Word.shortened_of]
  have hjoint : ∀ op : Joint, op.word.shortened = op.word := by
    intro op
    cases op <;> exact Word.shortened_of _
  induction p <;> simp only [shortened, words, List.map_append, List.map_cons, List.map_nil,
    Word.shortened_of, *]

end Phrase

/-- What the grammar derives from words it derives from shorter integers, up to their values. -/
theorem Derives.shortened {ws : List Word} {tree : Expr} (h : Derives ws tree) :
    ∃ p : Phrase (.level .list), p.words = ws.map Word.shortened := by
  obtain ⟨p, rfl, -⟩ := h
  exact ⟨p.shortened, p.words_shortened⟩

namespace Parse

/-- What comes of a whole text where its outcome agrees with that on shorter integers. -/
inductive Outcome (less : Prop) (c : Cursor) : Except ParseFault (Expr × Cursor) → Prop where
  | tooDeep : less → Outcome less c (.error .tooDeep)
  | long {token : Token} : token ∈ c.rest → token.word.isLong = true →
      Outcome less c (.error (.longInteger token.text.length))
  | read {e : Expr} {lastStop : Nat} : (∀ token ∈ c.rest, token.word.isLong = false) →
      Derives c.words e.bare → Outcome less c (.ok (e, ⟨[], lastStop⟩))
  | left {e : Expr} {token : Token} {rest : List Token} {lastStop : Nat} :
      (∀ tree, ¬ Derives c.words tree) → Outcome less c (.ok (e, ⟨token :: rest, lastStop⟩))
  | refused {fault : ParseFault} : fault.IsRefusal → (∀ tree, ¬ Derives c.words tree) →
      Outcome less c (.error fault)

theorem Agrees.outcome {c : Cursor} {outcome other : Except ParseFault (Expr × Cursor)}
    (hagrees : Agrees less c outcome other) (hlist : SettlesList c.shortened.words other) :
    Outcome less c outcome := by
  have hnone : (∀ p : Phrase (.level .list), p.words ≠ c.shortened.words) →
      ∀ tree, ¬ Derives c.words tree := by
    intro hno tree htree
    obtain ⟨p, hp⟩ := htree.shortened
    exact hno p (hp.trans c.words_shortened.symm)
  cases hagrees with
  | tooDeep hdeep =>
    refine .tooDeep (hdeep.resolve_right fun hother => ?_)
    rw [hother] at hlist
    exact hlist.1
  | long htoken hlong => exact .long htoken hlong
  | refused hfault _ => exact .refused hfault (hnone hlist.2)
  | @read e c' hleaves =>
    obtain ⟨rest, lastStop⟩ := c'
    cases rest with
    | nil =>
      obtain ⟨front, hfront, hshort⟩ := hleaves
      rw [List.append_nil] at hfront
      have hsame : c.shortened = c := Cursor.shortened_of_short (hfront ▸ hshort)
      rcases hlist with ⟨-, p, hp, hmeaning⟩ | ⟨hleft, -⟩
      · exact .read (hfront ▸ hshort) ⟨p, hsame ▸ hp, hmeaning⟩
      · exact absurd rfl hleft
    | cons token rest =>
      rcases hlist with ⟨hnil, -⟩ | ⟨-, hno⟩
      · cases hnil
      · exact .left (hnone hno)

end Parse

namespace Expr

/-- A text is too deep for a small room, or it has an integer that is too long, or it is parsed to what the
grammar derives from its words, or the grammar derives nothing from them and that is reported. -/
theorem parseWhole_outcomes {text : Text} {tokens : List Token} (hscan : Token.scan text = .ok tokens)
    (room : Nat) :
    (room < 10 * tokens.length + 10 ∧ parseWhole room text = .error .tooDeep) ∨
    (∃ token ∈ tokens, token.word.isLong = true ∧
      parseWhole room text = .error (.longInteger token.text.length)) ∨
    (∃ e, parseWhole room text = .ok e ∧ (∀ token ∈ tokens, token.word.isLong = false) ∧
      Derives (tokens.map Token.word) e.bare) ∨
    ∃ fault message, parseWhole room text = .error fault ∧ fault.message? = some message ∧
      ∀ tree, ¬ Derives (tokens.map Token.word) tree := by
  have hlexed : Lexed (Cursor.shortened ⟨tokens, 0⟩).words := by
    intro w hw
    rw [Cursor.words_shortened] at hw
    obtain ⟨w, hmem, rfl⟩ := List.mem_map.mp hw
    obtain ⟨token, htoken, rfl⟩ := List.mem_map.mp hmem
    have hfits := Token.scanFrom_fits 0 [] text (by simp) hscan token htoken
    exact Word.isLexed_shortened hfits.operator hfits.name
  have hlength : (Cursor.shortened ⟨tokens, 0⟩).words.length = tokens.length :=
    (Cursor.length_words _).trans (Cursor.length_shortened _)
  have hlist := Parse.expressionList_settles ((Parse.rules_read _).expression tokens.length
    (Nat.le_max_right room (10 * tokens.length + 10))) _ hlexed (Nat.le_of_eq hlength)
  have hrules : Parse.RulesFollow (room < 10 * tokens.length + 10) room
      (max room (10 * tokens.length + 10)) :=
    Parse.rules_follow (Nat.le_max_left ..) fun hlt => by omega
  have houtcome := (hrules.expression.expressionList ⟨tokens, 0⟩).outcome hlist
  cases tokens with
  | nil =>
    refine .inr (.inr (.inr ⟨.empty, _, ?_, rfl, fun tree ⟨p, hp, _⟩ => Parse.words_ne_nil p hp⟩))
    rw [parseWhole, hscan]
  | cons token tokens =>
    rw [parseWhole, hscan]
    simp only [StateT.run]
    generalize Parse.expressionList (Parse.expression room) ⟨token :: tokens, 0⟩ = outcome at houtcome ⊢
    cases houtcome with
    | tooDeep hroom => exact .inl ⟨hroom, rfl⟩
    | long htoken hlong => exact .inr (.inl ⟨_, htoken, hlong, rfl⟩)
    | read hshort htree => exact .inr (.inr (.inl ⟨_, rfl, hshort, htree⟩))
    | left hno => exact .inr (.inr (.inr ⟨_, _, rfl, rfl, hno⟩))
    | @refused fault hfault hno =>
      cases fault with
      | unexpected expected found => exact .inr (.inr (.inr ⟨_, _, rfl, rfl, hno⟩))
      | _ => cases hfault

/-- Without room any text with a token is too deep. -/
theorem parseWhole_zero {text : Text} {tokens : List Token} (hscan : Token.scan text = .ok tokens)
    (hne : tokens ≠ []) : parseWhole 0 text = .error .tooDeep := by
  obtain ⟨token, rest, rfl⟩ := List.exists_cons_of_ne_nil hne
  unfold parseWhole
  rw [hscan]
  rfl

end Expr

end Scriptlet
