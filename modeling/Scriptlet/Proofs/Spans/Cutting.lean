import Mathlib.Data.List.TakeWhile
import Scriptlet.Expr
import Scriptlet.Token

/-
  A piece of a text from the start of one token to the stop of another is cut into the tokens in between.

  A token does not depend on what stands before it, and of what follows it only makes it end: without
  that it is the same. So the text may be cut off in front of a token and behind one.

  What is proved:
    1. `Token.lexeme_take` — a token is the same if the text ends behind it.
    2. `Token.scan_iff` — to cut a text into tokens is to take one after the other.
    3. `Token.exists_scan_between` — the tokens of a piece of the text.
-/

namespace Scriptlet

namespace Token

variable {t rest : Text} {c : CodePoint} {m n start : Nat}

/-! ## One token -/

theorem length_takeWhile_take (p : CodePoint → Bool) (t : Text) (m : Nat) :
    ((t.take m).takeWhile p).length = min m (t.takeWhile p).length := by
  rw [← List.take_takeWhile, List.length_take]

/-- The length of a number without its exponent. -/
def mantissaLength (t : Text) : Nat :=
  let whole := (t.takeWhile CodePoint.isDigit).length
  match t.drop whole with
  | [] => whole
  | c :: rest =>
    if c.val == 46 then
      let fraction := (rest.takeWhile CodePoint.isDigit).length
      if whole = 0 && fraction = 0 then 0 else whole + 1 + fraction
    else whole

theorem numberLength_eq (t : Text) : numberLength t =
    if mantissaLength t = 0 then 0
    else mantissaLength t + exponentLength (t.drop (mantissaLength t)) := rfl

theorem mantissaLength_take (h : mantissaLength t ≤ m) :
    mantissaLength (t.take m) = mantissaLength t := by
  unfold mantissaLength at h ⊢
  simp only [length_takeWhile_take] at h ⊢
  cases hdrop : t.drop (t.takeWhile CodePoint.isDigit).length with
  | nil =>
    simp only [hdrop] at h
    rw [Nat.min_eq_right h, List.drop_take, hdrop, List.take_nil]
  | cons d rest =>
    simp only [hdrop, Bool.and_eq_true, decide_eq_true_eq] at h ⊢
    have hwhole : (t.takeWhile CodePoint.isDigit).length ≤ m := by
      split at h
      · split at h <;> omega
      · exact h
    rw [Nat.min_eq_right hwhole, List.drop_take, hdrop]
    cases hleft : m - (t.takeWhile CodePoint.isDigit).length with
    | zero =>
      -- The point would be part of the number, if there were digits with it.
      rw [List.take_zero]
      split at h
      · split at h
        · rename_i hpoint hnone
          rw [if_pos hpoint, if_pos hnone, hnone.1]
        · omega
      · rename_i hpoint
        rw [if_neg hpoint]
    | succ k =>
      rw [List.take_succ_cons]
      split at h
      · rename_i hpoint
        simp only [hpoint, if_true, length_takeWhile_take]
        split at h
        · rename_i hnone
          rw [hnone.2, Nat.min_zero]
        · rw [Nat.min_eq_right (by omega)]
      · rename_i hpoint
        simp only [hpoint, Bool.false_eq_true, if_false]

/-- The length of the sign at the start of a text. -/
def signLength : Text → Nat
  | c :: _ => if c.val == 43 || c.val == 45 then 1 else 0
  | [] => 0

theorem exponentLength_cons (e : CodePoint) (rest : Text) : exponentLength (e :: rest) =
    if e.val == 101 || e.val == 69 then
      let digits := ((rest.drop (signLength rest)).takeWhile CodePoint.isDigit).length
      if digits = 0 then 0 else 1 + signLength rest + digits
    else 0 := by
  cases rest <;> rfl

theorem signLength_take (rest : Text) (m : Nat) : signLength (rest.take (m + 1)) = signLength rest := by
  cases rest <;> rfl

theorem exponentLength_take (h : exponentLength t ≤ m) :
    exponentLength (t.take m) = exponentLength t := by
  match t, m with
  | [], m => rw [List.take_nil]
  | e :: rest, 0 => exact (Nat.le_zero.mp h).symm
  | e :: rest, m + 1 =>
    rw [List.take_succ_cons]
    rw [exponentLength_cons] at h ⊢
    rw [exponentLength_cons]
    split at h
    · rename_i hexponent
      rw [if_pos hexponent, if_pos hexponent]
      cases m with
      | zero =>
        -- An exponent is longer than its first letter.
        dsimp only at h ⊢
        split at h
        · rename_i hnone
          rw [if_pos hnone]
          rfl
        · omega
      | succ k =>
        rw [signLength_take, List.drop_take]
        dsimp only at h ⊢
        rw [length_takeWhile_take]
        split at h
        · rename_i hnone
          rw [hnone, Nat.min_zero]
        · rw [Nat.min_eq_right (by omega)]
    · rename_i hexponent
      rw [if_neg hexponent, if_neg hexponent]

theorem numberLength_take (h : numberLength t ≤ m) : numberLength (t.take m) = numberLength t := by
  rw [numberLength_eq] at h
  split at h
  · rename_i hnone
    rw [numberLength_eq, numberLength_eq, mantissaLength_take (by omega), if_pos hnone, if_pos hnone]
  · rw [numberLength_eq, numberLength_eq, mantissaLength_take (by omega), List.drop_take,
      exponentLength_take (by omega)]

theorem stringTail_take (h : stringTail c rest = some n) (hn : n ≤ m) :
    stringTail c (rest.take m) = some n := by
  unfold stringTail at h ⊢
  dsimp only at h ⊢
  split at h
  · cases h
    rw [length_takeWhile_take, List.length_take, Nat.min_eq_right (by omega), if_pos (by omega)]
  · cases h

theorem operator_take {op : Text} (h : operators.find? (·.isPrefixOf (c :: rest)) = some op)
    (hop : op.length - 1 ≤ m) :
    operators.find? (·.isPrefixOf (c :: rest.take m)) = some op := by
  have hshorter : ∀ op' : Text, op' <+: c :: rest.take m ↔ op' <+: c :: rest ∧ op'.length ≤ m + 1 := by
    intro op'
    rw [← List.take_succ_cons, List.prefix_take_iff]
  obtain ⟨hfound, before, after, hsplit, hbefore⟩ := List.find?_eq_some_iff_append.mp h
  refine List.find?_eq_some_iff_append.mpr ⟨?_, before, after, hsplit, fun op' hmem => ?_⟩
  · rw [List.isPrefixOf_iff_prefix] at hfound ⊢
    exact (hshorter op).mpr ⟨hfound, by omega⟩
  · have hnot := hbefore op' hmem
    rw [Bool.not_eq_true', ← Bool.not_eq_true, List.isPrefixOf_iff_prefix] at hnot ⊢
    exact fun hpre => hnot ((hshorter op').mp hpre).1

/-- A token is the same if the text ends behind it. -/
theorem lexeme_take {kind : Option TokenKind} (h : lexeme c rest = .ok (kind, n)) (hn : n ≤ m) :
    lexeme c (rest.take m) = .ok (kind, n) := by
  unfold lexeme at h ⊢
  -- Blanks, numbers, strings, names and operators are tried in this order.
  split at h
  · rename_i hblank
    cases h
    rw [if_pos hblank, length_takeWhile_take, Nat.min_eq_right hn]
  rename_i hblank
  rw [if_neg hblank]
  have hnumber : numberLength (c :: rest) ≤ m + 1 →
      numberLength (c :: rest.take m) = numberLength (c :: rest) := by
    rw [← List.take_succ_cons]
    exact numberLength_take
  dsimp only at h ⊢
  split at h
  · cases h
    rw [hnumber (by omega), if_pos ‹_›]
  rename_i hnone
  rw [hnumber (by omega), if_neg hnone]
  split at h
  · rename_i hquote
    rw [if_pos hquote]
    cases htail : stringTail c rest with
    | none =>
      rw [htail] at h
      cases h
    | some k =>
      rw [htail] at h
      cases h
      rw [stringTail_take htail hn]
  rename_i hquote
  rw [if_neg hquote]
  split at h
  · rename_i hname
    cases h
    rw [if_pos hname, length_takeWhile_take, Nat.min_eq_right hn]
  rename_i hname
  rw [if_neg hname]
  cases hop : operators.find? (·.isPrefixOf (c :: rest)) with
  | none =>
    rw [hop] at h
    cases h
  | some op =>
    rw [hop] at h
    cases h
    rw [operator_take hop hn]

/-! ## One token after the other -/

/-- The text, which stands at the offset `start`, is cut into the tokens one after the other. -/
inductive Lexes : Nat → Text → List Token → Prop
  | nil (start : Nat) : Lexes start [] []
  | blank {start n : Nat} {c : CodePoint} {rest : Text} {tokens : List Token} :
      lexeme c rest = .ok (none, n) → Lexes (start + n + 1) (rest.drop n) tokens →
      Lexes start (c :: rest) tokens
  | token {start n : Nat} {c : CodePoint} {rest : Text} {kind : TokenKind} {tokens : List Token} :
      lexeme c rest = .ok (some kind, n) → Lexes (start + n + 1) (rest.drop n) tokens →
      Lexes start (c :: rest) (⟨kind, c :: rest.take n, start, start + n + 1⟩ :: tokens)

theorem Lexes.scanFrom {tokens : List Token} (h : Lexes start t tokens) (done : List Token) :
    scanFrom start done t = .ok (done.reverse ++ tokens) := by
  induction h generalizing done with
  | nil start => rw [scanFrom.eq_def, List.append_nil]
  | blank hlexeme _ ih =>
    rw [scanFrom.eq_def]
    simp only [hlexeme]
    exact ih done
  | token hlexeme _ ih =>
    rw [scanFrom.eq_def]
    simp only [hlexeme]
    rw [ih, List.reverse_cons, List.append_assoc]
    rfl

theorem exists_lexes {done all : List Token} (h : scanFrom start done t = .ok all) :
    ∃ tokens, all = done.reverse ++ tokens ∧ Lexes start t tokens := by
  induction start, done, t using scanFrom.induct with
  | case1 start done =>
    unfold scanFrom at h
    cases h
    exact ⟨[], (List.append_nil _).symm, .nil start⟩
  | case2 start done c rest fault hlexeme =>
    unfold scanFrom at h
    simp only [hlexeme] at h
    cases h
  | case3 start done c rest kind n hlexeme stop done' ih =>
    unfold scanFrom at h
    simp only [hlexeme] at h
    obtain ⟨tokens, rfl, hlexes⟩ := ih h
    cases kind with
    | none => exact ⟨tokens, rfl, .blank hlexeme hlexes⟩
    | some kind =>
      exact ⟨_, by rw [List.reverse_cons, List.append_assoc]; rfl, .token hlexeme hlexes⟩

/-- The token in a text with so many code points before it. -/
def moved (offset : Nat) (token : Token) : Token :=
  ⟨token.kind, token.text, token.start + offset, token.stop + offset⟩

theorem scan_iff {tokens : List Token} : scan t = .ok tokens ↔ Lexes 0 t tokens := by
  constructor
  · intro h
    obtain ⟨found, rfl, hlexes⟩ := exists_lexes h
    exact hlexes
  · exact fun h => h.scanFrom []

namespace Lexes

variable {tokens : List Token} {token : Token} {i : Nat}

theorem start_le (h : Lexes start t tokens) : ∀ token ∈ tokens, start ≤ token.start ∧
    token.start < token.stop := by
  induction h with
  | nil start => exact List.forall_mem_nil _
  | blank _ _ ih => exact fun token htoken => ⟨by have := (ih token htoken).1; omega, (ih token htoken).2⟩
  | token _ _ ih =>
    refine List.forall_mem_cons.mpr ⟨⟨Nat.le_refl _, by dsimp only; omega⟩, fun token htoken => ?_⟩
    exact ⟨by have := (ih token htoken).1; omega, (ih token htoken).2⟩

/-- There are no more tokens than code points. -/
theorem length_le (h : Lexes start t tokens) : tokens.length ≤ t.length := by
  induction h with
  | nil start => exact Nat.le_refl _
  | blank _ _ ih =>
    rw [List.length_drop] at ih
    rw [List.length_cons]
    omega
  | token _ _ ih =>
    rw [List.length_drop] at ih
    rw [List.length_cons, List.length_cons]
    omega

theorem drop_drop {s : Nat} (hs : start + n + 1 ≤ s) (c : CodePoint) (rest : Text) :
    (rest.drop n).drop (s - (start + n + 1)) = (c :: rest).drop (s - start) := by
  obtain ⟨k, rfl⟩ := Nat.exists_eq_add_of_le hs
  rw [List.drop_drop, Nat.add_sub_cancel_left,
    show start + n + 1 + k - start = n + k + 1 by omega, List.drop_succ_cons]

theorem drop_take {s : Nat} (hs : start + n + 1 ≤ s) (rest : Text) :
    (rest.drop n).take (s - (start + n + 1)) = (rest.take (s - start - 1)).drop n := by
  rw [List.drop_take, show s - start - 1 - n = s - (start + n + 1) by omega]

/-- The text from a token on is cut into the tokens from there on. -/
theorem drop (h : Lexes start t tokens) (htoken : tokens[i]? = some token) :
    Lexes token.start (t.drop (token.start - start)) (tokens.drop i) := by
  induction h generalizing i with
  | nil start => cases htoken
  | blank hlexeme hrest ih =>
    have hstart := (hrest.start_le token (List.mem_of_getElem? htoken)).1
    rw [← drop_drop hstart]
    exact ih htoken
  | token hlexeme hrest ih =>
    cases i with
    | zero =>
      cases htoken
      rw [Nat.sub_self]
      exact .token hlexeme hrest
    | succ i =>
      have hstart := (hrest.start_le token (List.mem_of_getElem? htoken)).1
      rw [← drop_drop hstart]
      exact ih htoken

/-- The text up to a token is cut into the tokens up to there. -/
theorem take (h : Lexes start t tokens) (htoken : tokens[i]? = some token) :
    Lexes start (t.take (token.stop - start)) (tokens.take (i + 1)) := by
  induction h generalizing i with
  | nil start => cases htoken
  | @blank start n c rest tokens hlexeme hrest ih =>
    obtain ⟨hstart, hstop⟩ := hrest.start_le token (List.mem_of_getElem? htoken)
    have hshort := ih htoken
    rw [drop_take (by omega)] at hshort
    obtain ⟨k, hk⟩ : ∃ k, token.stop - start = k + 1 := ⟨token.stop - start - 1, by omega⟩
    rw [hk, List.take_succ_cons]
    rw [hk, Nat.add_sub_cancel] at hshort
    exact .blank (lexeme_take hlexeme (by omega)) hshort
  | @token start n c rest kind tokens hlexeme hrest ih =>
    cases i with
    | zero =>
      -- The text ends behind its first token.
      cases htoken
      dsimp only
      have hshort : Lexes (start + n + 1) ((rest.take n).drop n) [] := by
        rw [List.drop_eq_nil_of_le (List.length_take_le ..)]
        exact .nil _
      rw [show start + n + 1 - start = n + 1 by omega, List.take_succ_cons]
      have hfirst := Lexes.token (lexeme_take hlexeme (Nat.le_refl n)) hshort
      rw [List.take_take, Nat.min_self] at hfirst
      exact hfirst
    | succ i =>
      obtain ⟨hstart, hstop⟩ := hrest.start_le token (List.mem_of_getElem? htoken)
      have hshort := ih htoken
      rw [drop_take (by omega)] at hshort
      obtain ⟨k, hk⟩ : ∃ k, token.stop - start = k + 1 := ⟨token.stop - start - 1, by omega⟩
      rw [hk, List.take_succ_cons]
      rw [hk, Nat.add_sub_cancel] at hshort
      have hfirst := Lexes.token (lexeme_take hlexeme (by omega : n ≤ k)) hshort
      rw [List.take_take, Nat.min_eq_left (by omega)] at hfirst
      exact hfirst

/-- A text is cut into the same tokens wherever it stands. -/
theorem exists_moved {offset : Nat} (h : Lexes (start + offset) t tokens) :
    ∃ found, Lexes start t found ∧ found.map (moved offset) = tokens := by
  generalize hwhere : start + offset = place at h
  induction h generalizing start with
  | nil place => exact ⟨[], .nil start, rfl⟩
  | @blank place n c rest tokens hlexeme hrest ih =>
    obtain ⟨found, hfound, rfl⟩ := @ih (start + n + 1) (by omega)
    exact ⟨found, .blank hlexeme hfound, rfl⟩
  | @token place n c rest kind tokens hlexeme hrest ih =>
    obtain ⟨found, hfound, rfl⟩ := @ih (start + n + 1) (by omega)
    refine ⟨_, .token hlexeme hfound, ?_⟩
    rw [List.map_cons, moved, ← hwhere, show start + n + 1 + offset = start + offset + n + 1 by omega]

end Lexes

/-- From the start of a token to the stop of another the text is cut into the tokens in between. -/
theorem exists_scan_between {tokens : List Token} {first last : Token} {i k : Nat}
    (hscan : scan t = .ok tokens) (hfirst : tokens[i]? = some first)
    (hlast : tokens[i + k]? = some last) :
    ∃ found, scan (Span.of ⟨first.start, last.stop⟩ t) = .ok found ∧
      found.map (moved first.start) = (tokens.drop i).take (k + 1) := by
  have hbehind := (scan_iff.mp hscan).drop hfirst
  have hbetween := hbehind.take (i := k) (by rw [List.getElem?_drop]; exact hlast)
  have hwhere : Lexes (0 + first.start) (Span.of ⟨first.start, last.stop⟩ t)
      ((tokens.drop i).take (k + 1)) := by
    rw [Nat.zero_add]
    exact hbetween
  obtain ⟨found, hfound, hmoved⟩ := hwhere.exists_moved
  exact ⟨found, scan_iff.mpr hfound, hmoved⟩

end Token

end Scriptlet
