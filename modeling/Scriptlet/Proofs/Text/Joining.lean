import Scriptlet.Proofs.ReadBack.Scanning
import Scriptlet.Proofs.Spans.Cutting

/-
  A text is cut into the same tokens where more text follows.

  A blank and a closing parenthesis go on with no token: the token before them ends there. So a text that
  is cut into tokens by itself is cut into the same ones in front of them.

  What is proved:
    1. `Token.lexeme_append` — a token is the same if the text goes on in such a way.
    2. `Token.cuts_of_scan` — so are all tokens of a text.
-/

namespace Scriptlet

/-- A text with blanks at its ends. -/
theorem Text.exists_blanks (t : Text) : ∃ lead trail : Text, (∀ c ∈ lead, c.isBlank = true) ∧
    (∀ c ∈ trail, c.isBlank = true) ∧ t = lead ++ t.trim ++ trail := by
  refine ⟨t.takeWhile CodePoint.isBlank, (t.trimLeft.reverse.takeWhile CodePoint.isBlank).reverse,
    fun c hc => List.mem_takeWhile_imp hc, fun c hc => List.mem_takeWhile_imp (List.mem_reverse.mp hc), ?_⟩
  have hright : t.trimLeft = t.trim ++ (t.trimLeft.reverse.takeWhile CodePoint.isBlank).reverse := by
    rw [trim, trimRight, ← List.reverse_append, List.takeWhile_append_dropWhile, List.reverse_reverse]
  rw [List.append_assoc, ← hright]
  exact (List.takeWhile_append_dropWhile).symm

namespace Token

variable {t rest : Text} {c : CodePoint} {n start : Nat}

/-- Nothing follows, or a blank or a closing parenthesis. -/
def Severs (rest : Text) : Prop := ∀ c ∈ rest.head?, c.isBlank = true ∨ c = CodePoint.ofChar ')'

/-- What severs goes on with no word, no number, no exponent and no operator. -/
structure Severs.Ends (c : CodePoint) : Prop where
  word : c.isWord = false
  digit : c.isDigit = false
  point : c.val ≠ 46
  exponent : c.val ≠ 101 ∧ c.val ≠ 69
  sign : c.val ≠ 43 ∧ c.val ≠ 45
  operator : c.val ≠ 61 ∧ c.val ≠ 42 ∧ c.val ≠ 47

theorem isDigit_eq_false_of_isBlank (h : c.isBlank = true) : c.isDigit = false := by
  have hall : ∀ n ∈ Text.blankCodes, ∀ h : n < 0x110000, (⟨n, h⟩ : CodePoint).isDigit = false := by
    decide +kernel
  exact hall c.val (Text.mem_blankCodes h) c.lt

theorem Severs.ends (h : Severs rest) : ∀ c ∈ rest.head?, Severs.Ends c := by
  intro c hc
  rcases h c hc with hblank | rfl
  · have hcodes : ∀ n ∈ Text.blankCodes, n ≠ 46 ∧ (n ≠ 101 ∧ n ≠ 69) ∧ (n ≠ 43 ∧ n ≠ 45) ∧
        n ≠ 61 ∧ n ≠ 42 ∧ n ≠ 47 := by
      decide
    obtain ⟨hpoint, hexponent, hsign, hoperator⟩ := hcodes _ (Text.mem_blankCodes hblank)
    exact ⟨Text.isWord_eq_false_of_isBlank hblank, isDigit_eq_false_of_isBlank hblank, hpoint, hexponent,
      hsign, hoperator⟩
  · constructor <;> decide

/-- Blanks end what is in front of them. -/
theorem Ends.blanks_append {pad : Text} (hpad : ∀ c ∈ pad, c.isBlank = true) (h : Ends rest) :
    Ends (pad ++ rest) := by
  intro c hc
  cases pad with
  | nil => exact h c hc
  | cons d pad =>
    cases hc
    have hd := hpad c List.mem_cons_self
    have hcodes : ∀ n ∈ Text.blankCodes, n ≠ 46 := by decide
    exact ⟨Text.isWord_eq_false_of_isBlank hd, isDigit_eq_false_of_isBlank hd,
      hcodes _ (Text.mem_blankCodes hd)⟩

/-- Where what follows does not begin with the property, it does not make a run of it longer. -/
theorem takeWhile_append_head {p : CodePoint → Bool} (t : Text) (h : ∀ c ∈ rest.head?, p c = false) :
    (t ++ rest).takeWhile p = t.takeWhile p := by
  induction t with
  | nil =>
    cases rest with
    | nil => rfl
    | cons d rest => simp [h d rfl]
  | cons c t ih => simp only [List.cons_append, List.takeWhile_cons, ih]

theorem length_takeWhile_le (p : CodePoint → Bool) (t : Text) : (t.takeWhile p).length ≤ t.length :=
  (List.takeWhile_prefix p).length_le

/-! ## One token -/

theorem mantissaLength_append (h : Severs rest) (t : Text) :
    mantissaLength (t ++ rest) = mantissaLength t := by
  have hdigit : ∀ c ∈ rest.head?, c.isDigit = false := fun c hc => (h.ends c hc).digit
  have hwhole := length_takeWhile_le CodePoint.isDigit t
  unfold mantissaLength
  dsimp only
  rw [takeWhile_append_head t hdigit, List.drop_append_of_le_length hwhole]
  cases t.drop (t.takeWhile CodePoint.isDigit).length with
  | cons c more => simp only [List.cons_append, takeWhile_append_head more hdigit]
  | nil =>
    cases rest with
    | nil => rfl
    | cons d rest => simp [(h.ends d rfl).point]

theorem signLength_le (t : Text) : signLength t ≤ t.length := by
  cases t with
  | nil => exact Nat.le_refl 0
  | cons c t =>
    rw [signLength, List.length_cons]
    split <;> omega

theorem exponentLength_append (h : Severs rest) (t : Text) :
    exponentLength (t ++ rest) = exponentLength t := by
  have hdigit : ∀ c ∈ rest.head?, c.isDigit = false := fun c hc => (h.ends c hc).digit
  cases t with
  | nil =>
    cases rest with
    | nil => rfl
    | cons d rest => simp [exponentLength, (h.ends d rfl).exponent]
  | cons e t =>
    have hsign : signLength (t ++ rest) = signLength t := by
      cases t with
      | cons c t => rfl
      | nil =>
        cases rest with
        | nil => rfl
        | cons d rest => simp [signLength, (h.ends d rfl).sign]
    rw [List.cons_append, exponentLength_cons, exponentLength_cons, hsign,
      List.drop_append_of_le_length (signLength_le t), takeWhile_append_head _ hdigit]

theorem mantissaLength_le (t : Text) : mantissaLength t ≤ t.length := by
  have hwhole := length_takeWhile_le CodePoint.isDigit t
  unfold mantissaLength
  dsimp only
  cases hdrop : t.drop (t.takeWhile CodePoint.isDigit).length with
  | nil => exact hwhole
  | cons c more =>
    have hlength := congrArg List.length hdrop
    rw [List.length_drop, List.length_cons] at hlength
    have hfraction := length_takeWhile_le CodePoint.isDigit more
    dsimp only
    split
    · split <;> omega
    · exact hwhole

theorem exponentLength_le (t : Text) : exponentLength t ≤ t.length := by
  cases t with
  | nil => exact Nat.le_refl 0
  | cons e t =>
    have hdigits := length_takeWhile_le CodePoint.isDigit (t.drop (signLength t))
    rw [List.length_drop] at hdigits
    have hsign := signLength_le t
    rw [exponentLength_cons, List.length_cons]
    dsimp only
    split
    · split <;> omega
    · omega

theorem numberLength_le (t : Text) : numberLength t ≤ t.length := by
  have hmantissa := mantissaLength_le t
  have hexponent := exponentLength_le (t.drop (mantissaLength t))
  rw [List.length_drop] at hexponent
  rw [numberLength_eq]
  split <;> omega

theorem numberLength_append (h : Severs rest) (t : Text) :
    numberLength (t ++ rest) = numberLength t := by
  rw [numberLength_eq, numberLength_eq, mantissaLength_append h,
    List.drop_append_of_le_length (mantissaLength_le t), exponentLength_append h]

/-- A string that ends does not look behind its end. -/
theorem stringTail_append {quote : CodePoint} (h : stringTail quote t = some n) (rest : Text) :
    stringTail quote (t ++ rest) = some n := by
  unfold stringTail at h ⊢
  dsimp only at h ⊢
  split at h
  · rename_i hends
    cases h
    have hinside : (t ++ rest).takeWhile (· != quote) = t.takeWhile (· != quote) := by
      rw [List.takeWhile_append, if_neg (by omega)]
    rw [hinside, List.length_append, if_pos (by omega)]
  · cases h

/-- Blanks end no string. -/
theorem stringTail_blanks_append {quote : CodePoint} (h : stringTail quote t = none)
    (hquote : quote.isBlank = false) {trail : Text} (htrail : ∀ c ∈ trail, c.isBlank = true) :
    stringTail quote (t ++ trail) = none := by
  have hne : ∀ c ∈ trail, (c != quote) = true := by
    intro c hc
    refine bne_iff_ne.mpr fun heq => ?_
    rw [← heq, htrail c hc] at hquote
    cases hquote
  unfold stringTail at h ⊢
  dsimp only at h ⊢
  split at h
  · cases h
  · rename_i hopen
    have hwhole : t.takeWhile (· != quote) = t :=
      (List.takeWhile_prefix _).eq_of_length_le (Nat.le_of_not_lt hopen)
    have hall : (t ++ trail).takeWhile (· != quote) = t ++ trail := by
      rw [List.takeWhile_append, if_pos (congrArg List.length hwhole), List.takeWhile_eq_self_iff.mpr hne]
    rw [hall, if_neg (Nat.lt_irrefl _)]

/-- Behind its first code point an operator goes on with nothing but a few signs. -/
theorem tail_of_operator : ∀ op ∈ operators, ∀ c ∈ op.tail, c.val = 61 ∨ c.val = 42 ∨ c.val = 47 := by
  decide

theorem isPrefixOf_append (h : Severs rest) {op : Text} (hop : op ∈ operators) (c : CodePoint) (t : Text) :
    op.isPrefixOf (c :: t ++ rest) = op.isPrefixOf (c :: t) := by
  have hiff : op <+: c :: t ++ rest ↔ op <+: c :: t := by
    constructor
    · intro hpre
      rcases List.prefix_or_prefix_of_prefix hpre (List.prefix_append (c :: t) rest) with hin | hover
      · exact hin
      -- An operator that reached into what follows would hold its first code point.
      · obtain ⟨more, rfl⟩ := hover
        have hmore := (List.prefix_append_right_inj (c :: t)).mp hpre
        cases more with
        | nil => simp
        | cons d more =>
          obtain ⟨behind, rfl⟩ := hmore
          have hsign := tail_of_operator _ hop d (by simp)
          have hends := (h.ends d rfl).operator
          omega
    · exact fun hpre => hpre.trans (List.prefix_append (c :: t) rest)
  rw [Bool.eq_iff_iff, List.isPrefixOf_iff_prefix, List.isPrefixOf_iff_prefix, hiff]

theorem find?_append (hrest : Severs rest) (c : CodePoint) (t : Text) :
    operators.find? (·.isPrefixOf (c :: t ++ rest)) = operators.find? (·.isPrefixOf (c :: t)) := by
  rw [← List.head?_filter, ← List.head?_filter,
    List.filter_congr fun op hop => isPrefixOf_append hrest hop c t]

/-- A token is the same if the text goes on with what goes on with no token. -/
theorem lexeme_append {kind : TokenKind} (h : lexeme c t = .ok (some kind, n)) (hrest : Severs rest) :
    lexeme c (t ++ rest) = .ok (some kind, n) := by
  unfold lexeme at h ⊢
  -- Blanks, numbers, strings, names and operators are tried in this order.
  split at h
  · cases h
  rename_i hblank
  rw [if_neg hblank]
  dsimp only at h ⊢
  rw [show c :: (t ++ rest) = (c :: t) ++ rest from rfl, numberLength_append hrest]
  split at h
  · rename_i hnumber
    rw [if_pos hnumber]
    exact h
  rename_i hnumber
  rw [if_neg hnumber]
  split at h
  · rename_i hquote
    rw [if_pos hquote]
    cases htail : stringTail c t with
    | none =>
      rw [htail] at h
      cases h
    | some k =>
      rw [htail] at h
      rw [stringTail_append htail]
      exact h
  rename_i hquote
  rw [if_neg hquote]
  split at h
  · rename_i hname
    rw [if_pos hname, takeWhile_append_head t fun d hd => (hrest.ends d hd).word]
    exact h
  rename_i hname
  rw [if_neg hname]
  rw [find?_append hrest]
  exact h

/-- What is no token is none in front of blanks. -/
theorem lexeme_blanks_append {fault : ScanFault} (h : lexeme c t = .error fault) {trail : Text}
    (htrail : ∀ d ∈ trail, d.isBlank = true) : lexeme c (t ++ trail) = .error fault := by
  have hrest : Severs trail := fun d hd => .inl (htrail d (List.mem_of_mem_head? hd))
  unfold lexeme at h ⊢
  split at h
  · cases h
  rename_i hblank
  rw [if_neg hblank]
  dsimp only at h ⊢
  rw [show c :: (t ++ trail) = (c :: t) ++ trail from rfl, numberLength_append hrest]
  split at h
  · cases h
  rename_i hnumber
  rw [if_neg hnumber]
  split at h
  · rename_i hquote
    rw [if_pos hquote]
    cases htail : stringTail c t with
    | some k =>
      rw [htail] at h
      cases h
    | none =>
      rw [htail] at h
      rw [stringTail_blanks_append htail (Bool.eq_false_iff.mpr hblank) htrail]
      exact h
  rename_i hquote
  rw [if_neg hquote]
  split at h
  · cases h
  rename_i hname
  rw [if_neg hname, find?_append hrest]
  exact h

/-- A token is no longer than the text. -/
theorem le_of_lexeme {kind : Option TokenKind} (h : lexeme c t = .ok (kind, n)) : n ≤ t.length := by
  unfold lexeme at h
  split at h
  · cases h
    exact length_takeWhile_le ..
  dsimp only at h
  split at h
  · cases h
    have hnumber := numberLength_le (c :: t)
    rw [List.length_cons] at hnumber
    omega
  split at h
  · cases htail : stringTail c t with
    | none =>
      rw [htail] at h
      cases h
    | some k =>
      rw [htail] at h
      cases h
      unfold stringTail at htail
      dsimp only at htail
      split at htail
      · cases htail
        assumption
      · cases htail
  split at h
  · cases h
    exact length_takeWhile_le ..
  · cases hop : operators.find? (·.isPrefixOf (c :: t)) with
    | none =>
      rw [hop] at h
      cases h
    | some op =>
      rw [hop] at h
      cases h
      have hfound : op.isPrefixOf (c :: t) = true :=
        List.find?_some (p := fun op : Text => op.isPrefixOf (c :: t)) hop
      have hpre := (List.isPrefixOf_iff_prefix.mp hfound).length_le
      rw [List.length_cons] at hpre
      omega

/-- What is no token is a run of blanks. -/
theorem blank_of_lexeme (h : lexeme c t = .ok (none, n)) : ∀ d ∈ c :: t.take n, d.isBlank = true := by
  unfold lexeme at h
  split at h
  · rename_i hc
    cases h
    have hrun : t.take (t.takeWhile CodePoint.isBlank).length = t.takeWhile CodePoint.isBlank :=
      (List.prefix_iff_eq_take.mp (List.takeWhile_prefix _)).symm
    rw [hrun]
    exact List.forall_mem_cons.mpr ⟨hc, fun d hd => List.mem_takeWhile_imp hd⟩
  dsimp only at h
  split at h
  · cases h
  split at h
  · split at h <;> cases h
  split at h
  · cases h
  · split at h <;> cases h

/-! ## A whole text -/

theorem scanFrom_nil (start : Nat) (done : List Token) : scanFrom start done [] = .ok done.reverse := by
  rw [scanFrom.eq_def]

theorem scan_eq_ok {tokens : List Token} (h : (scan t).toOption = some tokens) : scan t = .ok tokens := by
  cases hscan : scan t with
  | error fault =>
    rw [hscan] at h
    cases h
  | ok found =>
    rw [hscan] at h
    exact congrArg Except.ok (Option.some.inj h)

theorem scan_nil : scan [] = .ok [] := scanFrom_nil 0 []

theorem ne_nil_of_scan {tokens : List Token} (h : scan t = .ok tokens) (hne : tokens ≠ []) : t ≠ [] := by
  rintro rfl
  rw [scan_nil] at h
  exact hne (Except.ok.inj h).symm

/-- Blanks are passed over one by one or all together. -/
theorem scanFrom_blanks {pad : Text} (hpad : ∀ c ∈ pad, c.isBlank = true) (start : Nat)
    (done : List Token) (t : Text) :
    scanFrom start done (pad ++ t) = scanFrom (start + pad.length) done t := by
  have hone : ∀ (c : CodePoint) (start : Nat) (t : Text), c.isBlank = true →
      scanFrom start done (c :: t) = scanFrom (start + 1) done t := by
    intro c start t hc
    rw [scanFrom.eq_def]
    simp only [lexeme, if_pos hc]
    cases t with
    | nil => rfl
    | cons d t =>
      by_cases hd : d.isBlank = true
      · rw [List.takeWhile_cons, if_pos hd]
        conv_rhs => rw [scanFrom.eq_def]
        simp only [lexeme, if_pos hd, List.length_cons, List.drop_succ_cons]
        congr 1
        omega
      · rw [List.takeWhile_cons, if_neg hd]
        rfl
  induction pad generalizing start with
  | nil => rfl
  | cons c pad ih =>
    obtain ⟨hc, hpad⟩ := List.forall_mem_cons.mp hpad
    rw [List.cons_append, hone c start _ hc, ih hpad, List.length_cons]
    congr 1
    omega

/-- A text that cannot be cut into tokens cannot with blanks behind it. -/
theorem scanFrom_blanks_append {done : List Token} {fault : ScanFault} {trail : Text}
    (h : scanFrom start done t = .error fault) (htrail : ∀ c ∈ trail, c.isBlank = true) :
    scanFrom start done (t ++ trail) = .error fault := by
  have hrest : Severs trail := fun c hc => .inl (htrail c (List.mem_of_mem_head? hc))
  induction start, done, t using scanFrom.induct with
  | case1 start done =>
    unfold scanFrom at h
    cases h
  | case2 start done c t found hlexeme =>
    unfold scanFrom at h ⊢
    simp only [List.cons_append, hlexeme, lexeme_blanks_append hlexeme htrail] at h ⊢
    exact h
  | case3 start done c t kind n hlexeme stop done' ih =>
    have hn := le_of_lexeme hlexeme
    unfold scanFrom at h
    simp only [hlexeme] at h
    have hmore := ih h
    cases kind with
    | some kind =>
      unfold scanFrom
      simp only [List.cons_append, lexeme_append hlexeme hrest, List.take_append_of_le_length hn,
        List.drop_append_of_le_length hn]
      exact hmore
    | none =>
      have hpad := scanFrom_blanks (blank_of_lexeme hlexeme) start done (t.drop n ++ trail)
      rw [List.cons_append, ← List.append_assoc, List.take_append_drop, List.length_cons,
        List.length_take_of_le hn] at hpad
      rw [List.cons_append, hpad, ← Nat.add_assoc]
      exact hmore

/-- Blanks are no words. -/
theorem Cuts.blanks {pad : Text} (hpad : ∀ c ∈ pad, c.isBlank = true) : Cuts pad rest [] :=
  fun start done => ⟨[], rfl, scanFrom_blanks hpad start done rest⟩

/-- A text that is cut into words with nothing behind it is cut into tokens with these words. -/
theorem Cuts.exists_scan {ws : List Word} (h : Cuts t [] ws) :
    ∃ tokens, scan t = .ok tokens ∧ tokens.map word = ws := by
  obtain ⟨tokens, hwords, hscan⟩ := h 0 []
  rw [List.append_nil, List.append_nil] at hscan
  refine ⟨tokens, hscan.trans ?_, hwords⟩
  rw [scanFrom_nil, List.reverse_reverse]

theorem Lexes.cuts {tokens : List Token} (h : Lexes start t tokens) (hrest : Severs rest) :
    Cuts t rest (tokens.map word) := by
  induction h with
  | nil => exact fun _ _ => ⟨[], rfl, rfl⟩
  | @blank start n c t tokens hlexeme _ ih =>
    intro start done
    obtain ⟨found, hwords, hscan⟩ := ih (start + n + 1) done
    refine ⟨found, hwords, ?_⟩
    have hn := le_of_lexeme hlexeme
    have hpad := scanFrom_blanks (blank_of_lexeme hlexeme) start done (t.drop n ++ rest)
    rw [List.cons_append, ← List.append_assoc, List.take_append_drop, List.length_cons,
      List.length_take_of_le hn] at hpad
    rw [List.cons_append, hpad, ← Nat.add_assoc, hscan, List.length_drop, List.length_cons,
      show start + n + 1 + (t.length - n) = start + (t.length + 1) by omega]
  | @token start n c t kind tokens hlexeme _ ih =>
    have hn := le_of_lexeme hlexeme
    rw [List.map_cons]
    have hfirst : Cuts (c :: t.take n) (t.drop n ++ rest) [⟨kind, c :: t.take n⟩] := by
      refine .token ?_
      rw [← List.append_assoc, List.take_append_drop, List.length_take_of_le hn]
      exact lexeme_append hlexeme hrest
    have hall := hfirst.append ih
    rwa [List.cons_append, List.take_append_drop] at hall

/-- A text that is cut into tokens is cut into the same words in front of a blank or parenthesis. -/
theorem cuts_of_scan {tokens : List Token} (h : scan t = .ok tokens) (hrest : Severs rest) :
    Cuts t rest (tokens.map word) :=
  (scan_iff.mp h).cuts hrest

end Token

end Scriptlet
