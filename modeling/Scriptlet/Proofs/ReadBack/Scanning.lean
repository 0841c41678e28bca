import Mathlib.Data.List.TakeWhile
import Scriptlet.Proofs.ReadBack
import Scriptlet.Proofs.Source.Lines
import Scriptlet.Proofs.Text.Trimming

/-
  Written data is cut into its words.

  A piece of text is cut by itself when what follows it cannot belong to its last token. Behind data
  stands a comma, a colon or a closing bracket, or nothing, and none of them goes on with a number, a
  word or a string.

  What is proved:
    1. `Data.part_written` — written data is cut into its words in front of whatever may follow it.
    2. `Data.scan_written` — the tokens of written data have its words.
-/

namespace Scriptlet

/-- Operators are written as such. -/
theorem Word.of_operator {text : Text} (h : text ∈ Token.operators) :
    Word.of text = ⟨.operator, text⟩ := by
  have hkind := Word.kind_of text
  have htext := Word.text_of text
  rw [if_pos h] at hkind
  cases hword : Word.of text with
  | mk kind text' =>
    rw [hword] at hkind htext
    rw [show kind = .operator from hkind, show text' = text from htext]

namespace Token

/-- In front of `rest` the text is cut into tokens with these words. -/
def Cuts (t rest : Text) (ws : List Word) : Prop :=
  ∀ start done, ∃ tokens : List Token, tokens.map word = ws ∧
    scanFrom start done (t ++ rest) = scanFrom (start + t.length) (tokens.reverse ++ done) rest

variable {s t rest : Text} {ws us : List Word} {c : CodePoint}

theorem Cuts.append (hs : Cuts s (t ++ rest) ws) (ht : Cuts t rest us) :
    Cuts (s ++ t) rest (ws ++ us) := by
  intro start done
  obtain ⟨first, hfirst, hscan⟩ := hs start done
  obtain ⟨second, hsecond, hrest⟩ := ht (start + s.length) (first.reverse ++ done)
  refine ⟨first ++ second, by rw [List.map_append, hfirst, hsecond], ?_⟩
  calc scanFrom start done (s ++ t ++ rest)
      = scanFrom start done (s ++ (t ++ rest)) := by rw [List.append_assoc]
    _ = scanFrom (start + s.length) (first.reverse ++ done) (t ++ rest) := hscan
    _ = scanFrom (start + s.length + t.length) (second.reverse ++ (first.reverse ++ done)) rest := hrest
    _ = scanFrom (start + (s ++ t).length) ((first ++ second).reverse ++ done) rest := by
      rw [List.length_append, Nat.add_assoc, List.reverse_append, List.append_assoc]

theorem Cuts.token {kind : TokenKind} (h : lexeme c (t ++ rest) = .ok (some kind, t.length)) :
    Cuts (c :: t) rest [⟨kind, c :: t⟩] := by
  intro start done
  refine ⟨[⟨kind, c :: t, start, start + t.length + 1⟩], rfl, ?_⟩
  rw [List.cons_append, scanFrom.eq_def]
  simp only [h, List.take_left, List.drop_left]
  rfl

theorem Cuts.blank (h : ∀ d ∈ rest.head?, d.isBlank = false) : Cuts " " rest [] := by
  intro start done
  refine ⟨[], rfl, ?_⟩
  have hblank : (CodePoint.ofChar ' ').isBlank = true := by decide
  have hnone : rest.takeWhile CodePoint.isBlank = [] := by
    cases rest with
    | nil => rfl
    | cons d rest => rw [List.takeWhile_cons, h d rfl]; rfl
  show scanFrom start done (CodePoint.ofChar ' ' :: rest) = _
  rw [scanFrom.eq_def]
  simp only [lexeme, if_pos hblank, hnone]
  rfl

/-! ## What follows -/

/-- Nothing follows, or a comma, a colon or a closing bracket. -/
def Delimits (rest : Text) : Prop :=
  ∀ c ∈ rest.head?, c ∈ [CodePoint.ofChar ',', ':', ')', ']', '\x7d']

theorem Delimits.nil : Delimits [] := fun _ hc => absurd hc (by simp)

theorem Delimits.cons (hc : c ∈ [CodePoint.ofChar ',', ':', ')', ']', '\x7d']) :
    Delimits (c :: rest) := by
  intro d hd
  cases hd
  exact hc

/-- What follows goes on with neither a word nor a number. -/
def Ends (rest : Text) : Prop :=
  ∀ c ∈ rest.head?, c.isWord = false ∧ c.isDigit = false ∧ c.val ≠ 46

theorem Delimits.ends (h : Delimits rest) : Ends rest := by
  have hall : ∀ c ∈ [CodePoint.ofChar ',', ':', ')', ']', '\x7d'],
      c.isWord = false ∧ c.isDigit = false ∧ c.val ≠ 46 := by
    decide
  exact fun c hc => hall c (h c hc)

/-- A property of code points that what follows does not begin with ends before it. -/
theorem takeWhile_append {p : CodePoint → Bool} (hp : ∀ c ∈ rest.head?, p c = false)
    (ht : ∀ c ∈ t, p c = true) : (t ++ rest).takeWhile p = t := by
  rw [List.takeWhile_append_of_pos ht]
  cases rest with
  | nil => rw [List.takeWhile_nil, List.append_nil]
  | cons d rest =>
    rw [List.takeWhile_cons, hp d rfl]
    exact List.append_nil t

/-! ## Classes of tokens -/

/-- The brackets, the comma and the colon. -/
def signs : Text := "()[]\x7b\x7d,:"

theorem lexeme_sign (hc : c ∈ signs) (rest : Text) : lexeme c rest = .ok (some .operator, 0) := by
  have hsigns : signs = [CodePoint.ofChar '(', ')', '[', ']', '\x7b', '\x7d', ',', ':'] := by decide
  rw [hsigns] at hc
  simp only [List.mem_cons, List.not_mem_nil, or_false] at hc
  rcases hc with rfl | rfl | rfl | rfl | rfl | rfl | rfl | rfl <;> rfl

theorem Cuts.sign (hc : c ∈ signs) (hop : [c] ∈ operators) : Cuts [c] rest [.of [c]] := by
  rw [Word.of_operator hop]
  exact .token (lexeme_sign hc rest)

/-- The ASCII code points that are digits of some script. -/
theorem isDigit_of_lt (hc : c.val < 128) : c.isDigit = c.isAsciiDigit := by
  unfold CodePoint.isDigit CodePoint.digit? CodePoint.asciiDigit? CodePoint.isAsciiDigit
  rw [if_pos hc]
  cases (48 ≤ c.val && c.val ≤ 57 : Bool) <;> rfl

theorem isAsciiDigit_eq_false (hc : c.val < 48 ∨ 57 < c.val) : c.isAsciiDigit = false := by
  simp only [CodePoint.isAsciiDigit, Bool.and_eq_false_iff, decide_eq_false_iff_not]
  omega

/-- A text that begins with neither a digit nor a point begins with no number. -/
theorem numberLength_eq_zero (hdigit : c.isDigit = false) (hpoint : c.val ≠ 46) (rest : Text) :
    numberLength (c :: rest) = 0 := by
  have hnone : (c :: rest).takeWhile CodePoint.isDigit = [] := by
    rw [List.takeWhile_cons, hdigit]
    rfl
  unfold numberLength
  simp [hnone, hpoint]

theorem lexeme_name (hc : c.startsIdentifier = true) (ht : ∀ d ∈ t, d.isWord = true)
    (hrest : Ends rest) : lexeme c (t ++ rest) = .ok (some .name, t.length) := by
  have hrange : (65 ≤ c.val ∧ c.val ≤ 90) ∨ (97 ≤ c.val ∧ c.val ≤ 122) ∨ c.val = 95 := by
    simp only [CodePoint.startsIdentifier, CodePoint.isAsciiLetter, Bool.or_eq_true,
      Bool.and_eq_true, decide_eq_true_eq, beq_iff_eq] at hc
    omega
  have hblank : c.isBlank = false :=
    Text.isBlank_eq_false_of_isWord (CodePoint.isWord_of_startsIdentifier hc)
  have hdigit : c.isDigit = false := by
    rw [isDigit_of_lt (by omega), isAsciiDigit_eq_false (by omega)]
  have hquote : (c.val == 39 || c.val == 34) = false := by
    simp only [Bool.or_eq_false_iff, beq_eq_false_iff_ne]
    omega
  rw [lexeme, if_neg (by rw [hblank]; decide), numberLength_eq_zero hdigit (by omega)]
  simp only [hquote, hc, takeWhile_append (fun d hd => (hrest d hd).1) ht]
  rfl

theorem lexeme_string {quote : CodePoint} (hquote : quote.val = 39 ∨ quote.val = 34)
    (ht : ∀ d ∈ t, d ≠ quote) :
    lexeme quote (t ++ [quote] ++ rest) = .ok (some .string, (t ++ [quote]).length) := by
  rw [List.append_assoc, List.singleton_append, List.length_append, List.length_singleton]
  have hblank : quote.isBlank = false := by
    unfold CodePoint.isBlank
    rcases hquote with h | h <;> rw [h] <;> decide
  have hdigit : quote.isDigit = false := by
    rw [isDigit_of_lt (by omega), isAsciiDigit_eq_false (by omega)]
  have hopens : (quote.val == 39 || quote.val == 34) = true := by
    simp only [Bool.or_eq_true, beq_iff_eq]
    exact hquote
  have hinside : (t ++ quote :: rest).takeWhile (· != quote) = t := by
    rw [List.takeWhile_append_of_pos fun d hd => bne_iff_ne.mpr (ht d hd)]
    simp
  have htail : stringTail quote (t ++ quote :: rest) = some (t.length + 1) := by
    unfold stringTail
    rw [hinside, if_pos (by simp)]
  rw [lexeme, if_neg (by rw [hblank]; decide), numberLength_eq_zero hdigit (by omega)]
  simp only [hopens, htail]
  rfl

theorem lexeme_number (hc : c.isAsciiDigit = true) (ht : ∀ d ∈ t, d.isAsciiDigit = true)
    (hrest : Ends rest) : lexeme c (t ++ rest) = .ok (some .number, t.length) := by
  have hdigit : ∀ d : CodePoint, d.isAsciiDigit = true → d.isDigit = true := by
    intro d hd
    have hrange := hd
    simp only [CodePoint.isAsciiDigit, Bool.and_eq_true, decide_eq_true_eq] at hrange
    rw [isDigit_of_lt (by omega), hd]
  have hblank : c.isBlank = false := by
    simp only [CodePoint.isAsciiDigit, Bool.and_eq_true, decide_eq_true_eq] at hc
    simp only [CodePoint.isBlank, Bool.or_eq_false_iff, Bool.and_eq_false_iff, decide_eq_false_iff_not,
      beq_eq_false_iff_ne]
    omega
  have hwhole : (c :: (t ++ rest)).takeWhile CodePoint.isDigit = c :: t := by
    have hall : ∀ d ∈ c :: t, d.isDigit = true :=
      List.forall_mem_cons.mpr ⟨hdigit c hc, fun d hd => hdigit d (ht d hd)⟩
    exact takeWhile_append (fun d hd => (hrest d hd).2.1) hall
  -- What follows is neither a point nor an exponent.
  have hlength : numberLength (c :: (t ++ rest)) = t.length + 1 := by
    have hdrop : (c :: (t ++ rest)).drop (t.length + 1) = rest := by
      rw [List.drop_succ_cons, List.drop_left]
    unfold numberLength
    simp only [hwhole, List.length_cons, hdrop]
    cases rest with
    | nil => simp [exponentLength]
    | cons d rest =>
      obtain ⟨hword, -, hpoint⟩ := hrest d rfl
      have hexponent : (d.val == 101 || d.val == 69) = false := by
        simp only [Bool.or_eq_false_iff, beq_eq_false_iff_ne]
        constructor <;>
          · intro hd
            simp [CodePoint.isWord, CodePoint.isAlphanumeric, CodePoint.isAsciiLetter, hd] at hword
      simp [hpoint, hdrop, exponentLength, hexponent]
  rw [lexeme, if_neg (by rw [hblank]; decide), hlength]
  simp

/-- In front of a digit a minus is an operator by itself: of the longer ones only `-=` begins so. -/
theorem lexeme_minus {d : CodePoint} (hd : d.isAsciiDigit = true) (rest : Text) :
    lexeme '-' (d :: rest) = .ok (some .operator, 0) := by
  have hne : ¬ CodePoint.ofChar '=' = d := by
    rintro rfl
    exact absurd hd (by decide)
  have hbefore : ∀ op ∈ operators.take 12, op = "-=" ∨ ∃ a tail, a ≠ CodePoint.ofChar '-' ∧ op = a :: tail := by
    intro op hop
    have hall : ∀ op ∈ operators.take 12, op = "-=" ∨ (op ≠ [] ∧ op.head? ≠ some (CodePoint.ofChar '-')) := by
      decide
    rcases hall op hop with heq | ⟨hsome, hhead⟩
    · exact .inl heq
    · obtain ⟨a, tail, rfl⟩ := List.exists_cons_of_ne_nil hsome
      exact .inr ⟨a, tail, fun ha => hhead (by rw [ha]; rfl), rfl⟩
  have hfind : operators.find? (·.isPrefixOf (CodePoint.ofChar '-' :: d :: rest)) = some "-" := by
    refine List.find?_eq_some_iff_append.mpr
      ⟨rfl, operators.take 12, operators.drop 13, by decide, fun op hop => ?_⟩
    rcases hbefore op hop with rfl | ⟨a, tail, ha, rfl⟩
    · show (!(_ && ((CodePoint.ofChar '=' == d) && _))) = true
      rw [beq_eq_false_iff_ne.mpr hne, Bool.false_and, Bool.and_false, Bool.not_false]
    · show (!((a == CodePoint.ofChar '-') && _)) = true
      rw [beq_eq_false_iff_ne.mpr ha, Bool.false_and, Bool.not_false]
  have hnumber : numberLength (CodePoint.ofChar '-' :: d :: rest) = 0 :=
    numberLength_eq_zero (by decide) (by decide) _
  have hblank : (CodePoint.ofChar '-').isBlank = false := by decide
  have hquote : ((CodePoint.ofChar '-').val == 39 || (CodePoint.ofChar '-').val == 34) = false := by decide
  have hname : (CodePoint.ofChar '-').startsIdentifier = false := by decide
  rw [lexeme, if_neg (by rw [hblank]; decide), hnumber]
  simp only [hquote, hname, hfind]
  rfl

/-! ## Parts -/

/-- A text that is cut into its words in front of any delimiter, with no blanks at its ends. -/
structure Part (t : Text) (ws : List Word) : Prop where
  nonempty : t ≠ []
  trimmed : t.trim = t
  cuts : ∀ {rest : Text}, Delimits rest → Cuts t rest ws

namespace Part

/-- A text between two signs is a part, if it is cut into words in front of the second one. -/
theorem bracketed (opening closing : CodePoint) (hopening : opening ∈ signs)
    (hclosing : closing ∈ signs) (hopen : [opening] ∈ operators) (hclose : [closing] ∈ operators)
    (ht : ∀ rest, Cuts t (closing :: rest) ws) :
    Part ([opening] ++ (t ++ [closing])) (.of [opening] :: (ws ++ [.of [closing]])) where
  nonempty := List.cons_ne_nil _ _
  trimmed := by
    have hblank : ∀ c ∈ signs, c.isBlank = false := by decide
    refine Text.trim_eq_self_iff.mpr ⟨fun c hc => ?_, fun c hc => ?_⟩
    · cases hc
      exact hblank opening hopening
    · rw [← List.append_assoc, List.getLast?_concat] at hc
      cases hc
      exact hblank closing hclosing
  cuts {rest} _ := (Cuts.sign hopening hopen).append ((ht rest).append (Cuts.sign hclosing hclose))

theorem token {kind : TokenKind} (hc : c.isBlank = false) (hlast : ∀ d ∈ t.getLast?, d.isBlank = false)
    (h : ∀ {rest : Text}, Delimits rest → lexeme c (t ++ rest) = .ok (some kind, t.length)) :
    Part (c :: t) [⟨kind, c :: t⟩] where
  nonempty := List.cons_ne_nil c t
  trimmed := by
    refine Text.trim_eq_self_iff.mpr ⟨fun d hd => ?_, fun d hd => ?_⟩
    · cases hd
      exact hc
    · cases ht : t.getLast? with
      | none =>
        rw [List.getLast?_eq_none_iff.mp ht] at hd
        cases hd
        exact hc
      | some e =>
        rw [List.getLast?_cons, ht] at hd
        cases hd
        exact hlast e ht
  cuts hrest := .token (h hrest)

theorem head (ht : Part t ws) (more : Text) : ∀ c ∈ (t ++ more).head?, c.isBlank = false := by
  intro c hc
  rw [List.head?_append_of_ne_nil _ ht.nonempty] at hc
  exact (Text.trim_eq_self_iff.mp ht.trimmed).1 c hc

/-- A part, a sign that delimits it, a blank, and what is cut by itself. -/
theorem before {more : Text} {sign : CodePoint} (hs : Part s ws) (hsign : sign ∈ signs)
    (hdelimits : sign ∈ [CodePoint.ofChar ',', ':', ')', ']', '\x7d']) (hop : [sign] ∈ operators)
    (hhead : ∀ c ∈ (more ++ rest).head?, c.isBlank = false) (hmore : Cuts more rest us) :
    Cuts (s ++ ([sign] ++ (" " ++ more))) rest (ws ++ .of [sign] :: us) :=
  (hs.cuts (.cons hdelimits)).append
    ((Cuts.sign hsign hop).append ((Cuts.blank hhead).append hmore))

theorem join : ∀ {ts : List Text} {wss : List (List Word)}, List.Forall₂ Part ts wss →
    Delimits rest → Cuts (Text.join ", " ts) rest (Data.withCommas wss)
  | _, _, .nil, _ => fun start done => ⟨[], rfl, by simp [Text.join]⟩
  | [t], [ws], .cons h .nil, hrest => by
    rw [Text.join_singleton]
    exact h.cuts hrest
  | t :: u :: ts, ws :: us :: wss, .cons h (.cons h' hmore), hrest => by
    have hhead : ∀ c ∈ (Text.join ", " (u :: ts) ++ rest).head?, c.isBlank = false := by
      cases ts with
      | nil =>
        rw [Text.join_singleton]
        exact h'.head rest
      | cons next ts =>
        rw [Text.join_cons_cons, List.append_assoc]
        exact h'.head _
    rw [Text.join_cons_cons]
    exact h.before (by decide) (by decide) (by decide) hhead (join (.cons h' hmore) hrest)

theorem entry (hs : Part s ws) (ht : Part t us) :
    Part (Data.entryText s t) (Data.entryWords ws us) where
  nonempty h := hs.nonempty (List.append_eq_nil_iff.mp h).1
  trimmed := by
    refine Text.trim_eq_self_iff.mpr ⟨hs.head _, fun c hc => ?_⟩
    rw [Data.entryText, ← List.append_assoc,
      List.getLast?_append_of_ne_nil _ ht.nonempty] at hc
    exact (Text.trim_eq_self_iff.mp ht.trimmed).2 c hc
  cuts {rest} hrest :=
    hs.before (by decide) (by decide) (by decide) (ht.head rest) (ht.cuts hrest)

theorem entries : ∀ {ss ts : List Text} {wss uss : List (List Word)}, List.Forall₂ Part ss wss →
    List.Forall₂ Part ts uss →
      List.Forall₂ Part (List.zipWith Data.entryText ss ts) (List.zipWith Data.entryWords wss uss)
  | _, _, _, _, .nil, _ => .nil
  | _ :: _, _, _ :: _, _, .cons _ _, .nil => .nil
  | _ :: _, _ :: _, _ :: _, _ :: _, .cons hs hss, .cons ht hts => .cons (hs.entry ht) (entries hss hts)

end Part

end Token

/-! ## Written data -/

namespace Text

theorem isAsciiDigit_of_mem_ofNat {n : Nat} {c : CodePoint} (hc : c ∈ Text.ofNat n) :
    c.isAsciiDigit = true := by
  obtain ⟨d, hd, rfl⟩ := List.mem_map.mp hc
  have hdigit := Nat.isDigit_of_mem_toDigits (by decide) (by decide) hd
  simp only [Char.isDigit, Bool.and_eq_true, decide_eq_true_eq] at hdigit
  have hval : (CodePoint.ofChar d).val = d.val.toNat := rfl
  have hlow : 48 ≤ d.val.toNat := hdigit.1
  have hhigh : d.val.toNat ≤ 57 := hdigit.2
  simp only [CodePoint.isAsciiDigit, hval, Bool.and_eq_true, decide_eq_true_eq]
  exact ⟨hlow, hhigh⟩

theorem chosenQuote_kind (t : Text) : t.chosenQuote.val = 39 ∨ t.chosenQuote.val = 34 := by
  unfold chosenQuote
  split
  · exact .inr rfl
  · exact .inl rfl

/-- The quotes that a text is written between are not in it, unless it holds both kinds. -/
theorem ne_chosenQuote {t : Text} (h : (∀ c ∈ t, c.val ≠ 39) ∨ ∀ c ∈ t, c.val ≠ 34) :
    ∀ c ∈ t, c ≠ t.chosenQuote := by
  intro c hc heq
  unfold chosenQuote at heq
  split at heq
  · -- A text between quotation marks holds none of them.
    rename_i hboth
    rw [Bool.and_eq_true, Bool.not_eq_true', List.any_eq_false] at hboth
    exact hboth.2 c hc (by rw [heq]; rfl)
  · -- A text between apostrophes with an apostrophe in it would hold both quotes.
    rename_i hnot
    have hc39 : c.val = 39 := by rw [heq]; rfl
    rcases h with hfirst | hsecond
    · exact hfirst c hc hc39
    · refine hnot (Bool.and_eq_true_iff.mpr ⟨List.any_eq_true.mpr ⟨c, hc, beq_iff_eq.mpr hc39⟩, ?_⟩)
      rw [Bool.not_eq_true', List.any_eq_false]
      exact fun d hd hquote => hsecond d hd (beq_iff_eq.mp hquote)

/-- Plain text stands between its quotes as it is, and they are not in it. -/
theorem IsPlain.quoted_eq {t : Text} (h : t.IsPlain) :
    (t.chosenQuote.val = 39 ∨ t.chosenQuote.val = 34) ∧ (∀ c ∈ t, c ≠ t.chosenQuote) ∧
      t.quoted = t.chosenQuote :: (t ++ [t.chosenQuote]) := by
  have hfree := ne_chosenQuote h.oneQuote
  have hplain : ∀ c ∈ t, t.chosenQuote.quotedBy c = [c] := by
    intro c hc
    have hprintable := h.printable c hc
    have hrange : c.val < 128 → 32 ≤ c.val := by
      intro hlt
      rw [CodePoint.isPrintable, if_pos hlt, Bool.and_eq_true, decide_eq_true_eq] at hprintable
      exact hprintable.1
    unfold CodePoint.quotedBy
    rw [if_neg (by simp [hfree c hc, h.noBackslash c hc]), if_neg (by simp; omega),
      if_neg (by simp; omega), if_neg (by simp; omega), if_pos hprintable]
  refine ⟨t.chosenQuote_kind, hfree, ?_⟩
  have hflat : t.flatMap t.chosenQuote.quotedBy = t := by
    have hsame : t.flatMap t.chosenQuote.quotedBy = t.flatMap fun c => [c] := List.flatMap_congr hplain
    rw [hsame, List.flatMap_singleton']
  calc t.quoted = t.chosenQuote :: (t.flatMap t.chosenQuote.quotedBy ++ [t.chosenQuote]) := rfl
    _ = t.chosenQuote :: (t ++ [t.chosenQuote]) := by rw [hflat]

end Text

namespace Data

open Token (Part Cuts Delimits)

/-- What stands between brackets, with commas between the parts. -/
theorem part_brackets {opening closing : CodePoint} {ts : List Text} {wss : List (List Word)}
    (hopening : opening ∈ Token.signs) (hclosing : closing ∈ Token.signs)
    (hopen : [opening] ∈ Token.operators) (hclose : [closing] ∈ Token.operators)
    (hends : closing ∈ [CodePoint.ofChar ',', ':', ')', ']', '\x7d'])
    (h : List.Forall₂ Part ts wss) :
    Part ([opening] ++ (Text.join ", " ts ++ [closing]))
      (.of [opening] :: (withCommas wss ++ [.of [closing]])) :=
  .bracketed opening closing hopening hclosing hopen hclose fun _ => Part.join h (.cons hends)

theorem part_ofNat (n : Nat) : Part (Text.ofNat n) [⟨.number, Text.ofNat n⟩] := by
  have hdigits := fun c => Text.isAsciiDigit_of_mem_ofNat (n := n) (c := c)
  have hblank : ∀ c : CodePoint, c.isAsciiDigit = true → c.isBlank = false := by
    intro c hc
    refine Text.isBlank_eq_false_of_isWord ?_
    have hlt : c.val < 128 := by
      simp only [CodePoint.isAsciiDigit, Bool.and_eq_true, decide_eq_true_eq] at hc
      omega
    unfold CodePoint.isWord CodePoint.isAlphanumeric
    rw [if_pos hlt, hc, Bool.or_true, Bool.true_or]
  cases hn : Text.ofNat n with
  | nil => exact absurd (List.map_eq_nil_iff.mp hn) Nat.toDigits_ne_nil
  | cons c t =>
    rw [hn] at hdigits
    have hc := hdigits c (List.mem_cons_self ..)
    have ht := fun d hd => hdigits d (List.mem_cons_of_mem c hd)
    exact .token (hblank c hc) (fun d hd => hblank d (ht d (List.mem_of_getLast? hd)))
      fun hrest => Token.lexeme_number hc ht hrest.ends

theorem part_negative (n : Nat) :
    Part (CodePoint.ofChar '-' :: Text.ofNat n) [.of "-", ⟨.number, Text.ofNat n⟩] where
  nonempty := List.cons_ne_nil _ _
  trimmed := by
    have htrimmed := (part_ofNat n).trimmed
    refine Text.trim_eq_self_iff.mpr ⟨fun c hc => ?_, fun c hc => ?_⟩
    · cases hc
      decide
    · rw [← List.singleton_append, List.getLast?_append_of_ne_nil _ (part_ofNat n).nonempty] at hc
      exact (Text.trim_eq_self_iff.mp htrimmed).2 c hc
  cuts {rest} hrest := by
    have hsign : Cuts [CodePoint.ofChar '-'] (Text.ofNat n ++ rest) [.of "-"] := by
      rw [Word.of_operator (by decide)]
      refine .token (t := []) ?_
      have hdigits := fun c => Text.isAsciiDigit_of_mem_ofNat (n := n) (c := c)
      cases hn : Text.ofNat n with
      | nil => exact absurd hn (part_ofNat n).nonempty
      | cons d t => exact Token.lexeme_minus (hdigits d (by rw [hn]; exact List.mem_cons_self ..)) _
    exact hsign.append ((part_ofNat n).cuts hrest)

mutual

theorem part_written : ∀ {d : Data}, d.IsReadable → Part d.written d.words
  | .none, _ => by
    rw [written, words]
    exact .token (by decide) (by decide) fun hrest => Token.lexeme_name (by decide) (by decide) hrest.ends
  | .bool b, _ => by
    rw [written, words]
    cases b
    · exact .token (by decide) (by decide) fun hrest => Token.lexeme_name (by decide) (by decide) hrest.ends
    · exact .token (by decide) (by decide) fun hrest => Token.lexeme_name (by decide) (by decide) hrest.ends
  | .int (.ofNat n), _ => by
    have hnot : ¬ (Int.ofNat n) < 0 := Int.not_lt.mpr (Int.natCast_nonneg n)
    rw [written, words, if_neg hnot]
    exact part_ofNat n
  | .int (.negSucc n), _ => by
    rw [written, words, if_pos (Int.negSucc_lt_zero n)]
    exact part_negative (n + 1)
  | .text t, h => by
    rw [IsReadable] at h
    obtain ⟨hkind, hfree, hquoted⟩ := h.quoted_eq
    have hblank : t.chosenQuote.isBlank = false := by
      unfold CodePoint.isBlank
      rcases hkind with hq | hq <;> rw [hq] <;> decide
    rw [written, words, hquoted]
    refine .token hblank (fun c hc => ?_) fun {rest} _ => Token.lexeme_string hkind hfree
    rw [List.getLast?_concat] at hc
    cases hc
    exact hblank
  | .list items, h => by
    rw [IsReadable] at h
    rw [written, words]
    exact part_brackets (by decide) (by decide) (by decide) (by decide) (by decide) (parts_written h)
  | .tuple items, h => by
    rw [IsReadable] at h
    have hitems := parts_written h
    rw [written, words]
    split
    · have hcuts : ∀ rest, Cuts (Text.join ", " (writtenAll items) ++ ",") (CodePoint.ofChar ')' :: rest)
          (withCommas (wordsAll items) ++ [.of ","]) := fun rest =>
        (Part.join hitems (.cons (by decide))).append
          (Cuts.sign (c := CodePoint.ofChar ',') (by decide) (by decide))
      have hpart := Part.bracketed (CodePoint.ofChar '(') (CodePoint.ofChar ')') (by decide) (by decide) (by decide)
        (by decide) hcuts
      rw [List.append_assoc, List.append_assoc] at hpart
      exact hpart
    · exact part_brackets (by decide) (by decide) (by decide) (by decide) (by decide) hitems
  | .dict ks vs, h => by
    rw [IsReadable] at h
    obtain ⟨hks, hvs, -, -, -⟩ := h
    rw [written, words]
    exact part_brackets (by decide) (by decide) (by decide) (by decide) (by decide)
      (Part.entries (parts_written hks) (parts_written hvs))
  | .set items, h => by
    rw [IsReadable] at h
    rw [written, words]
    exact part_brackets (by decide) (by decide) (by decide) (by decide) (by decide) (parts_written h.1)

theorem parts_written : ∀ {ds : List Data}, AreReadable ds →
    List.Forall₂ Part (writtenAll ds) (wordsAll ds)
  | [], _ => .nil
  | d :: ds, h => by
    rw [AreReadable] at h
    exact .cons (part_written h.1) (parts_written h.2)

end

/-- Written data has its words. -/
theorem scan_written {d : Data} (hd : d.IsReadable) :
    ∃ tokens, Token.scan d.written = .ok tokens ∧ tokens.map Token.word = d.words := by
  obtain ⟨tokens, hwords, hscan⟩ := (part_written hd).cuts .nil 0 []
  rw [List.append_nil, List.append_nil] at hscan
  refine ⟨tokens, ?_, hwords⟩
  rw [Token.scan, hscan, Token.scanFrom.eq_def, List.reverse_reverse]

end Data

end Scriptlet
