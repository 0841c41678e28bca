import Scriptlet.Proofs.Printing
import Scriptlet.Proofs.ReadBack.Parsing

/-
  Words with a blank between them are cut into these words.

  A word stands by itself (`Word.IsLexical`) when the tokens are cut behind it, if a blank or nothing
  follows. So do operators, names, the digits of integers, and texts between quotes that they do not hold.

  What is proved:
    1. `Word.isLexical_of` and the lemmas before it — the words that stand by themselves.
    2. `Token.scan_join` — words that stand by themselves are the words of their text.
-/

namespace Scriptlet

/-! ## Words that stand by themselves -/

/-- Nothing follows, or a blank. -/
def Token.Spaces (rest : Text) : Prop := ∀ c ∈ rest.head?, c = CodePoint.ofChar ' '

/-- The word is cut off by itself where nothing or a blank follows, no blank stands at its ends, and it is
no number of more digits than are converted. -/
structure Word.IsLexical (w : Word) : Prop where
  lexeme : ∃ c t, w.text = c :: t ∧
    ∀ rest, Token.Spaces rest → Token.lexeme c (t ++ rest) = .ok (some w.kind, t.length)
  trimmed : w.text.trim = w.text
  short : Data.IsShort w

namespace Token

variable {rest : Text}

theorem Spaces.ends (h : Spaces rest) : Ends rest := by
  intro c hc
  rw [h c hc]
  decide

theorem Spaces.eq_nil_or_cons (h : Spaces rest) :
    rest = [] ∨ ∃ more, rest = CodePoint.ofChar ' ' :: more := by
  cases rest with
  | nil => exact .inl rfl
  | cons c more => exact .inr ⟨more, by rw [h c rfl]⟩

/-- In front of a blank each operator is an operator. -/
theorem lexeme_operator : ∀ op ∈ operators, ∃ c t, op = c :: t ∧
    ∀ rest, Spaces rest → lexeme c (t ++ rest) = .ok (some .operator, t.length) := by
  have hfirst : ∀ op ∈ operators, ∃ c t, op = c :: t ∧
      lexeme c t = .ok (some .operator, t.length) ∧
      ∀ more, lexeme c (t ++ CodePoint.ofChar ' ' :: more) = .ok (some .operator, t.length) := by
    simp only [operators, List.forall_mem_cons]
    and_intros
    all_goals first
      | exact ⟨_, _, rfl, rfl, fun _ => rfl⟩
      | exact List.forall_mem_nil _
  intro op hop
  obtain ⟨c, t, heq, hnil, hcons⟩ := hfirst op hop
  refine ⟨c, t, heq, fun rest hrest => ?_⟩
  rcases hrest.eq_nil_or_cons with rfl | ⟨more, rfl⟩
  · rw [List.append_nil]
    exact hnil
  · exact hcons more

end Token

namespace Word

/-- What is no operator is a name. -/
theorem of_name {text : Text} (h : text ∉ Token.operators) : Word.of text = ⟨.name, text⟩ := by
  have hkind := kind_of text
  rw [if_neg h] at hkind
  calc Word.of text = ⟨(Word.of text).kind, (Word.of text).text⟩ := rfl
    _ = ⟨.name, text⟩ := by rw [hkind, text_of]

theorem isLexical_name {name : Text} (h : name.isIdentifier = true) : IsLexical ⟨.name, name⟩ := by
  cases name with
  | nil => cases h
  | cons c t =>
    rw [Text.isIdentifier, Bool.and_eq_true, List.all_eq_true] at h
    have hblank : ∀ d ∈ c :: t, d.isBlank = false := fun d hd =>
      Text.isBlank_eq_false_of_isWord <| (List.mem_cons.mp hd).elim
        (fun heq => heq ▸ CodePoint.isWord_of_startsIdentifier h.1) (h.2 d)
    exact {
      lexeme := ⟨c, t, rfl, fun rest hrest => Token.lexeme_name h.1 h.2 hrest.ends⟩
      trimmed := Text.trim_eq_self_iff.mpr
        ⟨fun d hd => hblank d (List.mem_of_head? hd), fun d hd => hblank d (List.mem_of_getLast? hd)⟩
      short := fun hkind => by cases hkind }

theorem isLexical_number {n : Nat} (h : n < tenTo NumberText.maxDigits) :
    IsLexical ⟨.number, Text.ofNat n⟩ where
  lexeme := by
    have hdigits := fun c => Text.isAsciiDigit_of_mem_ofNat (n := n) (c := c)
    cases hn : Text.ofNat n with
    | nil => exact absurd hn (Data.part_ofNat n).nonempty
    | cons c t =>
      rw [hn] at hdigits
      exact ⟨c, t, rfl, fun rest hrest => Token.lexeme_number (hdigits c (List.mem_cons_self ..))
        (fun d hd => hdigits d (List.mem_cons_of_mem c hd)) hrest.ends⟩
  trimmed := (Data.part_ofNat n).trimmed
  short _ := Data.length_ofNat_le h (by decide)

theorem isLexical_string {t : Text} (h : (∀ c ∈ t, c.val ≠ 39) ∨ ∀ c ∈ t, c.val ≠ 34) :
    IsLexical ⟨.string, t.between⟩ where
  lexeme := ⟨t.chosenQuote, t ++ [t.chosenQuote], rfl,
    fun _ _ => Token.lexeme_string t.chosenQuote_kind (Text.ne_chosenQuote h)⟩
  trimmed := by
    have hblank : t.chosenQuote.isBlank = false := by
      unfold CodePoint.isBlank
      rcases t.chosenQuote_kind with hq | hq <;> rw [hq] <;> decide
    refine Text.trim_eq_self_iff.mpr ⟨fun c hc => ?_, fun c hc => ?_⟩
    · cases hc
      exact hblank
    · rw [show t.between = [t.chosenQuote] ++ t ++ [t.chosenQuote] from rfl, List.getLast?_concat] at hc
      cases hc
      exact hblank
  short hkind := by cases hkind

theorem isLexical_of {text : Text} (h : text ∈ Token.operators ∨ text.isIdentifier = true) :
    IsLexical (.of text) := by
  by_cases hop : text ∈ Token.operators
  · have htrimmed : ∀ op ∈ Token.operators, op.trim = op := by decide
    rw [of_operator hop]
    exact ⟨Token.lexeme_operator text hop, htrimmed text hop, fun hkind => by cases hkind⟩
  · rw [of_name hop]
    exact isLexical_name (h.resolve_left hop)

namespace IsLexical

variable {w : Word}

theorem cuts {rest : Text} (h : w.IsLexical) (hrest : Token.Spaces rest) :
    Token.Cuts w.text rest [w] := by
  obtain ⟨c, t, htext, hlexeme⟩ := h.lexeme
  cases w with
  | mk kind text =>
    obtain rfl : text = c :: t := htext
    exact .token (hlexeme rest hrest)

theorem nonempty (h : w.IsLexical) : w.text ≠ [] := by
  obtain ⟨c, t, htext, -⟩ := h.lexeme
  rw [htext]
  exact List.cons_ne_nil c t

end IsLexical

end Word

/-! ## Texts -/

namespace Token

/-- The text of words that stand by themselves, with blanks between them, has none at its ends. -/
theorem trim_join : ∀ {ws : List Word}, (∀ w ∈ ws, w.IsLexical) →
    (Text.join " " (ws.map Word.text)).trim = Text.join " " (ws.map Word.text)
  | [], _ => rfl
  | [w], h => by
    rw [List.map_singleton, Text.join_singleton]
    exact (h w (List.mem_cons_self ..)).trimmed
  | w :: next :: ws, h => by
    obtain ⟨hw, hrest⟩ := List.forall_mem_cons.mp h
    have hne : Text.join " " ((next :: ws).map Word.text) ≠ [] := by
      cases ws with
      | nil =>
        rw [List.map_singleton, Text.join_singleton]
        exact (hrest next (List.mem_cons_self ..)).nonempty
      | cons more ws =>
        rw [List.map_cons, List.map_cons, Text.join_cons_cons]
        exact fun hnil => (hrest next (List.mem_cons_self ..)).nonempty (List.append_eq_nil_iff.mp hnil).1
    have hmore := Text.trim_eq_self_iff.mp (trim_join hrest)
    rw [List.map_cons] at hne hmore
    rw [List.map_cons, List.map_cons, Text.join_cons_cons]
    refine Text.trim_eq_self_iff.mpr ⟨fun c hc => ?_, fun c hc => ?_⟩
    · rw [List.head?_append_of_ne_nil _ hw.nonempty] at hc
      exact (Text.trim_eq_self_iff.mp hw.trimmed).1 c hc
    · rw [← List.append_assoc, List.getLast?_append_of_ne_nil _ hne] at hc
      exact hmore.2 c hc

/-- Words that stand by themselves are cut from their text with blanks between them. -/
theorem cuts_join : ∀ {ws : List Word}, (∀ w ∈ ws, w.IsLexical) →
    Cuts (Text.join " " (ws.map Word.text)) [] ws
  | [], _ => fun start done => ⟨[], rfl, rfl⟩
  | [w], h => by
    rw [List.map_singleton, Text.join_singleton]
    exact (h w (List.mem_cons_self ..)).cuts fun _ hc => nomatch hc
  | w :: next :: ws, h => by
    obtain ⟨hw, hrest⟩ := List.forall_mem_cons.mp h
    have hblank := (Text.trim_eq_self_iff.mp (trim_join hrest)).1
    rw [← List.append_nil (Text.join _ _)] at hblank
    rw [List.map_cons, List.map_cons, Text.join_cons_cons]
    exact (hw.cuts fun _ hc => by cases hc; rfl).append ((Cuts.blank hblank).append (cuts_join hrest))

theorem scan_join {ws : List Word} (h : ∀ w ∈ ws, w.IsLexical) :
    ∃ tokens, scan (Text.join " " (ws.map Word.text)) = .ok tokens ∧ tokens.map word = ws := by
  obtain ⟨tokens, hwords, hscan⟩ := cuts_join h 0 []
  rw [List.append_nil, List.append_nil] at hscan
  refine ⟨tokens, ?_, hwords⟩
  rw [scan, hscan, scanFrom.eq_def, List.reverse_reverse]

end Token

end Scriptlet
