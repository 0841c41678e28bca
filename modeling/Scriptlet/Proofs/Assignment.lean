import Scriptlet.Statement
import Scriptlet.Proofs.Grammar.Balance
import Scriptlet.Proofs.Spans.Reading
import Scriptlet.Proofs.Text.Joining

/-
  No expression is an assignment.

  Whether a line is an assignment is found by counting brackets in its tokens, before anything is parsed.
  The words of an expression are closed, and outside of brackets none of them assigns, so the search goes
  through them without a find. A call assigns to names between its brackets only.

  What is proved:
    1. `Token.firstAssignment_append` — the search passes over words that assign nothing.
    2. `Token.scan_of_trim` — blanks at the ends of a text do not change its words.
    3. `expression_assigns_nothing` — in a text that is an expression no operator is found that assigns, and
       a text in which one is found is no expression.
-/

namespace Scriptlet

namespace Token

/-- The tokens with the words of some operators are those operators. -/
theorem word_mem_iff {texts : List Text} (htexts : texts ⊆ operators) (token : Token) :
    token.word ∈ texts.map .of ↔ token.isOperator = true ∧ texts.contains token.text = true := by
  rw [List.mem_map, isOperator, beq_iff_eq, List.contains_iff_mem]
  constructor
  · rintro ⟨text, htext, heq⟩
    rw [Word.of_operator (htexts htext)] at heq
    have hkind := congrArg Word.kind heq
    have htext' := congrArg Word.text heq
    exact ⟨hkind.symm, by rw [show token.text = text from htext'.symm]; exact htext⟩
  · rintro ⟨hkind, htext⟩
    refine ⟨token.text, htext, ?_⟩
    rw [Word.of_operator (htexts htext), ← hkind]
    rfl

theorem word_mem_openers (token : Token) :
    token.word ∈ Word.openers ↔ token.isOperator = true ∧ openingBrackets.contains token.text = true :=
  word_mem_iff (show openingBrackets ⊆ operators by decide) token

theorem word_mem_closers (token : Token) :
    token.word ∈ Word.closers ↔ token.isOperator = true ∧ closingBrackets.contains token.text = true :=
  word_mem_iff (show closingBrackets ⊆ operators by decide) token

theorem word_mem_assigners (token : Token) :
    token.word ∈ Word.assigners ↔ token.isOperator = true ∧ assignments.contains token.text = true :=
  word_mem_iff (show assignments ⊆ operators by decide) token

/-- The search for an operator that assigns passes over words with none outside of brackets. -/
theorem firstAssignment_append {depth : Nat} {tokens : List Token} {found : Nat × List Word}
    (h : Word.outside depth (tokens.map word) = some found) (hfound : ∀ w ∈ found.2, w ∉ Word.assigners)
    (more : List Token) : firstAssignment depth (tokens ++ more) = firstAssignment found.1 more := by
  induction tokens generalizing depth found with
  | nil =>
    cases h
    rfl
  | cons token tokens ih =>
    simp only [List.map_cons, Word.outside, word_mem_openers, word_mem_closers] at h
    rw [List.cons_append, firstAssignment]
    cases hop : token.isOperator with
    | false =>
      simp only [hop, Bool.false_eq_true, false_and, if_false] at h
      obtain ⟨inner, hinner, rfl⟩ := Option.map_eq_some_iff.mp h
      show _ = firstAssignment inner.1 more
      refine ih hinner fun w hw => hfound w ?_
      split <;> simp [hw]
    | true =>
      simp only [hop, true_and] at h
      simp only [Bool.not_true, Bool.false_eq_true, if_false]
      split at h
      · rename_i hopens
        rw [if_pos hopens]
        exact ih h hfound
      rename_i hopens
      rw [if_neg hopens]
      split at h
      · rename_i hcloses
        rw [if_pos hcloses]
        cases depth with
        | zero => cases h
        | succ depth =>
          rw [show ((depth + 1 : Nat) : Int) - 1 = depth by omega]
          exact ih h hfound
      rename_i hcloses
      rw [if_neg hcloses]
      obtain ⟨inner, hinner, rfl⟩ := Option.map_eq_some_iff.mp h
      -- Outside of brackets the word is among those that are found, and so it does not assign.
      rw [if_neg]
      · show _ = firstAssignment inner.1 more
        refine ih hinner fun w hw => hfound w ?_
        split <;> simp [hw]
      · intro hassigns
        obtain ⟨hdepth, hassigns⟩ := Bool.and_eq_true_iff.mp hassigns
        have hzero : depth = 0 := by simpa using hdepth
        exact hfound token.word (by simp [hzero]) ((word_mem_assigners token).mpr ⟨hop, hassigns⟩)

/-- In words that assign nothing no operator that assigns is found. -/
theorem firstAssignment_eq_none {tokens : List Token} (h : AssignsNothing (tokens.map word)) :
    firstAssignment 0 tokens = none := by
  obtain ⟨us, hclosed, hus⟩ := h
  have hall := firstAssignment_append hclosed hus []
  rwa [List.append_nil] at hall

/-- The first operator that assigns behind words that assign nothing. -/
theorem firstAssignment_eq_some {tokens : List Token} (h : AssignsNothing (tokens.map word)) {token : Token}
    (htoken : token.word ∈ Word.assigners) (more : List Token) :
    firstAssignment 0 (tokens ++ token :: more) = some token := by
  obtain ⟨us, hclosed, hus⟩ := h
  obtain ⟨hop, hassigns⟩ := (word_mem_assigners token).mp htoken
  rw [List.contains_iff_mem] at hassigns
  have hbracket : ∀ text ∈ assignments, text ∉ openingBrackets ∧ text ∉ closingBrackets := by decide
  obtain ⟨hopens, hcloses⟩ := hbracket _ hassigns
  refine (firstAssignment_append hclosed hus _).trans ?_
  rw [firstAssignment]
  simp [hop, hassigns, hopens, hcloses]

/-! ## Blanks at the ends -/

/-- Blanks at the ends of a text do not change its words. -/
theorem scan_of_trim {text : Text} {tokens : List Token} (h : scan text.trim = .ok tokens) :
    ∃ found, scan text = .ok found ∧ found.map word = tokens.map word := by
  obtain ⟨lead, trail, hlead, htrail, htext⟩ := Text.exists_blanks text
  have hsevers : Severs trail := fun c hc => .inl (htrail c (List.mem_of_mem_head? hc))
  obtain ⟨found, hwords, hcut⟩ := cuts_of_scan h hsevers lead.length []
  refine ⟨found, ?_, hwords⟩
  have hend := scanFrom_blanks htrail (lead.length + text.trim.length) (found.reverse ++ []) []
  rw [List.append_nil trail] at hend
  calc scan text
      = scanFrom 0 [] (lead ++ (text.trim ++ trail)) := by rw [← List.append_assoc, ← htext]; rfl
    _ = scanFrom lead.length [] (text.trim ++ trail) := by rw [scanFrom_blanks hlead, Nat.zero_add]
    _ = scanFrom (lead.length + text.trim.length) (found.reverse ++ []) trail := hcut
    _ = .ok found := by
      rw [hend, scanFrom_nil, List.append_nil, List.reverse_reverse]

end Token

/-! ## Expressions -/

/-- A text that is an expression is cut into words, and they assign nothing. -/
theorem Expr.assigns_nothing_of_parse {room : Nat} {text : Text} {e : Expr}
    (h : parse room text = .ok e) :
    ∃ tokens, Token.scan text = .ok tokens ∧ AssignsNothing (tokens.map Token.word) := by
  obtain ⟨tokens, p, hscan, -, hwords, -⟩ := exists_located h
  obtain ⟨found, hfound, hsame⟩ := Token.scan_of_trim hscan
  exact ⟨found, hfound, by rw [hsame, hwords]; exact p.assigns_nothing⟩

/-- In a text that is an expression no operator is found that assigns, so a line that is one is never read
as an assignment; and a text in which such an operator is found is no expression, however much room there
is to parse it. -/
theorem expression_assigns_nothing (text : Text) :
    (∀ room e, Expr.parse room text = .ok e →
      (∃ tokens, Token.scan text = .ok tokens ∧ Token.firstAssignment 0 tokens = none) ∧
        Line.readAssignment? text = .ok none) ∧
    ∀ tokens token, Token.scan text = .ok tokens → Token.firstAssignment 0 tokens = some token →
      ∀ room, ∃ fault, Expr.parse room text = .error fault := by
  have hnone : ∀ room e, Expr.parse room text = .ok e →
      ∃ tokens, Token.scan text = .ok tokens ∧ Token.firstAssignment 0 tokens = none := by
    intro room e hparse
    obtain ⟨tokens, hscan, hcalm⟩ := Expr.assigns_nothing_of_parse hparse
    exact ⟨tokens, hscan, Token.firstAssignment_eq_none hcalm⟩
  refine ⟨fun room e hparse => ⟨hnone room e hparse, ?_⟩, fun tokens token hscan htoken room => ?_⟩
  · obtain ⟨tokens, hscan, hfirst⟩ := hnone room e hparse
    unfold Line.readAssignment?
    rw [hscan]
    dsimp only
    rw [hfirst]
    rfl
  · cases hparse : Expr.parse room text with
    | error fault => exact ⟨fault, rfl⟩
    | ok e =>
      obtain ⟨found, hfound, hfirst⟩ := hnone room e hparse
      obtain rfl : tokens = found := Except.ok.inj (hscan.symm.trans hfound)
      rw [htoken] at hfirst
      cases hfirst

/-- A call with a keyword is an expression; without the call the same words assign. -/
theorem expression_assigns_nothing_keyword :
    (∃ e, Expr.parse 20 "f(a=1)" = .ok e) ∧
      (∃ tokens, Token.scan "f(a=1)" = .ok tokens ∧ Token.firstAssignment 0 tokens = none) ∧
      ∃ tokens token, Token.scan "a=1" = .ok tokens ∧ Token.firstAssignment 0 tokens = some token ∧
        ∃ fault, Expr.parse 20 "a=1" = .error fault := by
  have hcall : (Expr.parse 20 "f(a=1)").toOption.isSome = true := by decide +kernel
  have hscan : Token.scan "a=1" = .ok [⟨.name, "a", 0, 1⟩, ⟨.operator, "=", 1, 2⟩,
      ⟨.number, "1", 2, 3⟩] :=
    Token.scan_eq_ok (by decide +kernel)
  cases hparse : Expr.parse 20 "f(a=1)" with
  | error fault =>
    rw [hparse] at hcall
    cases hcall
  | ok e =>
    exact ⟨⟨e, rfl⟩, ((expression_assigns_nothing _).1 20 e hparse).1, _, _, hscan, rfl,
      (expression_assigns_nothing _).2 _ _ hscan rfl 20⟩

end Scriptlet
