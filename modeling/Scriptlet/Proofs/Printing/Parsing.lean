import Scriptlet.Proofs.Printing.Phrases

/-
  Printed expressions are parsed to what they were printed from.

  What is proved:
    1. `Expr.says_words` — the words of a printed expression say the expression at its level.
    2. `Expr.parse_printed` — a printed expression is parsed to the expression it was printed from, and so
       is every other text with the same words.
-/

namespace Scriptlet

namespace Expr

open Scriptlet.Symbol (Says)

variable (extra : Expr → Bool)

theorem length_bareItems : ∀ items : List Expr, (bareItems items).length = items.length
  | [] => rfl
  | _ :: rest => congrArg (· + 1) (length_bareItems rest)

mutual

/-- The words of an expression say it, by induction on the expression. -/
theorem says_words : ∀ {e : Expr}, e.IsPrintable →
    (Symbol.level e.level).Says (e.words extra) e.bare
  | .literal _ value, h => by
    rw [IsPrintable] at h
    rw [words, bare]
    exact .literal h
  | .name _ id, h => by
    rw [IsPrintable] at h
    rw [words, bare]
    exact .name h
  | .list _ items, h => by
    rw [IsPrintable] at h
    rw [words, bare]
    exact .list (says_items h)
  | .tuple span items, h => by
    rw [IsPrintable] at h
    rw [words, bare]
    exact .tuple span (says_items h) (length_bareItems items).symm
  | .set _ items, h => by
    rw [IsPrintable] at h
    rw [words, bare]
    refine .set (says_items h.2) fun hnil => h.1 ?_
    rw [← List.length_eq_zero_iff, ← length_bareItems, hnil, List.length_nil]
  | .dict _ entries, h => by
    rw [IsPrintable] at h
    rw [words, bare]
    exact .dict (says_entries h)
  | .attribute _ target label, h => by
    rw [IsPrintable] at h
    rw [words, bare]
    exact ((says_words h.1).placed .primary).attributed h.2
  | .subscript _ target index, h => by
    rw [IsPrintable] at h
    rw [words, bare]
    exact ((says_words h.1).placed .primary).subscript ((says_words h.2).placed .expression).single
  | .sliced _ target _ lower upper step, h => by
    rw [IsPrintable] at h
    obtain ⟨htarget, hlower, hupper, hstep⟩ := h
    have hslice := Says.slice (says_part hlower) (says_part hupper) (says_part hstep)
    have hcolons : (barePart step).isSome = step.isSome := by cases step <;> rfl
    rw [hcolons] at hslice
    rw [words, bare]
    exact ((says_words htarget).placed .primary).subscript hslice
  | .call _ callee args keywords, h => by
    rw [IsPrintable] at h
    rw [words, bare]
    exact ((says_words h.1).placed .primary).call (.arguments (says_items h.2.1) (says_keywords h.2.2))
  | .unary _ op operand, h => by
    rw [IsPrintable] at h
    rw [words, bare]
    exact .unary op ((says_words h).placed op.level)
  | .binary _ op left right, h => by
    rw [IsPrintable] at h
    rw [words, bare]
    exact .joined (.binary op) ((says_words h.1).placed _) ((says_words h.2).placed _)
  | .boolean _ op left right, h => by
    rw [IsPrintable] at h
    rw [words, bare]
    exact .joined (.boolean op) ((says_words h.1).placed _) ((says_words h.2).placed _)
  | .compare _ left rest, h => by
    rw [IsPrintable] at h
    rw [words, bare]
    refine .compared ((says_words h.1).placed _) (says_operands h.2.2) fun hnil => h.2.1 ?_
    cases rest with
    | nil => rfl
    | cons operand operands => cases hnil

theorem says_items : ∀ {items : List Expr}, ArePrintable items →
    Says.Each (itemWords extra items) (bareItems items)
  | [], _ => .nil
  | e :: items, h => by
    rw [ArePrintable] at h
    rw [itemWords, bareItems]
    exact .cons ((says_words h.1).placed .expression) (says_items h.2)

theorem says_entries : ∀ {entries : List (Expr × Expr)}, ArePrintableEntries entries →
    List.Forall₂ Says.Entry (entryWords extra entries) (bareEntries entries)
  | [], _ => .nil
  | (key, value) :: entries, h => by
    rw [ArePrintableEntries] at h
    rw [entryWords, bareEntries]
    exact .cons ⟨_, _, rfl, (says_words h.1).placed .expression, (says_words h.2.1).placed .expression⟩
      (says_entries h.2.2)

theorem says_part : ∀ {part : Option Expr}, IsPrintablePart part →
    Symbol.part.Says (partWords extra part) (barePart part)
  | none, _ => .absent
  | some e, h => by
    rw [IsPrintablePart] at h
    rw [partWords, barePart]
    exact ((says_words h).placed .expression).present

theorem says_keywords : ∀ {keywords : List (Span × Text × Expr)}, ArePrintableKeywords keywords →
    List.Forall₂ Says.Keyword (keywordWords extra keywords) (bareKeywords keywords)
  | [], _ => .nil
  | (_, label, value) :: keywords, h => by
    rw [ArePrintableKeywords] at h
    rw [keywordWords, bareKeywords]
    exact .cons ⟨_, label, _, rfl, rfl, h.1, (says_words h.2.1).placed .expression⟩ (says_keywords h.2.2)

theorem says_operands : ∀ {operands : List (CompareOp × Expr)}, ArePrintableOperands operands →
    Symbol.comparisons.Says (operandWords extra operands) (bareOperands operands)
  | [], _ => .comparisonsEnd
  | (op, e) :: operands, h => by
    rw [ArePrintableOperands] at h
    rw [operandWords, bareOperands]
    exact .comparisonsMore op ((says_words h.1).placed _) (says_operands h.2)

end

/-! ## Reading back -/

/-- Whatever text has the words of a printed expression is parsed to the expression. -/
theorem exists_parse {e : Expr} (he : e.IsPrintable) {room : Nat}
    (hroom : 10 * (e.words extra).length + 10 ≤ room) {text : Text} {tokens : List Token}
    (hscan : Token.scan text.trim = .ok tokens) (hwords : tokens.map Token.word = e.words extra) :
    ∃ e', parse room text = .ok e' ∧ e'.bare = e.bare := by
  -- The words are those of a phrase that means the expression, and the parser finds that phrase.
  have hlength : tokens.length = (e.words extra).length := by rw [← hwords, List.length_map]
  have hlist : (Symbol.level .list).Says (e.words extra) e.bare :=
    (says_words extra he).widen (Nat.zero_le _)
  obtain ⟨⟨p, hp, hmeaning⟩, hlexical⟩ := hlist
  have hlexed : Lexed (tokens.map Token.word) := Token.scan_lexed hscan fun token htoken hinteger =>
    (hlexical token.word (hwords ▸ List.mem_map_of_mem htoken)).short hinteger.1
  exact exists_parseWhole hscan hlexed ⟨p, hp.trans hwords.symm, hmeaning⟩ (by omega)

/-- An expression that is printed, with any choice of parentheses that are not required, is parsed to
itself but for its spans. So is every other text with the same words. -/
theorem parse_printed {e : Expr} (he : e.IsPrintable) {room : Nat}
    (hroom : 10 * (e.words extra).length + 10 ≤ room) :
    (∃ e', parse room (e.printed extra) = .ok e' ∧ e'.bare = e.bare) ∧
      ∀ text tokens, Token.scan text.trim = .ok tokens → tokens.map Token.word = e.words extra →
        ∃ e', parse room text = .ok e' ∧ e'.bare = e.bare := by
  have hlexical := (says_words extra he).lexical
  obtain ⟨tokens, hscan, hwords⟩ := Token.scan_join hlexical
  rw [← Token.trim_join hlexical] at hscan
  exact ⟨exists_parse extra he hroom hscan hwords,
    fun text tokens hscan hwords => exists_parse extra he hroom hscan hwords⟩

/-- A power of something with a sign to a power. -/
def signedPower : Expr :=
  .binary nowhere .pow (.unary nowhere .negative (.name nowhere "a"))
    (.binary nowhere .pow (.name nowhere "b") (.name nowhere "c"))

/-- The base needs its parentheses and the exponent does not. -/
theorem parse_printed_signedPower :
    signedPower.IsPrintable ∧
      signedPower.printed (fun _ => false) = "( - a ) ** b ** c" ∧
      (∃ e, parse 100 (signedPower.printed fun _ => false) = .ok e ∧ e.bare = signedPower) ∧
      signedPower.printed (fun _ => true) = "( - ( a ) ) ** ( ( b ) ** ( c ) )" ∧
      ∃ e, parse 200 (signedPower.printed fun _ => true) = .ok e ∧ e.bare = signedPower := by
  have hvariable : ∀ name ∈ [("a" : Text), "b", "c"], name.IsVariable := by
    simp only [List.forall_mem_cons]
    exact ⟨⟨rfl, by decide⟩, ⟨rfl, by decide⟩, ⟨rfl, by decide⟩, List.forall_mem_nil _⟩
  have he : signedPower.IsPrintable := by
    simp only [signedPower, IsPrintable]
    exact ⟨hvariable _ (by simp), hvariable _ (by simp), hvariable _ (by simp)⟩
  exact ⟨he, by decide +kernel, (parse_printed (fun _ => false) he (by decide +kernel)).1,
    by decide +kernel, (parse_printed (fun _ => true) he (by decide +kernel)).1⟩

end Expr

end Scriptlet
