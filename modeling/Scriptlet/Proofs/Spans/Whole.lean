import Scriptlet.Proofs.Spans.Cutting
import Scriptlet.Proofs.Spans.Nodes
import Scriptlet.Proofs.Spans.Reading

/-
  The span of a node is the text that it is parsed from.

  A node is what a list of one expression means among the tokens of the text. Its span is cut into the
  same tokens, so the parser finds a phrase with the same words there, and there is only one.

  What is proved:
    1. `Expr.parseWhole_source` — the span of a node is parsed to that node, but for the spans, which
       count from its own start.
-/

namespace Scriptlet

namespace Parse

variable {tokens found : List Token} {i j k offset : Nat}

theorem spanAt_eq {first last : Token} (hfirst : tokens[i]? = some first)
    (hlast : tokens[j]? = some last) : spanAt tokens i (j + 1) = ⟨first.start, last.stop⟩ := by
  obtain ⟨hlt, rfl⟩ := List.getElem?_eq_some_iff.mp hfirst
  simp only [spanAt, behind, List.drop_eq_getElem_cons hlt, place, stopBefore, hlast, Option.map_some,
    Option.getD_some]

/-- Tokens that are moved have the spans moved. -/
theorem shift_spanAt (hfound : found.map (Token.moved offset) = (tokens.drop i).take k)
    {a b : Nat} (hab : a < b) (hb : b ≤ found.length) :
    (spanAt found a b).shift offset = spanAt tokens (i + a) (i + b) := by
  obtain ⟨b, rfl⟩ := Nat.exists_eq_succ_of_ne_zero (Nat.ne_of_gt (Nat.zero_lt_of_lt hab))
  have hget : ∀ c, c < found.length → ∃ token, found[c]? = some token ∧
      tokens[i + c]? = some (token.moved offset) := by
    intro c hc
    have hmoved := congrArg (·[c]?) hfound
    have hk : c < k := by
      have hlength := congrArg List.length hfound
      rw [List.length_map, List.length_take] at hlength
      omega
    simp only [List.getElem?_map, List.getElem?_eq_getElem hc, Option.map_some, List.getElem?_take,
      if_pos hk, List.getElem?_drop] at hmoved
    exact ⟨found[c], List.getElem?_eq_getElem hc, hmoved.symm⟩
  obtain ⟨first, hfirst, hfirst'⟩ := hget a (by omega)
  obtain ⟨last, hlast, hlast'⟩ := hget b (by omega)
  rw [spanAt_eq hfirst hlast]
  exact (spanAt_eq hfirst' hlast').symm

end Parse

namespace Expr

open Parse (Stands spanAt)

/-- Where a node stands there are tokens, and its span goes from the first of them to the last. -/
theorem IsExact.exists_tokens {tokens : List Token} {n : Expr} (h : n.IsExact tokens) :
    ∃ (p : Phrase (.level .list)) (i k : Nat) (first last : Token), Stands tokens i p.words ∧
      n = p.located (spanAt tokens) i i ∧ p.count = k + 1 ∧ tokens[i]? = some first ∧
        tokens[i + k]? = some last ∧ n.span = ⟨first.start, last.stop⟩ := by
  obtain ⟨p, i, hp, hlocated, hspan⟩ := h
  obtain ⟨k, hk⟩ : ∃ k, p.count = k + 1 := Nat.exists_eq_succ_of_ne_zero (Nat.ne_of_gt p.count_pos)
  have hlt : i < tokens.length := by
    cases hwords : p.words with
    | nil => exact absurd hwords (Parse.words_ne_nil p)
    | cons w ws =>
      rw [hwords] at hp
      exact hp.1.lt
  have hlength : i + (k + 1) ≤ tokens.length := by
    rw [← hk]
    exact hp.length_le (Nat.le_of_lt hlt)
  have hfirst : tokens[i]? = some tokens[i] := List.getElem?_eq_getElem hlt
  have hlast : tokens[i + k]? = some tokens[i + k] := List.getElem?_eq_getElem (by omega)
  refine ⟨p, i, k, _, _, hp, hlocated, hk, hfirst, hlast, ?_⟩
  rw [hspan, hk]
  exact Parse.spanAt_eq hfirst hlast

/-- If an expression is parsed from a text, the span of each of its nodes is parsed to that node, with
the spans counted from its own start. Room for ten rules for each code point is enough. -/
theorem parseWhole_source {room : Nat} {text : Text} {e n : Expr}
    (hparse : parseWhole room text = .ok e) (hnode : e.HasNode n) {room' : Nat}
    (hroom : 10 * (n.source text).length + 10 ≤ room') :
    ∃ n', parseWhole room' (n.source text) = .ok n' ∧
      n'.mapSpans (Span.shift n.span.start) = n := by
  obtain ⟨tokens, p, hscan, hp, -, rfl⟩ := exists_located hparse
  obtain ⟨q, i, k, first, last, hq, rfl, hk, hfirst, hlast, hspan⟩ :=
    (p.nodes_exact 0 hp n hnode).exists_tokens
  obtain ⟨found, hfound, hmoved⟩ := Token.exists_scan_between hscan hfirst hlast
  have hsource : Token.scan ((q.located (spanAt tokens) i i).source text) = .ok found := by
    rw [source, hspan]
    exact hfound
  have hwords : found.map Token.word = q.words := by
    have hbetween := hq.words_eq
    rw [show q.words.length = k + 1 from hk, ← hmoved, List.map_map] at hbetween
    exact hbetween
  have hlexed : Lexed (found.map Token.word) := hwords ▸ hq.lexed
  have hshort : ∀ token ∈ found, token.IsInteger → token.text.length ≤ NumberText.maxDigits :=
    fun token htoken hinteger =>
      (hlexed _ (List.mem_map_of_mem htoken)).short hinteger.1 hinteger.2
  have hlength := (Token.scan_iff.mp hsource).length_le
  obtain ⟨n', hparse', -⟩ := ((parseWhole_iff hsource hshort (by omega : _ ≤ room')).1 _).mpr
    ⟨q, hwords.symm, rfl⟩
  -- What the parser finds has the words of `q`, so it is `q`.
  obtain ⟨found', q', hsource', -, hwords', rfl⟩ := exists_located hparse'
  obtain rfl : found = found' := Except.ok.inj (hsource.symm.trans hsource')
  obtain rfl : q' = q := Phrase.words_injective (hwords'.symm.trans hwords)
  refine ⟨_, hparse', ?_⟩
  have hcount : found.length = q'.count := by rw [Phrase.count, ← hwords, List.length_map]
  rw [hspan]
  exact q'.located_moved (fun _ _ hab hb => Parse.shift_spanAt hmoved hab hb) 0 0 (Nat.le_refl 0)
    (by rw [hcount, Nat.zero_add])

/-- The sum in `2 * (x + 1)` is parsed from its own span, which is without the parentheses. -/
theorem parseWhole_source_sum :
    ∃ whole n', parseWhole 30 "2 * (x + 1)" = .ok whole ∧
      whole.HasNode (.binary ⟨5, 10⟩ .add (.name ⟨5, 6⟩ "x") (.literal ⟨9, 10⟩ (.int 1))) ∧
        parseWhole 60 "x + 1" = .ok n' ∧ n'.mapSpans (Span.shift 5) =
          .binary ⟨5, 10⟩ .add (.name ⟨5, 6⟩ "x") (.literal ⟨9, 10⟩ (.int 1)) := by
  let sum : Expr := .binary ⟨5, 10⟩ .add (.name ⟨5, 6⟩ "x") (.literal ⟨9, 10⟩ (.int 1))
  let whole : Expr := .binary ⟨0, 11⟩ .mul (.literal ⟨0, 1⟩ (.int 2)) sum
  let tokens : List Token := [⟨.number, "2", 0, 1⟩, ⟨.operator, "*", 2, 3⟩, ⟨.operator, "(", 4, 5⟩,
    ⟨.name, "x", 5, 6⟩, ⟨.operator, "+", 7, 8⟩, ⟨.number, "1", 9, 10⟩, ⟨.operator, ")", 10, 11⟩]
  have hscan : Token.scan "2 * (x + 1)" = .ok tokens := by
    have hoption : (Token.scan "2 * (x + 1)").toOption = some tokens := by decide +kernel
    cases hresult : Token.scan "2 * (x + 1)" with
    | error fault =>
      rw [hresult] at hoption
      cases hoption
    | ok found =>
      rw [hresult] at hoption
      exact congrArg Except.ok (Option.some.inj hoption)
  have hparse : parseWhole 30 "2 * (x + 1)" = .ok whole := by
    rw [parseWhole, hscan]
    rfl
  have hnode : whole.HasNode sum :=
    .inside (List.mem_cons_of_mem _ List.mem_cons_self) (.here sum)
  have hsource : sum.source "2 * (x + 1)" = "x + 1" := rfl
  have hroom : 10 * (sum.source "2 * (x + 1)").length + 10 ≤ 60 := by decide
  obtain ⟨n', hparse', hshift⟩ := parseWhole_source hparse hnode hroom
  rw [hsource] at hparse'
  exact ⟨whole, n', hparse, hnode, hparse', hshift⟩

end Expr

end Scriptlet
