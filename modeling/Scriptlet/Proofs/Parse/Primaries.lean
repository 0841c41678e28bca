import Scriptlet.Proofs.Parse.Atoms
import Scriptlet.Proofs.Parse.Subscripts

/-
  What the parser reads is what the grammar derives: atoms and what stands behind them.
-/

namespace Scriptlet

namespace Parse

variable {n : Nat} {item : Parse Expr}

/-! ## Calls, attributes and subscripts -/

theorem not_stops_suffix {w : Word} (hw : w ∈ [.of "(", .of ".", .of "["]) (rest : List Word) :
    ¬ Symbol.suffixes.Stops (w :: rest) := by
  intro h
  have h : clings (w :: rest) < Level.primary.tightness := h
  rw [Phrase.clings_suffix hw] at h
  exact Nat.lt_irrefl _ h

theorem exists_call {p : Phrase .suffixes} {ws r : List Word} (hr : Symbol.suffixes.Stops r)
    (h : .of "(" :: ws = p.words ++ r) :
    ∃ (args : Phrase (.arguments false)) (rest : Phrase .suffixes),
      ws = args.words ++ .of ")" :: (rest.words ++ r) := by
  cases p with
  | suffixesEnd =>
    have h : .of "(" :: ws = r := h
    exact absurd (h ▸ hr) (not_stops_suffix (by simp) ws)
  | call args rest =>
    simp only [Phrase.words, List.cons_append, List.append_assoc, List.cons.injEq, true_and] at h
    exact ⟨args, rest, h⟩
  | attr label _ rest => exact absurd (List.cons.inj h).1 (by simp)
  | subscript i rest => exact absurd (List.cons.inj h).1 (by simp)

theorem exists_attr {p : Phrase .suffixes} {ws r : List Word} (hr : Symbol.suffixes.Stops r)
    (h : .of "." :: ws = p.words ++ r) :
    ∃ (label : Text) (rest : Phrase .suffixes), label ∉ Token.keywords ∧
      ws = ⟨.name, label⟩ :: (rest.words ++ r) := by
  cases p with
  | suffixesEnd =>
    have h : .of "." :: ws = r := h
    exact absurd (h ▸ hr) (not_stops_suffix (by simp) ws)
  | call args rest => exact absurd (List.cons.inj h).1 (by simp)
  | attr label hlabel rest => exact ⟨label, rest, hlabel, (List.cons.inj h).2⟩
  | subscript i rest => exact absurd (List.cons.inj h).1 (by simp)

theorem exists_subscript {p : Phrase .suffixes} {ws r : List Word} (hr : Symbol.suffixes.Stops r)
    (h : .of "[" :: ws = p.words ++ r) :
    ∃ (i : Phrase .index) (rest : Phrase .suffixes),
      ws = i.words ++ .of "]" :: (rest.words ++ r) := by
  cases p with
  | suffixesEnd =>
    have h : .of "[" :: ws = r := h
    exact absurd (h ▸ hr) (not_stops_suffix (by simp) ws)
  | call args rest => exact absurd (List.cons.inj h).1 (by simp)
  | attr label _ rest => exact absurd (List.cons.inj h).1 (by simp)
  | subscript i rest =>
    simp only [Phrase.words, List.cons_append, List.append_assoc, List.cons.injEq, true_and] at h
    exact ⟨i, rest, h⟩

/-- The token that names an attribute, if one comes next. -/
theorem attributeName_cases (c : Cursor) :
    (∃ token c₁, c.rest.head?.filter
        (fun t => t.kind == .name && !Token.keywords.contains t.text) = some token ∧
      advance c = .ok ((), c₁) ∧ token.text ∉ Token.keywords ∧
      c.words = ⟨.name, token.text⟩ :: c₁.words) ∨
    (c.rest.head?.filter (fun t => t.kind == .name && !Token.keywords.contains t.text) = none ∧
      ∀ label rest, label ∉ Token.keywords → c.words ≠ ⟨.name, label⟩ :: rest) := by
  obtain ⟨tokens, lastStop⟩ := c
  cases tokens with
  | nil => exact .inr ⟨rfl, fun _ _ _ h => by cases h⟩
  | cons token tokens =>
    by_cases hname : token.kind = .name ∧ token.text ∉ Token.keywords
    · obtain ⟨hkind, htext⟩ := hname
      refine .inl ⟨token, ⟨tokens, token.stop⟩, by simp [hkind, htext], rfl, htext, ?_⟩
      show token.word :: _ = _
      rw [Token.word, hkind]
      rfl
    · refine .inr ⟨by simpa using hname, fun label rest hlabel h => hname ?_⟩
      have hword : token.word = ⟨.name, label⟩ := (List.cons.inj h).1
      exact ⟨congrArg Word.kind hword, by rw [show token.text = label from congrArg Word.text hword]; exact hlabel⟩

/-- Up to `steps` more suffixes are settled on up to `n` words, behind any target. -/
def ReadsSuffixes (item : Parse Expr) (start steps n : Nat) : Prop :=
  ∀ (target : Expr) (c : Cursor), Lexed c.words → c.words.length ≤ n → c.words.length ≤ steps →
    Settles .suffixes c.words [] (fun e m => e.bare = m target.bare)
      (suffixes item start steps target c)

section Suffix

variable {start steps : Nat} {target : Expr} {c : Cursor}

theorem call_settles (hitem : Reads .expression item n) (hrest : ReadsSuffixes item start steps n)
    (hc : Lexed c.words) (hn : c.words.length < n) (hsteps : c.words.length ≤ steps) :
    Settles .suffixes (.of "(" :: c.words) [] (fun e m => e.bare = m target.bare)
      ((do
        let (args, keywords) ← argumentsUpTo item ((← get).rest.length + 1) [] []
        suffixes item start steps (.call (← spanFrom start) target args keywords) : Parse Expr) c) := by
  rw [bind_of_ok (get_apply c)]
  refine (argumentsUpTo_settles hitem (c.rest.length + 1) [] [] c hc (by omega)
    (by rw [Cursor.length_words]; exact Nat.lt_succ_self _)).bind_elim
    (fun (args, keywords) c₁ p hsplit hstop hview => ?_)
    fun fault hfault hno => ⟨hfault, fun q r hr heq => ?_⟩
  · have hlength := congrArg List.length hsplit
    simp only [List.length_append, List.length_cons, List.length_nil] at hlength
    simp only [bind_of_ok (spanFrom_apply start c₁)]
    refine (hrest (.call ⟨start, c₁.lastStop⟩ target args keywords) c₁
      (hsplit ▸ hc).of_append.of_append (by omega) (by omega)).elim
      (fun whole c₂ rest hsplit₁ hstop₁ hview₁ => ⟨.call p rest, ?_, hstop₁, ?_⟩)
      fun fault hfault hno => ⟨hfault, fun q r hr heq => ?_⟩
    · rw [hsplit, hsplit₁]
      simp only [Phrase.words, List.append_assoc, List.cons_append, List.nil_append]
    · show whole.bare = rest.meaning (.call Expr.nowhere target.bare p.meaning.1 p.meaning.2)
      have hargs : Expr.bareItems args = p.meaning.1 := hview.1
      have hkeywords : Expr.bareKeywords keywords = p.meaning.2 := hview.2
      rw [hview₁, Expr.bare, hargs, hkeywords]
    · obtain ⟨args', rest, hmore⟩ := exists_call hr heq
      obtain ⟨-, hend⟩ := p.decodes args' _ _ hstop (closes_cons bracket_mem_closers _)
        (hsplit.symm.trans hmore)
      exact hno rest r hr (List.cons.inj hend).2
  · obtain ⟨args', rest, hmore⟩ := exists_call hr heq
    exact hno args' _ (closes_cons bracket_mem_closers _) hmore

theorem attribute_settles (hrest : ReadsSuffixes item start steps n) (hc : Lexed c.words)
    (hn : c.words.length < n) (hsteps : c.words.length ≤ steps) :
    Settles .suffixes (.of "." :: c.words) [] (fun e m => e.bare = m target.bare)
      ((do
        match (← peek).filter (fun t => t.kind == .name && !Token.keywords.contains t.text) with
        | some token =>
          advance
          suffixes item start steps (.attribute (← spanFrom start) target token.text)
        | none => refuse .attributeName : Parse Expr) c) := by
  rw [bind_of_ok (peek_apply c)]
  rcases attributeName_cases c with ⟨token, c₁, hname, hadvance, hlabel, hwords⟩ | ⟨hname, hnot⟩
  · have hlength : c.words.length = c₁.words.length + 1 := by rw [hwords, List.length_cons]
    simp only [hname, bind_of_ok hadvance, bind_of_ok (spanFrom_apply start c₁)]
    refine (hrest (.attribute ⟨start, c₁.lastStop⟩ target token.text) c₁ (hwords ▸ hc).tail
      (by omega) (by omega)).elim
      (fun whole c₂ rest hsplit hstop hview => ⟨.attr token.text hlabel rest, ?_, hstop, hview⟩)
      fun fault hfault hno => ⟨hfault, fun q r hr heq => ?_⟩
    · rw [hwords, hsplit]
      simp only [Phrase.words, List.cons_append]
    · obtain ⟨label, rest, -, hmore⟩ := exists_attr hr heq
      exact hno rest r hr (List.cons.inj (hwords.symm.trans hmore)).2
  · obtain ⟨fault, hrefuse, hfault⟩ := refuse_isRefusal (α := Expr) .attributeName c
    simp only [hname, hrefuse]
    refine ⟨hfault, fun q r hr heq => ?_⟩
    obtain ⟨label, rest, hlabel, hmore⟩ := exists_attr hr heq
    exact hnot label _ hlabel hmore

theorem subscripted_settles (hitem : Reads .expression item n)
    (hrest : ReadsSuffixes item start steps n) (hc : Lexed c.words) (hn : c.words.length < n)
    (hsteps : c.words.length ≤ steps) :
    Settles .suffixes (.of "[" :: c.words) [] (fun e m => e.bare = m target.bare)
      ((do
        let index ← subscript item
        expect "]"
        let span ← spanFrom start
        suffixes item start steps <| match index with
          | .single index => .subscript span target index
          | .slice bounds lower upper step => .sliced span target bounds lower upper step : Parse Expr) c) := by
  have hindex := subscript_settles hitem c hc (Nat.le_of_lt hn)
  match hresult : subscript item c, hindex with
  | .error fault, ⟨hfault, hno⟩ =>
    rw [bind_of_error hresult]
    refine ⟨hfault, fun q r hr heq => ?_⟩
    obtain ⟨i, rest, hmore⟩ := exists_subscript hr heq
    exact hno i _ hmore
  | .ok (i, c₁), ⟨p, r₁, hclose, hsplit, hview⟩ =>
    rw [bind_of_ok hresult]
    refine expect_bind_elim (hsplit ▸ hc).of_append (fun c₂ hc₂ hwords => ?_)
      fun _ _ hne => absurd (congrArg List.head? hclose) hne
    have hlength := congrArg List.length hsplit
    rw [List.length_append, hwords, List.length_cons] at hlength
    rw [bind_of_ok (spanFrom_apply start c₂)]
    refine (hrest _ c₂ hc₂ (by omega) (by omega)).elim
      (fun whole c₃ rest hsplit₁ hstop₁ hview₁ => ⟨.subscript p rest, ?_, hstop₁, ?_⟩)
      fun fault hfault hno => ⟨hfault, fun q r hr heq => ?_⟩
    · rw [hsplit, hwords, hsplit₁]
      simp only [Phrase.words, List.append_assoc, List.cons_append]
    · show whole.bare = rest.meaning (p.meaning.apply target.bare)
      rw [hview₁, ← hview]
      cases i <;> rfl
    · obtain ⟨i', rest, hmore⟩ := exists_subscript hr heq
      rw [hsplit, hwords] at hmore
      obtain ⟨-, hend⟩ := p.decodes i' _ _ (closes_cons square_mem_closers _)
        (closes_cons square_mem_closers _) hmore
      exact hno rest r hr (List.cons.inj hend).2

end Suffix

theorem suffixes_settles (hitem : Reads .expression item n) (start steps : Nat) :
    ReadsSuffixes item start steps n := by
  induction steps with
  | zero =>
    intro target c hc hn hsteps
    have hnil : c.words = [] := List.length_eq_zero_iff.mp (Nat.le_zero.mp hsteps)
    rw [suffixes, pure_apply]
    exact ⟨.suffixesEnd, rfl, by rw [hnil]; exact Phrase.stops_nil _, rfl⟩
  | succ steps ih =>
    intro target c hc hn hsteps
    have hshorter : ∀ {w : Word} {c₁ : Cursor}, c.words = w :: c₁.words →
        c.words.length = c₁.words.length + 1 :=
      fun hwords => by rw [hwords, List.length_cons]
    rw [suffixes]
    refine ite_accept_elim hc (fun c₁ hc₁ hwords => ?_) fun hnocall => ?_
    · have hlength := hshorter hwords
      rw [hwords]
      exact call_settles hitem ih hc₁ (by omega) (by omega)
    refine ite_accept_elim hc (fun c₁ hc₁ hwords => ?_) fun hnodot => ?_
    · have hlength := hshorter hwords
      rw [hwords]
      exact attribute_settles ih hc₁ (by omega) (by omega)
    refine ite_accept_elim hc (fun c₁ hc₁ hwords => ?_) fun hnoopen => ?_
    · have hlength := hshorter hwords
      rw [hwords]
      exact subscripted_settles hitem ih hc₁ (by omega) (by omega)
    refine ⟨.suffixesEnd, rfl, ?_, rfl⟩
    show clings c.words < Level.primary.tightness
    refine Nat.lt_of_not_le fun hclings => ?_
    obtain ⟨w, hw, hhead⟩ := head_of_clings_primary hclings
    simp only [List.mem_cons, List.not_mem_nil, or_false] at hw
    rcases hw with rfl | rfl | rfl
    · exact hnocall hhead
    · exact hnodot hhead
    · exact hnoopen hhead

/-! ## Primaries -/

theorem primary_reads {room : Nat} (hitem : 0 < n → Reads .expression (expression room) (n - 1)) :
    Reads .primary (primary (room + 1)) n := by
  intro c hc hn
  rw [primary, bind_of_ok (position_apply c)]
  refine (atom_reads hitem).bind_elim hc hn (fun target c₁ e hc₁ hlt hsplit hstop hview honly => ?_)
    fun fault hfault hno => ⟨hfault, fun p r hr heq => ?_⟩
  · rw [bind_of_ok (get_apply c₁)]
    refine (suffixes_settles (hitem (by omega)) (place c) c₁.rest.length target c₁ hc₁ (by omega)
      (Nat.le_of_eq c₁.length_words)).elim
      (fun whole c₂ rest hsplit₂ hstop₂ hview₂ => ⟨.primary e rest, ?_, hstop₂, ?_⟩)
      fun fault hfault hno => ⟨hfault, fun p r hr heq => ?_⟩
    · rw [hsplit, hsplit₂]
      simp only [Phrase.words, List.append_assoc]
    · show whole.bare = rest.meaning e.meaning
      rw [hview₂, hview]
    · cases p with
      | primary e' rest =>
        simp only [Phrase.words, List.append_assoc] at heq
        exact hno rest r hr (honly e' _ (stops_atom _) heq)
  · cases p with
    | primary e rest =>
      simp only [Phrase.words, List.append_assoc] at heq
      exact hno e _ (stops_atom _) heq

end Parse

end Scriptlet
