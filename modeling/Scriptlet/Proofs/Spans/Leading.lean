import Scriptlet.Proofs.Spans.Whole
import Scriptlet.Proofs.Text.Joining

/-
  A call at the start of a text.

  Whether a text begins with a name and an opening parenthesis is seen without parsing it. In the
  expression that it is parsed to, this is a call of the function by that name, somewhere among the nodes,
  in which the name stands at the start. The name may also stand in parentheses of its own, as in `(f)(x)`;
  such a call is none of these.

  What is proved:
    1. `Phrase.exists_call` — a phrase that begins with a name and a parenthesis means a call there.
    2. `Phrase.names` — where the name stands that an expression is or calls.
    3. `Expr.beginsWithCall_iff` — a call at the start is seen by the first two tokens.
-/

namespace Scriptlet

open Parse (Stands IsAt spanAt)

namespace Expr

/-- A call of the function by this name. -/
def IsCallOf (name : Text) (e : Expr) : Prop :=
  ∃ span place args keywords, e = .call span (.name place name) args keywords

/-- A node is a call of the function by this name in which the name stands at the start of the text. -/
def BeginsWithCall (name : Text) (e : Expr) : Prop :=
  ∃ n span place args keywords, e.HasNode n ∧ n = .call span (.name place name) args keywords ∧
    place.start = 0

end Expr

variable {tokens : List Token} {span : Nat → Nat → Span} {name : Text}

namespace Phrase

/-! ## A name and a parenthesis in front -/

/-- Two words stand at the start of the first of two parts, or one in each of them. -/
theorem split_two {ws us vs : List Word} {a b : Word} (h : ws ++ us = a :: b :: vs) (hws : ws ≠ []) :
    (∃ ts, ws = a :: b :: ts) ∨ ws = [a] ∧ us = b :: vs := by
  match ws with
  | [] => exact absurd rfl hws
  | [w] =>
    cases h
    exact .inr ⟨rfl, rfl⟩
  | w :: x :: ts =>
    cases h
    exact .inl ⟨ts, rfl⟩

/-- A call of the function by this name is a node, and it and the name begin at `i`. -/
def CallsFrom (span : Nat → Nat → Span) (name : Text) (i : Nat) (e : Expr) : Prop :=
  ∃ n j args keywords, e.HasNode n ∧ n = .call (span i j) (.name (span i (i + 1)) name) args keywords

theorem CallsFrom.child {i : Nat} {e child : Expr} (h : CallsFrom span name i child)
    (hchild : child ∈ e.children) : CallsFrom span name i e := by
  obtain ⟨n, j, args, keywords, hn, hcall⟩ := h
  exact ⟨n, j, args, keywords, .inside hchild hn, hcall⟩

/-- What is to be shown of the phrases of each symbol. Tails and suffixes keep the nodes of what they go
on, and suffixes that begin with a parenthesis call it. -/
def FindsCall (span : Nat → Nat → Span) (name : Text) : {s : Symbol} → Phrase s → Prop
  | .level _, p => ∀ i us, p.words = ⟨.name, name⟩ :: .of "(" :: us →
      CallsFrom span name i (p.located span i i)
  | .tail _, p => ∀ origin i left, CallsFrom span name origin left →
      CallsFrom span name origin (p.located span origin i left)
  | .suffixes, p =>
      (∀ origin i target, CallsFrom span name origin target →
        CallsFrom span name origin (p.located span origin i target)) ∧
      ∀ origin i us, p.words = .of "(" :: us →
        CallsFrom span name origin (p.located span origin i (.name (span origin (origin + 1)) name))
  | _, _ => True

theorem clings_paren (us : List Word) : clings (.of "(" :: us) = 7 :=
  clings_suffix List.mem_cons_self us

theorem FindsCall.chain {t : Tier} {first : Phrase (.level t.operand)} {rest : Phrase (.tail t)}
    (hfirst : first.FindsCall span name) (hrest : rest.FindsCall span name) :
    (Phrase.chain first rest).FindsCall span name := by
  intro i us h
  rcases split_two h (Parse.words_ne_nil first) with ⟨ts, hts⟩ | ⟨-, hop⟩
  · exact hrest i _ _ (hfirst i ts hts)
  · -- No chain goes on with a parenthesis.
    cases rest with
    | tailEnd => cases hop
    | tailMore op htier e rest =>
      have hclings := op.clings_eq htier (e.words ++ rest.words)
      rw [show op.word :: (e.words ++ rest.words) = _ from hop, clings_paren] at hclings
      cases t <;> cases hclings

theorem FindsCall.comparison {first : Phrase (.level (.chain .sum))} {rest : Phrase .comparisons}
    (hfirst : first.FindsCall span name) : (Phrase.comparison first rest).FindsCall span name := by
  intro i us h
  rcases split_two h (Parse.words_ne_nil first) with ⟨ts, hts⟩ | ⟨-, hop⟩
  · have hcall := hfirst i ts hts
    rw [located]
    cases rest.located span (i + first.count) (i + first.count) with
    | nil => exact hcall
    | cons operand operands => exact hcall.child List.mem_cons_self
  · cases rest with
    | comparisonsEnd => cases hop
    | comparisonsMore op e rest =>
      have hclings := op.clings_eq (e.words ++ rest.words)
      rw [show op.words ++ (e.words ++ rest.words) = _ from hop, clings_paren] at hclings
      cases hclings

theorem FindsCall.primary (hconstant : Parse.constant? name = none) {atom : Phrase (.level .atom)}
    {rest : Phrase .suffixes} (hatom : atom.FindsCall span name) (hrest : rest.FindsCall span name) :
    (Phrase.primary atom rest).FindsCall span name := by
  intro i us h
  rcases split_two h (Parse.words_ne_nil atom) with ⟨ts, hts⟩ | ⟨hone, hparen⟩
  · exact hrest.1 i _ _ (hatom i ts hts)
  · cases atom with
    | name text htext =>
      cases hone
      exact hrest.2 i _ us hparen
    | constant text value hvalue =>
      cases hone
      cases hconstant.symm.trans hvalue
    | number text | string text => cases hone
    | unit | group e | tuple e items | list items | dict entries | singleton e | set e items =>
      have hlength := congrArg List.length hone
      simp [words] at hlength

/-- A phrase that begins with a name and a parenthesis means an expression with a call there. -/
theorem exists_call (hname : name ∉ Token.keywords) (hconstant : Parse.constant? name = none) {s : Symbol}
    (p : Phrase s) : p.FindsCall span name := by
  have hoperator : ∀ {text : Text} {ws us : List Word}, text ∈ Token.operators →
      Word.of text :: ws ≠ ⟨.name, name⟩ :: us := by
    intro text ws us hop h
    rw [Word.of_operator hop] at h
    cases h
  induction p with
  | single e ih | compared e ih | unsigned e ih | base e ih => exact ih
  | commas e rest he _ =>
    intro i us h
    rcases split_two h (Parse.words_ne_nil e) with ⟨ts, hts⟩ | ⟨-, hcomma⟩
    · exact (he i ts hts).child List.mem_cons_self
    · exact absurd (List.cons.inj hcomma).1 (by simp)
  | chain first rest hfirst hrest => exact .chain hfirst hrest
  | tailEnd => exact fun _ _ _ h => h
  | tailMore op _ e rest _ hrest =>
    exact fun origin _ _ h => hrest origin _ _ (h.child (by cases op <;> exact List.mem_cons_self))
  | not e _ =>
    intro i us h
    have hnot : Text.ofString "not" = name :=
      (Word.text_of _).symm.trans (congrArg Word.text (List.cons.inj h).1)
    exact absurd (by rw [← hnot]; decide) hname
  | comparison first rest hfirst _ => exact .comparison hfirst
  | signed op hop e _ =>
    intro i us h
    cases op with
    | negative | positive => exact absurd h (hoperator (by decide))
    | not => exact absurd rfl hop
  | power e exponent he _ =>
    intro i us h
    rcases split_two h (Parse.words_ne_nil e) with ⟨ts, hts⟩ | ⟨-, hpow⟩
    · exact (he i ts hts).child List.mem_cons_self
    · exact absurd (List.cons.inj hpow).1 (by simp)
  | primary atom rest hatom hrest => exact .primary hconstant hatom hrest
  | suffixesEnd => exact ⟨fun _ _ _ h => h, fun _ _ _ h => nomatch h⟩
  | call args rest _ hrest =>
    exact ⟨fun origin _ _ h => hrest.1 origin _ _ (h.child List.mem_cons_self),
      fun origin _ _ _ => hrest.1 origin _ _ ⟨_, _, _, _, .here _, rfl⟩⟩
  | attr label _ rest hrest =>
    exact ⟨fun origin _ _ h => hrest.1 origin _ _ (h.child List.mem_cons_self),
      fun _ _ _ h => absurd (List.cons.inj h).1 (by simp)⟩
  | subscript inner rest _ hrest =>
    refine ⟨fun origin i _ h => hrest.1 origin _ _ (h.child ?_),
      fun _ _ _ h => absurd (List.cons.inj h).1 (by simp)⟩
    cases inner.located span (i + 1) (i + 1) <;> exact List.mem_cons_self
  | number text | string text | constant text value _ | name text _ =>
    intro i us h
    cases h
  | unit | group e _ | tuple e rest _ _ | list rest _ | dict rest _ | singleton e _ | set e rest _ _ =>
    exact fun i us h => absurd h (hoperator (by decide))
  | _ => trivial

/-! ## Where a name stands -/

/-- The name that an expression is or calls, with its span, and the word that stands behind it if nothing
stands in front of it. -/
def naming? : Expr → Option (Span × Text × Option Word)
  | .name place name => some (place, name, none)
  | .call _ (.name place name) _ _ => some (place, name, some (.of "("))
  | _ => none

theorem naming?_call {whole place : Span} {callee : Expr} {args : List Expr}
    {keywords : List (Span × Text × Expr)} {next : Option Word}
    (h : naming? (.call whole callee args keywords) = some (place, name, next)) :
    callee = .name place name ∧ next = some (.of "(") := by
  cases callee with
  | name place name =>
    cases h
    exact ⟨rfl, rfl⟩
  | _ => cases h

/-- Among the words, which begin at `i`, is the name, with that span; if it is the first of them, then
`next` comes behind it. -/
def StandsIn (span : Nat → Nat → Span) (i : Nat) (ws : List Word) (place : Span) (name : Text)
    (next : Option Word) : Prop :=
  ∃ d, place = span (i + d) (i + d + 1) ∧ ws[d]? = some ⟨.name, name⟩ ∧ (d = 0 → ws[1]? = next)

theorem StandsIn.cons {i : Nat} {ws : List Word} {place : Span} {next : Option Word}
    (h : StandsIn span (i + 1) ws place name next) (w : Word) (us : List Word) :
    StandsIn span i (w :: (ws ++ us)) place name next := by
  obtain ⟨d, hplace, hword, -⟩ := h
  obtain ⟨hlt, -⟩ := List.getElem?_eq_some_iff.mp hword
  refine ⟨d + 1, by rw [hplace, Nat.add_assoc i 1 d, Nat.add_comm 1 d], ?_, nofun⟩
  rw [List.getElem?_cons_succ, List.getElem?_append_left hlt, hword]

/-- What is to be shown of the phrases of each symbol. Chains make no name and no call, suffixes do not
unless the last of them calls what is named. -/
def Names (span : Nat → Nat → Span) : {s : Symbol} → Phrase s → Prop
  | .level _, p => ∀ i place name next, naming? (p.located span i i) = some (place, name, next) →
      StandsIn span i p.words place name next
  | .tail _, p => ∀ origin i left place name next,
      naming? (p.located span origin i left) = some (place, name, next) →
        p.words = [] ∧ naming? left = some (place, name, next)
  | .suffixes, p => ∀ origin i target place name next,
      naming? (p.located span origin i target) = some (place, name, next) →
        (p.words = [] ∧ naming? target = some (place, name, next)) ∨
          (p.words.head? = next ∧ naming? target = some (place, name, none))
  | _, _ => True

theorem Names.call {args : Phrase (.arguments false)} {rest : Phrase .suffixes} (hrest : rest.Names span) :
    (Phrase.call args rest).Names span := by
  intro origin i target place name next h
  rcases hrest _ _ _ _ _ _ h with ⟨-, h⟩ | ⟨-, h⟩
  · obtain ⟨rfl, rfl⟩ := naming?_call h
    exact .inr ⟨rfl, rfl⟩
  · cases (naming?_call h).2

theorem Names.primary {atom : Phrase (.level .atom)} {rest : Phrase .suffixes} (hatom : atom.Names span)
    (hrest : rest.Names span) : (Phrase.primary atom rest).Names span := by
  intro i place name next h
  rcases hrest _ _ _ _ _ _ h with ⟨hnil, h⟩ | ⟨hhead, h⟩
  · rw [words, hnil, List.append_nil]
    exact hatom i place name next h
  · -- The name stands in front of the suffixes, unless there is a parenthesis before it.
    obtain ⟨d, hplace, hword, hnext⟩ := hatom i place name none h
    obtain ⟨hlt, -⟩ := List.getElem?_eq_some_iff.mp hword
    refine ⟨d, hplace, (List.getElem?_append_left hlt).trans hword, ?_⟩
    rintro rfl
    have hone : atom.words.length = 1 :=
      Nat.le_antisymm (List.getElem?_eq_none_iff.mp (hnext rfl)) hlt
    rw [words, List.getElem?_append_right (Nat.le_of_eq hone), hone, ← hhead, List.head?_eq_getElem?]

/-- Where the name stands that an expression is or calls. -/
theorem names {s : Symbol} (p : Phrase s) : p.Names span := by
  induction p with
  | single e ih | compared e ih | unsigned e ih | base e ih => exact ih
  | chain first rest hfirst hrest =>
    intro i place name next h
    obtain ⟨hnil, h⟩ := hrest _ _ _ _ _ _ h
    rw [words, hnil, List.append_nil]
    exact hfirst i place name next h
  | tailEnd => exact fun _ _ _ _ _ _ h => ⟨rfl, h⟩
  | tailMore op _ e rest _ hrest =>
    intro origin i left place name next h
    have hjoined := (hrest _ _ _ _ _ _ h).2
    cases op <;> cases hjoined
  | comparison first rest hfirst _ =>
    intro i place name next h
    cases rest with
    | comparisonsEnd =>
      rw [words, show (comparisonsEnd).words = [] from rfl, List.append_nil]
      exact hfirst i place name next h
    | comparisonsMore op e rest => cases h
  | primary atom rest hatom hrest => exact .primary hatom hrest
  | suffixesEnd => exact fun _ _ _ _ _ _ h => .inl ⟨rfl, h⟩
  | call args rest _ hrest => exact .call hrest
  | attr label _ rest hrest =>
    intro origin i target place name next h
    rcases hrest _ _ _ _ _ _ h with ⟨-, h⟩ | ⟨-, h⟩ <;> cases h
  | subscript inner rest _ hrest =>
    intro origin i target place name next h
    rw [located] at h
    rcases hrest _ _ _ _ _ _ h with ⟨-, h⟩ | ⟨-, h⟩ <;>
      cases hinner : inner.located span (i + 1) (i + 1) <;> rw [hinner] at h <;> cases h
  | name text _ =>
    intro i place name next h
    cases h
    exact ⟨0, rfl, rfl, fun _ => rfl⟩
  | group e ih => exact fun i place name next h => (ih _ _ _ _ h).cons _ _
  | commas _ _ _ _ | not _ _ | signed _ _ _ _ | power _ _ _ _ | number _ | string _ | constant _ _ _ | unit
  | tuple _ _ _ _ | list _ _ | dict _ _ | singleton _ _ | set _ _ _ _ =>
    intro i place name next h
    cases h
  | _ => trivial

end Phrase

/-! ## Tokens at the start -/

theorem Parse.Stands.isAt {i d : Nat} {ws : List Word} {w : Word} (h : Stands tokens i ws)
    (hw : ws[d]? = some w) : IsAt tokens (i + d) w := by
  induction ws generalizing i d with
  | nil => cases hw
  | cons w' ws ih =>
    obtain ⟨hfirst, hrest⟩ := h
    cases d with
    | zero =>
      cases hw
      exact hfirst
    | succ d =>
      rw [← Nat.add_assoc, Nat.add_right_comm]
      exact ih hrest hw

namespace Token

variable {text : Text}

/-- Only the first token stands at the start. -/
theorem Lexes.eq_zero {start i : Nat} {token : Token} (h : Lexes start text tokens)
    (htoken : tokens[i]? = some token) (hstart : token.start = start) : i = 0 := by
  cases h with
  | nil => cases htoken
  | blank _ hrest =>
    have hle := (hrest.start_le token (List.mem_of_getElem? htoken)).1
    omega
  | token _ hrest =>
    cases i with
    | zero => rfl
    | succ i =>
      have hle := (hrest.start_le token (List.mem_of_getElem? htoken)).1
      omega

/-- Without the blanks in front of it a text is cut into the same tokens. -/
theorem Lexes.trimLeft {start : Nat} (h : Lexes start text tokens) :
    ∃ start', Lexes start' text.trimLeft tokens := by
  induction h with
  | nil start => exact ⟨start, .nil start⟩
  | @blank start n c rest tokens hlexeme _ ih =>
    have hpad := blank_of_lexeme hlexeme
    have hsame : Text.trimLeft (c :: rest) = Text.trimLeft (rest.drop n) := by
      calc Text.trimLeft (c :: rest) = ((c :: rest.take n) ++ rest.drop n).dropWhile CodePoint.isBlank := by
            rw [List.cons_append, List.take_append_drop, Text.trimLeft]
        _ = (rest.drop n).dropWhile CodePoint.isBlank := List.dropWhile_append_of_pos hpad
    rw [hsame]
    exact ih
  | @token start n c rest kind tokens hlexeme hrest _ =>
    refine ⟨start, ?_⟩
    have hblank : c.isBlank = false := by
      cases hc : c.isBlank with
      | false => rfl
      | true =>
        rw [lexeme, if_pos hc] at hlexeme
        cases hlexeme
    rw [Text.trimLeft_eq_self_iff.mpr fun d hd => by cases hd; exact hblank]
    exact .token hlexeme hrest

/-- Behind blanks, the first code point of a text is a parenthesis if the first token is. -/
theorem Lexes.head?_trimLeft_iff {start : Nat} (h : Lexes start text tokens) :
    text.trimLeft.head? = some (CodePoint.ofChar '(') ↔
      ∃ token rest, tokens = token :: rest ∧ token.word = .of "(" := by
  have hoperator : Word.of "(" = ⟨.operator, "("⟩ := Word.of_operator (by decide)
  obtain ⟨start', h⟩ := h.trimLeft
  constructor
  · intro hhead
    obtain ⟨r, hr⟩ := List.head?_eq_some_iff.mp hhead
    have hparen := lexeme_sign (c := CodePoint.ofChar '(') (by decide) r
    rw [hr] at h
    cases h with
    | blank hlexeme _ => cases hparen.symm.trans hlexeme
    | token hlexeme _ =>
      cases hparen.symm.trans hlexeme
      exact ⟨_, _, rfl, hoperator.symm⟩
  · rintro ⟨token, rest, rfl, hword⟩
    rw [hoperator] at hword
    generalize htrimmed : text.trimLeft = r at h
    cases h with
    | blank hlexeme _ =>
      have hblank := blank_of_lexeme hlexeme _ List.mem_cons_self
      rw [Text.head?_trimLeft text _ (by rw [htrimmed]; rfl)] at hblank
      cases hblank
    | token _ _ =>
      have htext := congrArg Word.text hword
      exact congrArg List.head? htext

end Token

namespace Expr

/-- A call of the function by the name stands at the start of a text if and only if the first token is the
name, at the start, and the next one is a parenthesis. -/
theorem beginsWithCall_iff {room : Nat} {text : Text} {e : Expr} (hname : name ∉ Token.keywords)
    (hconstant : Parse.constant? name = none) (hscan : Token.scan text = .ok tokens)
    (hparse : parseWhole room text = .ok e) :
    e.BeginsWithCall name ↔ ∃ first second rest, tokens = first :: second :: rest ∧ first.start = 0 ∧
      first.word = ⟨.name, name⟩ ∧ second.word = .of "(" := by
  obtain ⟨found, p, hfound, hp, hwords, rfl⟩ := exists_located hparse
  obtain rfl : tokens = found := Except.ok.inj (hscan.symm.trans hfound)
  constructor
  · rintro ⟨n, whole, place, args, keywords, hnode, hcall, hstart⟩
    obtain ⟨q, i, hq, hlocated, -⟩ := p.nodes_exact 0 hp n hnode
    have hnaming : Phrase.naming? (q.located (spanAt tokens) i i) = some (place, name, some (.of "(")) := by
      rw [← hlocated, hcall]
      rfl
    obtain ⟨d, rfl, hword, hnext⟩ := q.names i place name _ hnaming
    obtain ⟨first, hfirst, hfirstWord, -⟩ := hq.isAt hword
    rw [Parse.spanAt_eq hfirst hfirst] at hstart
    -- The name is the first token, so it is not in parentheses of its own.
    obtain ⟨rfl, rfl⟩ : i = 0 ∧ d = 0 :=
      Nat.add_eq_zero_iff.mp ((Token.scan_iff.mp hscan).eq_zero hfirst hstart)
    obtain ⟨second, hsecond, hsecondWord, -⟩ := hq.isAt (hnext rfl)
    match tokens, hfirst, hsecond with
    | _ :: _ :: rest, rfl, rfl => exact ⟨first, second, rest, rfl, hstart, hfirstWord, hsecondWord⟩
  · rintro ⟨first, second, rest, rfl, hstart, hfirst, hsecond⟩
    rw [List.map_cons, List.map_cons, hfirst, hsecond] at hwords
    have hfinds : p.FindsCall (spanAt (first :: second :: rest)) name := p.exists_call hname hconstant
    obtain ⟨n, j, args, keywords, hnode, hcall⟩ := hfinds 0 _ hwords.symm
    have hplace : spanAt (first :: second :: rest) 0 1 = ⟨first.start, first.stop⟩ :=
      Parse.spanAt_eq rfl rfl
    exact ⟨n, _, _, args, keywords, hnode, hcall, by rw [hplace]; exact hstart⟩

end Expr

end Scriptlet
