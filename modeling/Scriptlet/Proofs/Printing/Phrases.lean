import Mathlib.Data.List.Forall2
import Scriptlet.Proofs.Printing.Scanning
import Scriptlet.Proofs.Spans

/-
  Words that say something.

  Words say something at a symbol of the grammar (`Symbol.Says`) when a phrase of the symbol is written
  with them and means it. There is one lemma for each way to put words together, in the order of the
  grammar but for the levels, which come first: what is said at a level is said at every looser one
  (`widen`), and in parentheses at every level (`parenthesized`), so that what is placed where a level is
  asked for is said at that level (`placed`).
-/

namespace Scriptlet

/-- The words are words of a phrase of the symbol that means `m`, and each of them stands by itself. -/
structure Symbol.Says (s : Symbol) (ws : List Word) (m : s.Meaning) : Prop where
  derived : ∃ p : Phrase s, p.words = ws ∧ p.meaning = m
  lexical : ∀ w ∈ ws, w.IsLexical

namespace Level

theorem rank_looser (l : Level) : l.looser.rank = l.rank - 1 := by
  cases l with
  | chain t => cases t <;> rfl
  | _ => rfl

theorem rank_le_atom (l : Level) : l.rank ≤ Level.atom.rank := by
  cases l with
  | chain t => cases t <;> decide
  | _ => decide

theorem rank_injective : Function.Injective rank := by
  have hback : ∀ l : Level, Level.looser^[10 - l.rank] .atom = l := by
    intro l
    cases l with
    | chain t => cases t <;> rfl
    | _ => rfl
  intro l l' h
  rw [← hback l, h, hback l']

end Level

namespace Symbol.Says

/-! ## Levels -/

section
variable {l : Level} {ws : List Word} {m : Expr}

theorem looser (h : (Symbol.level l).Says ws m) : (Symbol.level l.looser).Says ws m := by
  obtain ⟨⟨p, rfl, rfl⟩, hlexical⟩ := h
  refine ⟨?_, hlexical⟩
  -- A phrase becomes one of the looser level without another word.
  cases l with
  | list => exact ⟨p, rfl, rfl⟩
  | chain t =>
    cases t with
    | or => exact ⟨.single p, rfl, rfl⟩
    | and => exact ⟨.chain (t := .or) p .tailEnd, List.append_nil _, rfl⟩
    | sum => exact ⟨.comparison p .comparisonsEnd, List.append_nil _, rfl⟩
    | product => exact ⟨.chain (t := .sum) p .tailEnd, List.append_nil _, rfl⟩
  | negation => exact ⟨.chain (t := .and) p .tailEnd, List.append_nil _, rfl⟩
  | comparison => exact ⟨.compared p, rfl, rfl⟩
  | factor => exact ⟨.chain (t := .product) p .tailEnd, List.append_nil _, rfl⟩
  | power => exact ⟨.unsigned p, rfl, rfl⟩
  | primary => exact ⟨.base p, rfl, rfl⟩
  | atom => exact ⟨.primary p .suffixesEnd, List.append_nil _, rfl⟩

/-- What is said at a level is said at every looser one. -/
theorem widen {l' : Level} (h : (Symbol.level l).Says ws m) (hrank : l'.rank ≤ l.rank) :
    (Symbol.level l').Says ws m := by
  induction hsteps : l.rank - l'.rank generalizing l with
  | zero =>
    obtain rfl : l = l' := Level.rank_injective (Nat.le_antisymm (Nat.le_of_sub_eq_zero hsteps) hrank)
    exact h
  | succ n ih =>
    have hlooser := Level.rank_looser l
    exact ih h.looser (by omega) (by omega)

theorem bracketed {opening closing : Text} (hopening : opening ∈ Token.operators)
    (hclosing : closing ∈ Token.operators) (hws : ∀ w ∈ ws, w.IsLexical) :
    ∀ w ∈ Expr.bracketed opening closing ws, w.IsLexical := by
  rw [Expr.bracketed, List.forall_mem_cons, List.forall_mem_append, List.forall_mem_singleton]
  exact ⟨Word.isLexical_of (.inl hopening), hws, Word.isLexical_of (.inl hclosing)⟩

/-- In parentheses everything is an atom, a list with commas too. -/
theorem parenthesized (h : (Symbol.level l).Says ws m) :
    (Symbol.level .atom).Says (Expr.bracketed "(" ")" ws) m := by
  have hlist : (Symbol.level .list).Says ws m := h.widen (Nat.zero_le _)
  obtain ⟨⟨p, rfl, rfl⟩, hlexical⟩ := hlist
  refine ⟨?_, bracketed (by decide) (by decide) hlexical⟩
  cases p with
  | single e => exact ⟨.group e, rfl, rfl⟩
  | commas e rest =>
    refine ⟨.tuple e rest, ?_, rfl⟩
    simp only [Phrase.words, Expr.bracketed, List.append_assoc, List.cons_append]

theorem placed {extra : Expr → Bool} {e : Expr} (h : (Symbol.level e.level).Says ws m) (l : Level) :
    (Symbol.level l).Says (Expr.placed extra l e ws) m := by
  unfold Expr.placed
  split
  · exact h.parenthesized.widen (Level.rank_le_atom l)
  · rename_i hplain
    rw [Bool.or_eq_true, not_or, decide_eq_true_eq, Nat.not_lt] at hplain
    exact h.widen hplain.2

end

/-! ## Atoms -/

theorem literal {value : Literal} (h : value.IsPrintable) :
    (Symbol.level .atom).Says value.words (.literal Expr.nowhere value) := by
  cases value with
  | none =>
    exact ⟨⟨.constant "None" .none rfl, rfl, rfl⟩,
      List.forall_mem_singleton.mpr (Word.isLexical_name (by decide))⟩
  | bool b =>
    cases b
    · exact ⟨⟨.constant "False" (.bool false) rfl, rfl, rfl⟩,
        List.forall_mem_singleton.mpr (Word.isLexical_name (by decide))⟩
    · exact ⟨⟨.constant "True" (.bool true) rfl, rfl, rfl⟩,
        List.forall_mem_singleton.mpr (Word.isLexical_name (by decide))⟩
  | int n =>
    refine ⟨⟨.number (Text.ofNat n), rfl, ?_⟩, List.forall_mem_singleton.mpr (Word.isLexical_number h)⟩
    rw [Phrase.meaning, Data.ofNumber_ofNat]
  | float x => exact h.elim
  | text t =>
    refine ⟨⟨.string t.between, rfl, ?_⟩, List.forall_mem_singleton.mpr (Word.isLexical_string h)⟩
    have hinside : (t.between.drop 1).take (t.between.length - 2) = t := by
      simp [Text.between]
    rw [Phrase.meaning, hinside]

theorem name {id : Text} (h : id.IsVariable) :
    (Symbol.level .atom).Says [⟨.name, id⟩] (.name Expr.nowhere id) :=
  ⟨⟨.name id h.notKeyword, rfl, rfl⟩,
    List.forall_mem_singleton.mpr (Word.isLexical_name h.identifier)⟩

/-! ## Items and entries -/

section
variable {ws us : List Word} {m : Expr} {ms : List Expr}

theorem comma (hws : ∀ w ∈ ws, w.IsLexical) (hus : ∀ w ∈ us, w.IsLexical) :
    ∀ w ∈ ws ++ .of "," :: us, w.IsLexical := by
  rw [List.forall_mem_append, List.forall_mem_cons]
  exact ⟨hws, Word.isLexical_of (.inl (by decide)), hus⟩

theorem item (h : (Symbol.level .expression).Says ws m) : Symbol.items.Says ws [m] := by
  obtain ⟨⟨p, rfl, rfl⟩, hlexical⟩ := h
  exact ⟨⟨.item p, rfl, rfl⟩, hlexical⟩

theorem itemMore (h : (Symbol.level .expression).Says ws m) (hrest : Symbol.items.Says us ms) :
    Symbol.items.Says (ws ++ .of "," :: us) (m :: ms) := by
  obtain ⟨⟨p, rfl, rfl⟩, hlexical⟩ := h
  obtain ⟨⟨q, rfl, rfl⟩, hmore⟩ := hrest
  exact ⟨⟨.itemMore p q, rfl, rfl⟩, comma hlexical hmore⟩

theorem commas (h : (Symbol.level .expression).Says ws m) (hrest : Symbol.items.Says us ms) :
    (Symbol.level .list).Says (ws ++ .of "," :: us) (.tuple Expr.nowhere (m :: ms)) := by
  obtain ⟨⟨p, rfl, rfl⟩, hlexical⟩ := h
  obtain ⟨⟨q, rfl, rfl⟩, hmore⟩ := hrest
  exact ⟨⟨.commas p q, rfl, rfl⟩, comma hlexical hmore⟩

theorem singleton (h : (Symbol.level .expression).Says ws m) :
    (Symbol.level .atom).Says (Expr.bracketed "\x7b" "\x7d" ws) (.set Expr.nowhere [m]) := by
  obtain ⟨⟨p, rfl, rfl⟩, hlexical⟩ := h
  exact ⟨⟨.singleton p, rfl, rfl⟩, bracketed (by decide) (by decide) hlexical⟩

theorem members (h : (Symbol.level .expression).Says ws m) (hrest : Symbol.items.Says us ms) :
    (Symbol.level .atom).Says (Expr.bracketed "\x7b" "\x7d" (ws ++ .of "," :: us))
      (.set Expr.nowhere (m :: ms)) := by
  obtain ⟨⟨p, rfl, rfl⟩, hlexical⟩ := h
  obtain ⟨⟨q, rfl, rfl⟩, hmore⟩ := hrest
  refine ⟨⟨.set p q, ?_, rfl⟩, bracketed (by decide) (by decide) (comma hlexical hmore)⟩
  simp only [Phrase.words, Expr.bracketed, List.append_assoc, List.cons_append]

end

/-- The words in the list say the expressions one by one. -/
abbrev Each (wss : List (List Word)) (ms : List Expr) : Prop :=
  List.Forall₂ (Symbol.level .expression).Says wss ms

section
variable {wss : List (List Word)} {ms : List Expr}

theorem items (h : Each wss ms) : Symbol.items.Says (Data.withCommas wss) ms := by
  induction h with
  | nil => exact ⟨⟨.itemsEnd, rfl, rfl⟩, List.forall_mem_nil _⟩
  | cons hfirst hrest ih =>
    cases hrest with
    | nil => exact hfirst.item
    | cons _ _ => exact hfirst.itemMore ih

theorem list (h : Each wss ms) :
    (Symbol.level .atom).Says (Expr.bracketed "[" "]" (Data.withCommas wss)) (.list Expr.nowhere ms) := by
  obtain ⟨⟨p, hwords, rfl⟩, hlexical⟩ := items h
  exact ⟨⟨.list p, by rw [Phrase.words, hwords]; rfl, rfl⟩, bracketed (by decide) (by decide) hlexical⟩

theorem set (h : Each wss ms) (hne : ms ≠ []) :
    (Symbol.level .atom).Says (Expr.bracketed "\x7b" "\x7d" (Data.withCommas wss))
      (.set Expr.nowhere ms) := by
  cases h with
  | nil => exact absurd rfl hne
  | cons hfirst hrest =>
    cases hrest with
    | nil => exact hfirst.singleton
    | cons hnext hmore => exact hfirst.members (items (.cons hnext hmore))

/-- A tuple is an atom if it is empty, and else a list with commas. -/
theorem tuple {parts : List Expr} (span : Span) (h : Each wss ms) (hlength : parts.length = ms.length) :
    (Symbol.level (Expr.tuple span parts).level).Says (Expr.tupleWords wss) (.tuple Expr.nowhere ms) := by
  cases h with
  | nil =>
    obtain rfl := List.eq_nil_of_length_eq_zero hlength
    exact ⟨⟨.unit, rfl, rfl⟩, bracketed (by decide) (by decide) (List.forall_mem_nil _)⟩
  | cons hfirst hrest =>
    obtain ⟨part, parts, rfl⟩ := List.exists_cons_of_length_eq_add_one hlength
    cases hrest with
    | nil => exact hfirst.commas (items .nil)
    | cons hnext hmore => exact hfirst.commas (items (.cons hnext hmore))

end

/-! ### Entries -/

/-- The words say the key and the value of the entry. -/
def Entry (ws : List Word) (m : Expr × Expr) : Prop :=
  ∃ ks vs, ws = Data.entryWords ks vs ∧ (Symbol.level .expression).Says ks m.1 ∧
    (Symbol.level .expression).Says vs m.2

section
variable {ws us : List Word} {m : Expr × Expr} {ms : List (Expr × Expr)}

theorem colon {key value : List Word} (hkey : ∀ w ∈ key, w.IsLexical) (hvalue : ∀ w ∈ value, w.IsLexical) :
    ∀ w ∈ key ++ .of ":" :: value, w.IsLexical := by
  rw [List.forall_mem_append, List.forall_mem_cons]
  exact ⟨hkey, Word.isLexical_of (.inl (by decide)), hvalue⟩

theorem entry (h : Entry ws m) : Symbol.entries.Says ws [m] := by
  obtain ⟨ks, vs, rfl, ⟨⟨p, rfl, hkey⟩, hks⟩, ⟨q, rfl, hvalue⟩, hvs⟩ := h
  exact ⟨⟨.entry p q, rfl, by rw [Phrase.meaning, hkey, hvalue]⟩, colon hks hvs⟩

theorem entryMore (h : Entry ws m) (hrest : Symbol.entries.Says us ms) :
    Symbol.entries.Says (ws ++ .of "," :: us) (m :: ms) := by
  obtain ⟨ks, vs, rfl, ⟨⟨p, rfl, hkey⟩, hks⟩, ⟨q, rfl, hvalue⟩, hvs⟩ := h
  obtain ⟨⟨r, rfl, rfl⟩, hmore⟩ := hrest
  refine ⟨⟨.entryMore p q r, ?_, by rw [Phrase.meaning, hkey, hvalue]⟩, comma (colon hks hvs) hmore⟩
  simp only [Phrase.words, Data.entryWords, List.append_assoc, List.cons_append]

theorem entries {wss : List (List Word)} (h : List.Forall₂ Entry wss ms) :
    Symbol.entries.Says (Data.withCommas wss) ms := by
  induction h with
  | nil => exact ⟨⟨.entriesEnd, rfl, rfl⟩, List.forall_mem_nil _⟩
  | cons hfirst hrest ih =>
    cases hrest with
    | nil => exact entry hfirst
    | cons _ _ => exact entryMore hfirst ih

theorem dict {wss : List (List Word)} (h : List.Forall₂ Entry wss ms) :
    (Symbol.level .atom).Says (Expr.bracketed "\x7b" "\x7d" (Data.withCommas wss))
      (.dict Expr.nowhere ms) := by
  obtain ⟨⟨p, hwords, rfl⟩, hlexical⟩ := entries h
  exact ⟨⟨.dict p, by rw [Phrase.words, hwords]; rfl, rfl⟩, bracketed (by decide) (by decide) hlexical⟩

end

/-! ## Behind an atom -/

section
variable {ws us : List Word} {m k : Expr}

/-- What stands behind an atom can be followed by more. -/
theorem exists_suffixes_append : ∀ p q : Phrase .suffixes, ∃ r : Phrase .suffixes,
    r.words = p.words ++ q.words ∧ ∀ target, r.meaning target = q.meaning (p.meaning target)
  | .suffixesEnd, q => ⟨q, rfl, fun _ => rfl⟩
  | .call args p, q => by
    obtain ⟨r, hwords, hmeaning⟩ := exists_suffixes_append p q
    refine ⟨.call args r, ?_, fun _ => hmeaning _⟩
    simp only [Phrase.words, hwords, List.append_assoc, List.cons_append]
  | .attr label hlabel p, q => by
    obtain ⟨r, hwords, hmeaning⟩ := exists_suffixes_append p q
    refine ⟨.attr label hlabel r, ?_, fun _ => hmeaning _⟩
    simp only [Phrase.words, hwords, List.cons_append]
  | .subscript i p, q => by
    obtain ⟨r, hwords, hmeaning⟩ := exists_suffixes_append p q
    refine ⟨.subscript i r, ?_, fun _ => hmeaning _⟩
    simp only [Phrase.words, hwords, List.append_assoc, List.cons_append]

theorem suffixed (h : (Symbol.level .primary).Says ws m) (q : Phrase .suffixes)
    (hq : ∀ w ∈ q.words, w.IsLexical) :
    (Symbol.level .primary).Says (ws ++ q.words) (q.meaning m) := by
  obtain ⟨⟨p, rfl, rfl⟩, hlexical⟩ := h
  refine ⟨?_, List.forall_mem_append.mpr ⟨hlexical, hq⟩⟩
  cases p with
  | primary first rest =>
    obtain ⟨r, hwords, hmeaning⟩ := exists_suffixes_append rest q
    refine ⟨.primary first r, ?_, hmeaning _⟩
    simp only [Phrase.words, hwords, List.append_assoc]

theorem attributed {label : Text} (h : (Symbol.level .primary).Says ws m) (hlabel : label.IsVariable) :
    (Symbol.level .primary).Says (ws ++ [.of ".", ⟨.name, label⟩]) (.attribute Expr.nowhere m label) := by
  refine h.suffixed (.attr label hlabel.notKeyword .suffixesEnd) ?_
  exact List.forall_mem_cons.mpr ⟨Word.isLexical_of (.inl (by decide)),
    List.forall_mem_singleton.mpr (Word.isLexical_name hlabel.identifier)⟩

theorem subscript {index : Parse.Index} (h : (Symbol.level .primary).Says ws m)
    (hindex : Symbol.index.Says us index) :
    (Symbol.level .primary).Says (ws ++ Expr.bracketed "[" "]" us) (index.apply m) := by
  obtain ⟨⟨i, rfl, rfl⟩, hus⟩ := hindex
  exact h.suffixed (.subscript i .suffixesEnd) (bracketed (by decide) (by decide) hus)

theorem call {arguments : List Expr × List (Span × Text × Expr)}
    (h : (Symbol.level .primary).Says ws m) (harguments : (Symbol.arguments false).Says us arguments) :
    (Symbol.level .primary).Says (ws ++ Expr.bracketed "(" ")" us)
      (.call Expr.nowhere m arguments.1 arguments.2) := by
  obtain ⟨⟨args, rfl, rfl⟩, hus⟩ := harguments
  exact h.suffixed (.call args .suffixesEnd) (bracketed (by decide) (by decide) hus)

end

/-! ### Subscripts -/

section
variable {ls us : List Word} {lower upper step : Option Expr}

theorem single {m : Expr} (h : (Symbol.level .expression).Says us m) :
    Symbol.index.Says us (.single m) := by
  obtain ⟨⟨p, rfl, rfl⟩, hlexical⟩ := h
  exact ⟨⟨.index p, rfl, rfl⟩, hlexical⟩

theorem absent : Symbol.part.Says [] none := ⟨⟨.absent, rfl, rfl⟩, List.forall_mem_nil _⟩

theorem present {m : Expr} (h : (Symbol.level .expression).Says us m) : Symbol.part.Says us (some m) := by
  obtain ⟨⟨p, rfl, rfl⟩, hlexical⟩ := h
  exact ⟨⟨.present p, rfl, rfl⟩, hlexical⟩

/-- A slice without a step has one colon, and one with a step has two. -/
theorem slice {ss : List Word} (hlower : Symbol.part.Says ls lower) (hupper : Symbol.part.Says us upper)
    (hstep : Symbol.part.Says ss step) :
    Symbol.index.Says (ls ++ .of ":" :: (us ++ (if step.isSome then .of ":" :: ss else [])))
      (.slice Expr.nowhere lower upper step) := by
  obtain ⟨⟨p, rfl, rfl⟩, hls⟩ := hlower
  obtain ⟨⟨q, rfl, rfl⟩, hus⟩ := hupper
  obtain ⟨⟨r, rfl, hvalue⟩, hss⟩ := hstep
  cases step with
  | none =>
    refine ⟨⟨.slice p (.bound q), ?_, rfl⟩, colon hls ?_⟩
    · simp [Phrase.words]
    · simpa using hus
  | some e =>
    refine ⟨⟨.slice p (.boundMore q (.bound r)), rfl, ?_⟩, colon hls (colon hus hss)⟩
    simp only [Phrase.meaning, hvalue, Parse.Index.ofBounds]

end

/-! ### Arguments -/

/-- The words say the value of the argument behind its name. -/
def Keyword (ws : List Word) (m : Span × Text × Expr) : Prop :=
  ∃ vs label value, ws = ⟨.name, label⟩ :: .of "=" :: vs ∧ m = (Expr.nowhere, label, value) ∧
    label.IsVariable ∧ (Symbol.level .expression).Says vs value

section
variable {ws us : List Word}

theorem named {label : Text} (hlabel : label.IsVariable) (hus : ∀ w ∈ us, w.IsLexical) :
    ∀ w ∈ (⟨.name, label⟩ : Word) :: .of "=" :: us, w.IsLexical :=
  List.forall_mem_cons.mpr ⟨Word.isLexical_name hlabel.identifier,
    List.forall_mem_cons.mpr ⟨Word.isLexical_of (.inl (by decide)), hus⟩⟩

theorem keywords {wss : List (List Word)} {ms : List (Span × Text × Expr)}
    (h : List.Forall₂ Keyword wss ms) :
    ∀ hasName, (Symbol.arguments hasName).Says (Data.withCommas wss) ([], ms) := by
  induction h with
  | nil => exact fun _ => ⟨⟨.argumentsEnd, rfl, rfl⟩, List.forall_mem_nil _⟩
  | @cons ws m wss ms hfirst hrest ih =>
    intro hasName
    obtain ⟨vs, label, value, rfl, rfl, hlabel, ⟨p, rfl, rfl⟩, hvs⟩ := hfirst
    cases hrest with
    | nil => exact ⟨⟨.keyword label p, rfl, rfl⟩, named hlabel hvs⟩
    | cons _ _ =>
      obtain ⟨⟨q, hwords, hmeaning⟩, hmore⟩ := ih true
      refine ⟨⟨.keywordMore label p q, ?_, ?_⟩, comma (named hlabel hvs) hmore⟩
      · rw [Phrase.words, hwords]
        rfl
      · rw [Phrase.meaning, hmeaning]

theorem arguments {wss kss : List (List Word)} {ms : List Expr} {ks : List (Span × Text × Expr)}
    (h : Each wss ms) (hkeywords : List.Forall₂ Keyword kss ks) :
    (Symbol.arguments false).Says (Data.withCommas (wss ++ kss)) (ms, ks) := by
  induction h with
  | nil => exact keywords hkeywords false
  | @cons ws m wss ms hfirst hrest ih =>
    obtain ⟨⟨p, rfl, rfl⟩, hlexical⟩ := hfirst
    obtain ⟨⟨q, hwords, hmeaning⟩, hmore⟩ := ih
    cases hall : wss ++ kss with
    | nil =>
      obtain ⟨rfl, rfl⟩ := List.append_eq_nil_iff.mp hall
      cases hrest
      cases hkeywords
      exact ⟨⟨.positional p, rfl, rfl⟩, hlexical⟩
    | cons us uss =>
      rw [hall] at hwords hmore
      rw [List.cons_append, hall]
      refine ⟨⟨.positionalMore p q, ?_, ?_⟩, comma hlexical hmore⟩
      · rw [Phrase.words, hwords]
        rfl
      · rw [Phrase.meaning, hmeaning]

end

/-! ## Operators -/

section
variable {ws us : List Word} {m k : Expr}

/-- A chain can go on. -/
theorem exists_tail_append {t : Tier} : ∀ p q : Phrase (.tail t), ∃ r : Phrase (.tail t),
    r.words = p.words ++ q.words ∧ ∀ left, r.meaning left = q.meaning (p.meaning left)
  | .tailEnd, q => ⟨q, rfl, fun _ => rfl⟩
  | .tailMore op hop e p, q => by
    obtain ⟨r, hwords, hmeaning⟩ := exists_tail_append p q
    refine ⟨.tailMore op hop e r, ?_, fun _ => hmeaning _⟩
    simp only [Phrase.words, hwords, List.append_assoc, List.cons_append]

theorem isLexical_joint (op : Joint) : op.word.IsLexical := by
  cases op with
  | boolean op => cases op <;> exact Word.isLexical_of (by decide)
  | binary op => cases op <;> exact Word.isLexical_of (by decide)

/-- Chains go on to the right, so they group to the left. -/
theorem chained {op : Joint} {t : Tier} (hop : op.tier = some t)
    (h : (Symbol.level (.chain t)).Says ws m) (hright : (Symbol.level t.operand).Says us k) :
    (Symbol.level (.chain t)).Says (ws ++ op.word :: us) (op.join m k) := by
  obtain ⟨⟨p, rfl, rfl⟩, hws⟩ := h
  obtain ⟨⟨q, rfl, rfl⟩, hus⟩ := hright
  refine ⟨?_, List.forall_mem_append.mpr ⟨hws, List.forall_mem_cons.mpr ⟨isLexical_joint op, hus⟩⟩⟩
  cases p with
  | chain first rest =>
    obtain ⟨r, hwords, hmeaning⟩ := exists_tail_append rest (.tailMore op hop q .tailEnd)
    refine ⟨.chain first r, ?_, hmeaning _⟩
    simp only [Phrase.words, hwords, List.append_assoc, List.append_nil]

theorem powered (h : (Symbol.level .primary).Says ws m) (hright : (Symbol.level .factor).Says us k) :
    (Symbol.level .power).Says (ws ++ .of "**" :: us) (.binary Expr.nowhere .pow m k) := by
  obtain ⟨⟨p, rfl, rfl⟩, hws⟩ := h
  obtain ⟨⟨q, rfl, rfl⟩, hus⟩ := hright
  exact ⟨⟨.power p q, rfl, rfl⟩,
    List.forall_mem_append.mpr ⟨hws, List.forall_mem_cons.mpr ⟨Word.isLexical_of (.inl (by decide)), hus⟩⟩⟩

theorem joined (op : Joint) (h : (Symbol.level op.leftLevel).Says ws m)
    (hright : (Symbol.level op.rightLevel).Says us k) :
    (Symbol.level op.level).Says (ws ++ op.word :: us) (op.join m k) := by
  cases op with
  | boolean op => cases op <;> exact chained rfl h hright
  | binary op =>
    cases op with
    | pow => exact powered h hright
    | _ => exact chained rfl h hright

theorem unary (op : UnaryOp) (h : (Symbol.level op.level).Says us m) :
    (Symbol.level op.level).Says (.of (.ofString op.symbol) :: us) (.unary Expr.nowhere op m) := by
  have hlexical : (Word.of (.ofString op.symbol)).IsLexical := by
    cases op <;> exact Word.isLexical_of (by decide)
  obtain ⟨⟨p, rfl, rfl⟩, hus⟩ := h
  refine ⟨?_, List.forall_mem_cons.mpr ⟨hlexical, hus⟩⟩
  cases op with
  | not => exact ⟨.not p, rfl, rfl⟩
  | negative => exact ⟨.signed .negative (by decide) p, rfl, rfl⟩
  | positive => exact ⟨.signed .positive (by decide) p, rfl, rfl⟩

theorem comparisonsEnd : Symbol.comparisons.Says [] [] :=
  ⟨⟨.comparisonsEnd, rfl, rfl⟩, List.forall_mem_nil _⟩

theorem comparisonsMore {ms : List (CompareOp × Expr)} (op : CompareOp)
    (h : (Symbol.level (.chain .sum)).Says ws m) (hrest : Symbol.comparisons.Says us ms) :
    Symbol.comparisons.Says (op.words ++ (ws ++ us)) ((op, m) :: ms) := by
  obtain ⟨⟨p, rfl, rfl⟩, hws⟩ := h
  obtain ⟨⟨q, rfl, rfl⟩, hus⟩ := hrest
  have hop : ∀ w ∈ op.words, w.IsLexical := by
    cases op <;> simp only [CompareOp.words, List.forall_mem_cons] <;>
      exact ⟨Word.isLexical_of (by decide), by
        first
        | exact List.forall_mem_nil _
        | exact ⟨Word.isLexical_of (by decide), List.forall_mem_nil _⟩⟩
  exact ⟨⟨.comparisonsMore op p q, rfl, rfl⟩,
    List.forall_mem_append.mpr ⟨hop, List.forall_mem_append.mpr ⟨hws, hus⟩⟩⟩

theorem compared {ms : List (CompareOp × Expr)} (h : (Symbol.level (.chain .sum)).Says ws m)
    (hrest : Symbol.comparisons.Says us ms) (hne : ms ≠ []) :
    (Symbol.level .comparison).Says (ws ++ us) (.compare Expr.nowhere m ms) := by
  obtain ⟨⟨p, rfl, rfl⟩, hws⟩ := h
  obtain ⟨⟨q, rfl, rfl⟩, hus⟩ := hrest
  refine ⟨⟨.comparison p q, rfl, ?_⟩, List.forall_mem_append.mpr ⟨hws, hus⟩⟩
  rw [Phrase.meaning]
  -- Without an operator the words would say their first operand, and no comparison.
  cases hrest : q.meaning with
  | nil => exact absurd hrest hne
  | cons operand operands => rfl

end

end Symbol.Says

end Scriptlet
