import Scriptlet.Proofs.Grammar.Words

/-
  Brackets in the words of a phrase.

  Brackets are counted without regard to their kinds, as the search for an operator that assigns counts
  them. Words are closed if every bracket in them is closed by one behind it and closes one before it; what
  then stands outside of all brackets are the words `us` of `Closed ws us`.

  What is proved:
    1. `Closed.append`, `Closed.bracketed` — closed words behind each other and in brackets are closed.
    2. `Phrase.is_calm` — the words of a phrase are closed, and outside of brackets none of them assigns,
       except among the arguments of a call.
-/

namespace Scriptlet

namespace Word

/-- The words that open a bracket. -/
def openers : List Word := [.of "(", .of "[", .of "\x7b"]

/-- The words that assign. -/
def assigners : List Word := Token.assignments.map .of

/-- The number of brackets that are open behind some words, of which `depth` were open before them, and
the words outside of all brackets, brackets aside; nothing if a bracket is closed that is not open. -/
def outside (depth : Nat) : List Word → Option (Nat × List Word)
  | [] => some (depth, [])
  | w :: ws =>
    if w ∈ openers then outside (depth + 1) ws
    else if w ∈ closers then
      match depth with
      | 0 => none
      | depth + 1 => outside depth ws
    else (outside depth ws).map fun found => (found.1, if depth = 0 then w :: found.2 else found.2)

theorem outside_append (depth : Nat) (ws vs : List Word) :
    outside depth (ws ++ vs) = (outside depth ws).bind fun found =>
      (outside found.1 vs).map fun more => (more.1, found.2 ++ more.2) := by
  induction ws generalizing depth with
  | nil => simp [outside]
  | cons w ws ih =>
    simp only [List.cons_append, outside]
    split
    · exact ih _
    split
    · cases depth with
      | zero => rfl
      | succ depth => exact ih _
    · rw [ih]
      cases outside depth ws with
      | none => rfl
      | some found =>
        simp only [Option.map_some, Option.bind_some]
        cases outside found.1 vs with
        | none => rfl
        | some more => split <;> simp

/-- Inside of more brackets nothing is outside of them. -/
theorem outside_add (more : Nat) {depth : Nat} {ws : List Word} {found : Nat × List Word}
    (h : outside depth ws = some found) :
    outside (depth + more + 1) ws = some (found.1 + more + 1, []) := by
  induction ws generalizing depth found with
  | nil =>
    cases h
    rfl
  | cons w ws ih =>
    simp only [outside] at h ⊢
    split at h
    · rename_i hopens
      rw [if_pos hopens, show depth + more + 1 + 1 = depth + 1 + more + 1 by omega, ih h]
    · rename_i hopens
      rw [if_neg hopens]
      split at h
      · rename_i hcloses
        rw [if_pos hcloses]
        cases depth with
        | zero => cases h
        | succ depth => rw [show depth + 1 + more = depth + more + 1 by omega, ih h]
      · rename_i hcloses
        rw [if_neg hcloses]
        obtain ⟨inner, hinner, rfl⟩ := Option.map_eq_some_iff.mp h
        rw [ih hinner]
        rfl

theorem not_mem_openers_of_mem_closers {w : Word} (h : w ∈ closers) : w ∉ openers := by
  simp only [closers, List.mem_cons, List.not_mem_nil, or_false] at h
  rcases h with rfl | rfl | rfl <;> simp [openers]

end Word

/-- Every bracket in the words is closed in them and closes one in them, and outside of brackets are the
words `us`. -/
def Closed (ws us : List Word) : Prop := Word.outside 0 ws = some (0, us)

/-- Every bracket that is closed in the words has been opened in them. -/
def OpensFirst (ws : List Word) : Prop := Word.outside 0 ws ≠ none

instance (ws : List Word) : Decidable (OpensFirst ws) :=
  inferInstanceAs (Decidable (Word.outside 0 ws ≠ none))

namespace Closed

variable {w opening closing : Word} {ws vs us xs : List Word}

theorem nil : Closed [] [] := rfl

/-- What stands outside of brackets is determined. -/
theorem unique (h : Closed ws us) (h' : Closed ws xs) : us = xs :=
  congrArg Prod.snd (Option.some.inj (h.symm.trans h'))

theorem append (hws : Closed ws us) (hvs : Closed vs xs) : Closed (ws ++ vs) (us ++ xs) := by
  unfold Closed at hws hvs ⊢
  rw [Word.outside_append, hws, Option.bind_some, hvs]
  rfl

theorem single (hw : w ∉ Word.openers) (hw' : w ∉ Word.closers) : Closed [w] [w] := by
  unfold Closed Word.outside
  rw [if_neg hw, if_neg hw']
  rfl

theorem cons (hw : w ∉ Word.openers) (hw' : w ∉ Word.closers) (hws : Closed ws us) :
    Closed (w :: ws) (w :: us) :=
  (single hw hw').append hws

/-- Nothing of what stands in brackets is outside of them. -/
theorem bracketed (hopening : opening ∈ Word.openers) (hclosing : closing ∈ Word.closers)
    (hws : Closed ws us) (hvs : Closed vs xs) : Closed (opening :: (ws ++ closing :: vs)) xs := by
  unfold Closed at hws hvs ⊢
  have hinside : Word.outside (0 + 0 + 1) ws = some (0 + 0 + 1, []) := Word.outside_add 0 hws
  rw [Word.outside, if_pos hopening, Word.outside_append, hinside, Option.bind_some, Word.outside,
    if_neg (Word.not_mem_openers_of_mem_closers hclosing), if_pos hclosing]
  show (Word.outside 0 vs).map _ = _
  rw [hvs]
  rfl

/-- What closed words have in brackets is closed, unless it closes the bracket itself. -/
theorem of_bracketed (hopening : opening ∈ Word.openers) (hclosing : closing ∈ Word.closers)
    (hws : OpensFirst ws) (h : Closed (opening :: (ws ++ [closing])) xs) : ∃ us, Closed ws us := by
  obtain ⟨⟨depth, us⟩, hfound⟩ := Option.ne_none_iff_exists'.mp hws
  have hinside : Word.outside (0 + 0 + 1) ws = some (depth + 0 + 1, []) := Word.outside_add 0 hfound
  unfold Closed at h
  rw [Word.outside, if_pos hopening, Word.outside_append, hinside, Option.bind_some, Word.outside,
    if_neg (Word.not_mem_openers_of_mem_closers hclosing), if_pos hclosing] at h
  obtain rfl : depth = 0 := congrArg Prod.fst (Option.some.inj h)
  exact ⟨us, hfound⟩

/-- A word that stands outside of brackets divides the others. -/
theorem around (hws : Closed ws us) (hw : w ∉ Word.openers) (hw' : w ∉ Word.closers)
    (h : Closed (ws ++ w :: vs) xs) : ∃ ys, Closed vs ys ∧ xs = us ++ w :: ys := by
  unfold Closed at hws h ⊢
  rw [Word.outside_append, hws, Option.bind_some, Word.outside, if_neg hw, if_neg hw'] at h
  cases hvs : Word.outside 0 vs with
  | none =>
    rw [hvs] at h
    cases h
  | some found =>
    rw [hvs] at h
    obtain ⟨depth, ys⟩ := found
    cases h
    exact ⟨ys, rfl, rfl⟩

/-- A bracket that closes behind closed words closes one before them. -/
theorem not_closer (hws : Closed ws us) (hclosing : closing ∈ Word.closers) :
    ¬ Closed (ws ++ closing :: vs) xs := by
  unfold Closed at hws ⊢
  rw [Word.outside_append, hws, Option.bind_some, Word.outside,
    if_neg (Word.not_mem_openers_of_mem_closers hclosing), if_pos hclosing]
  exact fun h => by cases h

/-- Of two beginnings of the same words that a word ends, one does not hold the other and the word. -/
theorem append_inj {as bs : List Word} (has : ∀ more, as ≠ bs ++ w :: more)
    (hbs : ∀ more, bs ≠ as ++ w :: more) (h : as ++ w :: us = bs ++ w :: vs) : as = bs ∧ us = vs := by
  rcases List.append_eq_append_iff.mp h with ⟨cs, rfl, hcs⟩ | ⟨cs, rfl, hcs⟩
  · cases cs with
    | nil => exact ⟨(List.append_nil _).symm, (List.cons.inj hcs).2⟩
    | cons c cs =>
      obtain ⟨rfl, -⟩ := List.cons.inj hcs
      exact absurd rfl (hbs cs)
  · cases cs with
    | nil => exact ⟨List.append_nil _, (List.cons.inj hcs).2.symm⟩
    | cons c cs =>
      obtain ⟨rfl, -⟩ := List.cons.inj hcs
      exact absurd rfl (has cs)

/-- The bracket that closes what closed words stand in is determined. -/
theorem closer_inj {as bs : List Word} (has : Closed as us) (hbs : Closed bs xs)
    (hclosing : closing ∈ Word.closers) {cs ds : List Word}
    (h : as ++ closing :: cs = bs ++ closing :: ds) : as = bs ∧ cs = ds :=
  append_inj (fun _ heq => hbs.not_closer hclosing (heq ▸ has))
    (fun _ heq => has.not_closer hclosing (heq ▸ hbs)) h

/-- The word that stands behind words with nothing outside of brackets is determined. -/
theorem around_inj {as bs : List Word} (has : Closed as []) (hbs : Closed bs [])
    (hw : w ∉ Word.openers) (hw' : w ∉ Word.closers) {cs ds : List Word}
    (h : as ++ w :: cs = bs ++ w :: ds) : as = bs ∧ cs = ds := by
  have hnot : ∀ {as bs : List Word}, Closed as [] → Closed bs [] → ∀ more, as ≠ bs ++ w :: more := by
    rintro as bs has hbs more rfl
    obtain ⟨ys, -, hnil⟩ := hbs.around hw hw' has
    cases hnil
  exact append_inj (hnot has hbs) (hnot hbs has) h

end Closed

/-! ## Words that assign nothing -/

/-- The word is no bracket, and it does not assign. -/
structure Word.IsPlain (w : Word) : Prop where
  notOpener : w ∉ Word.openers
  notCloser : w ∉ Word.closers
  notAssigner : w ∉ Word.assigners

namespace Word.IsPlain

/-- Brackets and operators that assign are operators. -/
theorem of_kind {w : Word} (h : w.kind ≠ .operator) : w.IsPlain := by
  have hne : ∀ text ∈ Token.operators, w ≠ .of text := by
    rintro text htext rfl
    rw [Word.kind_of, if_pos htext] at h
    exact h rfl
  have hnone : ∀ texts : List Text, texts ⊆ Token.operators → w ∉ texts.map .of := by
    intro texts hsub hmem
    obtain ⟨text, htext, rfl⟩ := List.mem_map.mp hmem
    exact hne text (hsub htext) rfl
  exact ⟨hnone Token.openingBrackets (by decide), hnone Token.closingBrackets (by decide),
    hnone Token.assignments (by decide)⟩

theorem of {text : Text}
    (h : text ∉ Token.openingBrackets ++ Token.closingBrackets ++ Token.assignments) :
    (Word.of text).IsPlain := by
  simp only [Token.openingBrackets, Token.closingBrackets, Token.assignments, List.cons_append,
    List.nil_append, List.mem_cons, List.not_mem_nil, or_false, not_or] at h
  constructor <;>
    simp [openers, closers, assigners, Token.assignments, h]

end Word.IsPlain

theorem Joint.isPlain_word (op : Joint) : op.word.IsPlain := by
  rcases op with op | op <;> cases op <;> exact .of (by decide)

theorem CompareOp.isPlain_words (op : CompareOp) : ∀ w ∈ op.words, w.IsPlain := by
  cases op <;> simp only [CompareOp.words, List.forall_mem_cons, List.not_mem_nil, false_imp_iff,
    implies_true, and_true] <;> first
      | exact .of (by decide)
      | exact ⟨.of (by decide), .of (by decide)⟩

/-- The words are closed, and outside of brackets none of them assigns. -/
def AssignsNothing (ws : List Word) : Prop := ∃ us, Closed ws us ∧ ∀ w ∈ us, w ∉ Word.assigners

namespace AssignsNothing

variable {w opening closing : Word} {ws vs : List Word}

theorem nil : AssignsNothing [] := ⟨[], .nil, by simp⟩

theorem append (hws : AssignsNothing ws) (hvs : AssignsNothing vs) : AssignsNothing (ws ++ vs) := by
  obtain ⟨us, hus, hcalm⟩ := hws
  obtain ⟨xs, hxs, hcalm'⟩ := hvs
  exact ⟨us ++ xs, hus.append hxs, List.forall_mem_append.mpr ⟨hcalm, hcalm'⟩⟩

theorem cons (hw : w.IsPlain) (hws : AssignsNothing ws) : AssignsNothing (w :: ws) := by
  obtain ⟨us, hus, hcalm⟩ := hws
  exact ⟨w :: us, hus.cons hw.notOpener hw.notCloser, List.forall_mem_cons.mpr ⟨hw.notAssigner, hcalm⟩⟩

theorem of_plain (h : ∀ w ∈ ws, w.IsPlain) : AssignsNothing ws := by
  induction ws with
  | nil => exact nil
  | cons w ws ih =>
    obtain ⟨hw, hws⟩ := List.forall_mem_cons.mp h
    exact cons hw (ih hws)

theorem bracketed (hopening : opening ∈ Word.openers) (hclosing : closing ∈ Word.closers)
    (hws : ∃ us, Closed ws us) (hvs : AssignsNothing vs) :
    AssignsNothing (opening :: (ws ++ closing :: vs)) := by
  obtain ⟨us, hus⟩ := hws
  obtain ⟨xs, hxs, hcalm⟩ := hvs
  exact ⟨xs, hus.bracketed hopening hclosing hxs, hcalm⟩

theorem closed (hws : AssignsNothing ws) : ∃ us, Closed ws us :=
  let ⟨us, hus, _⟩ := hws
  ⟨us, hus⟩

end AssignsNothing

namespace Phrase

/-- What is said of the words of each symbol: between the brackets of a call names are assigned to. -/
def IsCalm : {s : Symbol} → Phrase s → Prop
  | .arguments _, p => ∃ us, Closed p.words us
  | _, p => AssignsNothing p.words

theorem is_calm {s : Symbol} (p : Phrase s) : p.IsCalm := by
  have hcomma : (Word.of ",").IsPlain := .of (by decide)
  have hcolon : (Word.of ":").IsPlain := .of (by decide)
  have hname : ∀ label, (⟨.name, label⟩ : Word).IsPlain := fun label => .of_kind (by simp)
  have hparen : Word.of "(" ∈ Word.openers := by simp [Word.openers]
  have hparen' : Word.of ")" ∈ Word.closers := by simp [Word.closers]
  have hsquare : Word.of "[" ∈ Word.openers := by simp [Word.openers]
  have hsquare' : Word.of "]" ∈ Word.closers := by simp [Word.closers]
  have hbrace : Word.of "\x7b" ∈ Word.openers := by simp [Word.openers]
  have hbrace' : Word.of "\x7d" ∈ Word.closers := by simp [Word.closers]
  induction p with
  | single e ih | compared e ih | unsigned e ih | base e ih => exact ih
  | index e ih | bound e ih | present e ih | item e ih => exact ih
  | tailEnd | comparisonsEnd | suffixesEnd | absent | itemsEnd | entriesEnd => exact .nil
  | chain first rest hfirst hrest | comparison first rest hfirst hrest | primary first rest hfirst hrest =>
    exact hfirst.append hrest
  | commas e rest he hrest | itemMore e rest he hrest => exact he.append (.cons hcomma hrest)
  | tailMore op _ e rest he hrest => exact .cons op.isPlain_word (he.append hrest)
  | not e ih => exact .cons (.of (by decide)) ih
  | comparisonsMore op e rest he hrest => exact .append (.of_plain op.isPlain_words) (he.append hrest)
  | signed op hop e ih =>
    cases op with
    | not => exact absurd rfl hop
    | negative | positive => exact .cons (.of (by decide)) ih
  | power e exponent he hexponent => exact he.append (.cons (.of (by decide)) hexponent)
  | call args rest hargs hrest => exact .bracketed hparen hparen' hargs hrest
  | attr label _ rest ih => exact .cons (.of (by decide)) (.cons (hname label) ih)
  | subscript i rest hi hrest => exact .bracketed hsquare hsquare' hi.closed hrest
  | argumentsEnd => exact ⟨_, .nil⟩
  | positional e ih => exact ih.closed
  | positionalMore e rest he hrest =>
    obtain ⟨us, hus, -⟩ := he
    obtain ⟨xs, hxs⟩ := hrest
    exact ⟨_, hus.append (hxs.cons hcomma.notOpener hcomma.notCloser)⟩
  | keyword label e ih =>
    obtain ⟨us, hus, -⟩ := ih
    have hassign : Closed [.of "="] [.of "="] := .single (by simp [Word.openers]) (by simp [Word.closers])
    exact ⟨_, (hassign.append hus).cons (hname label).notOpener (hname label).notCloser⟩
  | keywordMore label e rest he hrest =>
    obtain ⟨us, hus, -⟩ := he
    obtain ⟨xs, hxs⟩ := hrest
    have hassign : Closed [.of "="] [.of "="] := .single (by simp [Word.openers]) (by simp [Word.closers])
    have hmore := hus.append (hxs.cons hcomma.notOpener hcomma.notCloser)
    exact ⟨_, (hassign.append hmore).cons (hname label).notOpener (hname label).notCloser⟩
  | slice lower rest hlower hrest | boundMore lower rest hlower hrest =>
    exact hlower.append (.cons hcolon hrest)
  | entry key value hkey hvalue => exact hkey.append (.cons hcolon hvalue)
  | entryMore key value rest hkey hvalue hrest =>
    exact hkey.append (.cons hcolon (hvalue.append (.cons hcomma hrest)))
  | number text | string text => exact .cons (.of_kind (by simp)) .nil
  | constant text | name text => exact .cons (hname text) .nil
  | unit => exact AssignsNothing.bracketed hparen hparen' AssignsNothing.nil.closed .nil
  | group e ih => exact .bracketed hparen hparen' ih.closed .nil
  | tuple e rest he hrest =>
    have hinside := (he.append (.cons hcomma hrest)).closed
    have hall := AssignsNothing.bracketed hparen hparen' hinside .nil
    rwa [List.append_assoc, List.cons_append] at hall
  | list rest ih => exact .bracketed hsquare hsquare' ih.closed .nil
  | dict rest ih => exact .bracketed hbrace hbrace' ih.closed .nil
  | singleton e ih => exact .bracketed hbrace hbrace' ih.closed .nil
  | set e rest he hrest =>
    have hinside := (he.append (.cons hcomma hrest)).closed
    have hall := AssignsNothing.bracketed hbrace hbrace' hinside .nil
    rwa [List.append_assoc, List.cons_append] at hall

/-- The words of a phrase are closed. -/
theorem closed {s : Symbol} (p : Phrase s) : ∃ us, Closed p.words us := by
  have hcalm := p.is_calm
  cases s with
  | arguments named => exact hcalm
  | _ => exact AssignsNothing.closed hcalm

/-- Outside of brackets no word of an expression or list assigns. -/
theorem assigns_nothing {l : Level} (p : Phrase (.level l)) : AssignsNothing p.words := p.is_calm

end Phrase

end Scriptlet
