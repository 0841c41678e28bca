import Mathlib.Logic.Function.Iterate
import Scriptlet.Proofs.Grammar.Uniqueness
import Scriptlet.Proofs.Parse.Chains

/-
  Expressions with their spans, out of the grammar.

  The meaning of a phrase has no places. Here a phrase stands behind so many words, and `span i j` is
  the span from the word `i` up to the word `j`; `Phrase.located` is what the phrase means there. Tails
  and suffixes go on something that begins at an earlier word, the origin, and all that they build
  begins there.

  What is proved:
    1. `Phrase.located_moved` — a phrase that stands further on means the same but for the spans, if
       those go along.
    2. `Phrase.exists_list` — a phrase of any level is a list of one expression, and means the same.
-/

namespace Scriptlet

namespace Span

/-- The span in a text with so many code points before it. -/
def shift (n : Nat) (span : Span) : Span := ⟨span.start + n, span.stop + n⟩

end Span

namespace Expr

mutual

/-- The expression with other spans. -/
def mapSpans (f : Span → Span) : Expr → Expr
  | .literal span value => .literal (f span) value
  | .name span id => .name (f span) id
  | .list span items => .list (f span) (mapItems f items)
  | .tuple span items => .tuple (f span) (mapItems f items)
  | .set span items => .set (f span) (mapItems f items)
  | .dict span entries => .dict (f span) (mapEntries f entries)
  | .attribute span target label => .attribute (f span) (target.mapSpans f) label
  | .subscript span target index => .subscript (f span) (target.mapSpans f) (index.mapSpans f)
  | .sliced span target bounds lower upper step =>
    .sliced (f span) (target.mapSpans f) (f bounds) (mapPart f lower) (mapPart f upper)
      (mapPart f step)
  | .call span callee args keywords =>
    .call (f span) (callee.mapSpans f) (mapItems f args) (mapKeywords f keywords)
  | .unary span op operand => .unary (f span) op (operand.mapSpans f)
  | .binary span op left right => .binary (f span) op (left.mapSpans f) (right.mapSpans f)
  | .boolean span op left right => .boolean (f span) op (left.mapSpans f) (right.mapSpans f)
  | .compare span left rest => .compare (f span) (left.mapSpans f) (mapOperands f rest)

def mapItems (f : Span → Span) : List Expr → List Expr
  | [] => []
  | e :: rest => e.mapSpans f :: mapItems f rest

def mapEntries (f : Span → Span) : List (Expr × Expr) → List (Expr × Expr)
  | [] => []
  | (key, value) :: rest => (key.mapSpans f, value.mapSpans f) :: mapEntries f rest

def mapPart (f : Span → Span) : Option Expr → Option Expr
  | none => none
  | some e => some (e.mapSpans f)

def mapKeywords (f : Span → Span) : List (Span × Text × Expr) → List (Span × Text × Expr)
  | [] => []
  | (span, label, value) :: rest => (f span, label, value.mapSpans f) :: mapKeywords f rest

def mapOperands (f : Span → Span) : List (CompareOp × Expr) → List (CompareOp × Expr)
  | [] => []
  | (op, e) :: rest => (op, e.mapSpans f) :: mapOperands f rest

end

end Expr

namespace Parse.Index

/-- What stands between the brackets of a subscript, with other spans. -/
def mapSpans (f : Span → Span) : Index → Index
  | single index => .single (index.mapSpans f)
  | slice bounds lower upper step =>
    .slice (f bounds) (Expr.mapPart f lower) (Expr.mapPart f upper) (Expr.mapPart f step)

/-- The slice with these bounds; `parts` are those behind its colons. -/
def sliceOf (bounds : Span) (lower : Option Expr) : List (Option Expr) → Index
  | [] => .slice bounds lower none none
  | [upper] => .slice bounds lower upper none
  | upper :: step :: _ => .slice bounds lower upper step

/-- The target with a subscript behind it. -/
def on (span : Span) (target : Expr) : Index → Expr
  | single index => .subscript span target index
  | slice bounds lower upper step => .sliced span target bounds lower upper step

end Parse.Index

/-- The operator between two operands. -/
def Joint.build (span : Span) : Joint → Expr → Expr → Expr
  | boolean op => .boolean span op
  | binary op => .binary span op

namespace Phrase

/-- An expression and what it is compared with, if with anything. -/
def compareOf (span : Span) (first : Expr) : List (CompareOp × Expr) → Expr
  | [] => first
  | operand :: operands => .compare span first (operand :: operands)

/-- The number of words of a phrase. -/
def count {s : Symbol} (p : Phrase s) : Nat := p.words.length

/-- What a phrase means that stands behind `i` words, as part of what begins behind `origin` words.
Only tails and suffixes are parts of what began before them. -/
def located (span : Nat → Nat → Span) : {s : Symbol} → Phrase s → (origin i : Nat) → s.Meaning
  | _, .single e, _, i => e.located span i i
  | _, .commas e rest, _, i =>
    let next := i + e.count + 1
    .tuple (span i (next + rest.count)) (e.located span i i :: rest.located span next next)
  | _, .chain first rest, _, i => rest.located span i (i + first.count) (first.located span i i)
  | _, .tailEnd, _, _ => fun left => left
  | _, .tailMore op _ e rest, origin, i => fun left =>
    let next := i + 1 + e.count
    rest.located span origin next
      (op.build (span origin next) left (e.located span (i + 1) (i + 1)))
  | _, .not e, _, i => .unary (span i (i + 1 + e.count)) .not (e.located span (i + 1) (i + 1))
  | _, .compared e, _, i => e.located span i i
  | _, .comparison first rest, _, i =>
    let next := i + first.count
    compareOf (span i (next + rest.count)) (first.located span i i) (rest.located span next next)
  | _, .comparisonsEnd, _, _ => []
  | _, .comparisonsMore op e rest, _, i =>
    let right := i + op.words.length
    let next := right + e.count
    (op, e.located span right right) :: rest.located span next next
  | _, .signed op _ e, _, i => .unary (span i (i + 1 + e.count)) op (e.located span (i + 1) (i + 1))
  | _, .unsigned e, _, i => e.located span i i
  | _, .base e, _, i => e.located span i i
  | _, .power e exponent, _, i =>
    let right := i + e.count + 1
    .binary (span i (right + exponent.count)) .pow (e.located span i i)
      (exponent.located span right right)
  | _, .primary e rest, _, i => rest.located span i (i + e.count) (e.located span i i)
  | _, .suffixesEnd, _, _ => fun target => target
  | _, .call args rest, origin, i => fun target =>
    let next := i + 1 + args.count + 1
    let all := args.located span (i + 1) (i + 1)
    rest.located span origin next (.call (span origin next) target all.1 all.2)
  | _, .attr label _ rest, origin, i => fun target =>
    rest.located span origin (i + 2) (.attribute (span origin (i + 2)) target label)
  | _, .subscript inner rest, origin, i => fun target =>
    let next := i + 1 + inner.count + 1
    rest.located span origin next
      ((inner.located span (i + 1) (i + 1)).on (span origin next) target)
  | _, .argumentsEnd, _, _ => ([], [])
  | _, .positional e, _, i => ([e.located span i i], [])
  | _, .positionalMore e rest, _, i =>
    let next := i + e.count + 1
    let more := rest.located span next next
    (e.located span i i :: more.1, more.2)
  | _, .keyword label e, _, i =>
    ([], [(span i (i + 2 + e.count), label, e.located span (i + 2) (i + 2))])
  | _, .keywordMore label e rest, _, i =>
    let next := i + 2 + e.count + 1
    let more := rest.located span next next
    (more.1, (span i (i + 2 + e.count), label, e.located span (i + 2) (i + 2)) :: more.2)
  | _, .index e, _, i => .single (e.located span i i)
  | _, .slice lower rest, _, i =>
    let next := i + lower.count + 1
    .sliceOf (span i (next + rest.count)) (lower.located span i i) (rest.located span next next)
  | _, .bound e, _, i => [e.located span i i]
  | _, .boundMore e rest, _, i =>
    let next := i + e.count + 1
    e.located span i i :: rest.located span next next
  | _, .absent, _, _ => none
  | _, .present e, _, i => some (e.located span i i)
  | _, .itemsEnd, _, _ => []
  | _, .item e, _, i => [e.located span i i]
  | _, .itemMore e rest, _, i =>
    let next := i + e.count + 1
    e.located span i i :: rest.located span next next
  | _, .entriesEnd, _, _ => []
  | _, .entry key value, _, i =>
    let right := i + key.count + 1
    [(key.located span i i, value.located span right right)]
  | _, .entryMore key value rest, _, i =>
    let right := i + key.count + 1
    let next := right + value.count + 1
    (key.located span i i, value.located span right right) :: rest.located span next next
  | _, .number text, _, i => .literal (span i (i + 1)) (.ofNumber text)
  | _, .string text, _, i =>
    .literal (span i (i + 1)) (.text ((text.drop 1).take (text.length - 2)))
  | _, .constant _ value _, _, i => .literal (span i (i + 1)) value
  | _, .name text _, _, i => .name (span i (i + 1)) text
  | _, .unit, _, i => .tuple (span i (i + 2)) []
  | _, .group e, _, i => e.located span (i + 1) (i + 1)
  | _, .tuple e rest, _, i =>
    let next := i + 1 + e.count + 1
    .tuple (span i (next + rest.count + 1))
      (e.located span (i + 1) (i + 1) :: rest.located span next next)
  | _, .list rest, _, i =>
    .list (span i (i + 1 + rest.count + 1)) (rest.located span (i + 1) (i + 1))
  | _, .dict rest, _, i =>
    .dict (span i (i + 1 + rest.count + 1)) (rest.located span (i + 1) (i + 1))
  | _, .singleton e, _, i =>
    .set (span i (i + 1 + e.count + 1)) [e.located span (i + 1) (i + 1)]
  | _, .set e rest, _, i =>
    let next := i + 1 + e.count + 1
    .set (span i (next + rest.count + 1))
      (e.located span (i + 1) (i + 1) :: rest.located span next next)

theorem count_pos {l : Level} (p : Phrase (.level l)) : 0 < p.count := Parse.length_words_pos p

end Phrase

/-! ## Other spans -/

/-- The second meaning is the first one with other spans. -/
def Symbol.Moves (f : Span → Span) : (s : Symbol) → s.Meaning → s.Meaning → Prop
  | .level _, m, m' => m.mapSpans f = m'
  | .tail _, m, m' => ∀ left : Expr, (m left).mapSpans f = m' (left.mapSpans f)
  | .comparisons, m, m' => Expr.mapOperands f m = m'
  | .suffixes, m, m' => ∀ target : Expr, (m target).mapSpans f = m' (target.mapSpans f)
  | .items, m, m' => Expr.mapItems f m = m'
  | .entries, m, m' => Expr.mapEntries f m = m'
  | .arguments _, m, m' => Expr.mapItems f m.1 = m'.1 ∧ Expr.mapKeywords f m.2 = m'.2
  | .index, m, m' => m.mapSpans f = m'
  | .bounds _, m, m' => m.map (Expr.mapPart f) = m'
  | .part, m, m' => Expr.mapPart f m = m'

section Moved

variable {f : Span → Span} {span span' : Nat → Nat → Span} {a len : Nat}

theorem Parse.Index.mapSpans_single (index : Expr) :
    (single index).mapSpans f = .single (index.mapSpans f) := rfl

theorem Parse.Index.mapSpans_sliceOf (bounds : Span) (lower : Option Expr)
    (parts : List (Option Expr)) :
    (sliceOf bounds lower parts).mapSpans f =
      sliceOf (f bounds) (Expr.mapPart f lower) (parts.map (Expr.mapPart f)) := by
  match parts with
  | [] => rfl
  | [_] => rfl
  | _ :: _ :: _ => rfl

theorem Parse.Index.mapSpans_on (whole : Span) (target : Expr) (inner : Parse.Index) :
    (inner.on whole target).mapSpans f = (inner.mapSpans f).on (f whole) (target.mapSpans f) := by
  cases inner <;> simp only [on, mapSpans, Expr.mapSpans]

theorem Joint.mapSpans_build (whole : Span) (op : Joint) (left right : Expr) :
    (op.build whole left right).mapSpans f =
      op.build (f whole) (left.mapSpans f) (right.mapSpans f) := by
  cases op <;> simp only [build, Expr.mapSpans]

namespace Phrase

theorem mapSpans_compareOf (whole : Span) (first : Expr) (operands : List (CompareOp × Expr)) :
    (compareOf whole first operands).mapSpans f =
      compareOf (f whole) (first.mapSpans f) (Expr.mapOperands f operands) := by
  cases operands with
  | nil => rfl
  | cons operand operands =>
    obtain ⟨op, e⟩ := operand
    simp only [compareOf, Expr.mapSpans, Expr.mapOperands]

/-- The first `len` words stand `a` words further on among others, and `f` takes the spans along:
then a phrase within them means there what it means here, but for the spans. -/
theorem located_moved (h : ∀ i j, i < j → j ≤ len → f (span' i j) = span (a + i) (a + j))
    {s : Symbol} (p : Phrase s) (origin i : Nat) (horigin : origin ≤ i) (hlen : i + p.count ≤ len) :
    s.Moves f (p.located span' origin i) (p.located span (a + origin) (a + i)) := by
  induction p generalizing origin i with
  | comparison first rest hfirst hrest =>
    -- Here the span ends where `first` does if nothing is compared with it.
    have hpos := first.count_pos
    simp only [count, words, List.length_append, Symbol.Moves] at *
    simp (disch := omega) only [located, mapSpans_compareOf, h, hfirst, hrest, Nat.add_assoc, count]
  | _ =>
    simp only [count, words, List.length_append, List.length_cons, List.length_nil,
      Symbol.Moves] at *
    simp (disch := omega) only [*, located, count, Nat.add_assoc, Expr.mapSpans, Expr.mapItems,
      Expr.mapEntries, Expr.mapKeywords, Expr.mapOperands, Expr.mapPart, Joint.mapSpans_build,
      Parse.Index.mapSpans_single, Parse.Index.mapSpans_sliceOf, Parse.Index.mapSpans_on,
      List.map_nil, List.map_cons, forall_const, and_self]

end Phrase

end Moved

/-! ## Phrases as lists -/

/-- The level whose phrases a phrase of this one is by itself. -/
def Level.looser : Level → Level
  | .atom => .primary
  | .primary => .power
  | .power => .factor
  | .factor => .chain .product
  | .chain .product => .chain .sum
  | .chain .sum => .comparison
  | .comparison => .negation
  | .negation => .chain .and
  | .chain .and => .chain .or
  | .chain .or => .list
  | .list => .list

namespace Phrase

/-- The phrases are written with the same words and mean the same everywhere. -/
def Same {l l' : Level} (p : Phrase (.level l)) (q : Phrase (.level l')) : Prop :=
  q.words = p.words ∧ ∀ (span : Nat → Nat → Span) (i : Nat), q.located span i i = p.located span i i

theorem Same.trans {l₁ l₂ l₃ : Level} {p : Phrase (.level l₁)} {q : Phrase (.level l₂)}
    {r : Phrase (.level l₃)} (hpq : p.Same q) (hqr : q.Same r) : p.Same r :=
  ⟨hqr.1.trans hpq.1, fun span i => (hqr.2 span i).trans (hpq.2 span i)⟩

theorem same_chain {t : Tier} (p : Phrase (.level t.operand)) : p.Same (chain p tailEnd) :=
  ⟨List.append_nil _, fun _ _ => rfl⟩

/-- A phrase is a phrase of the next looser level. -/
theorem exists_looser {l : Level} (p : Phrase (.level l)) :
    ∃ q : Phrase (.level l.looser), p.Same q := by
  cases l with
  | list => exact ⟨p, rfl, fun _ _ => rfl⟩
  | chain t =>
    cases t with
    | or => exact ⟨single p, rfl, fun _ _ => rfl⟩
    | and => exact ⟨_, same_chain (t := .or) p⟩
    | sum => exact ⟨comparison p comparisonsEnd, List.append_nil _, fun _ _ => rfl⟩
    | product => exact ⟨_, same_chain (t := .sum) p⟩
  | negation => exact ⟨_, same_chain (t := .and) p⟩
  | comparison => exact ⟨compared p, rfl, fun _ _ => rfl⟩
  | factor => exact ⟨_, same_chain (t := .product) p⟩
  | power => exact ⟨unsigned p, rfl, fun _ _ => rfl⟩
  | primary => exact ⟨base p, rfl, fun _ _ => rfl⟩
  | atom => exact ⟨primary p suffixesEnd, List.append_nil _, fun _ _ => rfl⟩

theorem exists_list {l : Level} (p : Phrase (.level l)) : ∃ q : Phrase (.level .list), p.Same q := by
  have hsteps : ∀ (n : Nat) {l : Level} (p : Phrase (.level l)),
      ∃ q : Phrase (.level (Level.looser^[n] l)), p.Same q := by
    intro n
    induction n with
    | zero => exact fun p => ⟨p, rfl, fun _ _ => rfl⟩
    | succ n ih =>
      intro l p
      obtain ⟨q, hq⟩ := p.exists_looser
      obtain ⟨r, hr⟩ := ih q
      exact ⟨r, hq.trans hr⟩
  have hlist : Level.looser^[10] l = .list := by
    cases l with
    | chain t => cases t <;> rfl
    | _ => rfl
  rw [← hlist]
  exact hsteps 10 p

end Phrase

end Scriptlet
