import Scriptlet.Proofs.Grammar

/-
  Words at the start of a phrase and behind it.

  A phrase does not say where it ends: more words may belong to it. `Symbol.Stops s r` holds of the
  words `r` that cannot go on a phrase of the symbol `s`, because they cling less tightly than its
  operators do, or because they close a bracket.

  What is proved:
    1. `Joint.clings_eq`, `CompareOp.clings_eq` — how tightly operators cling to what is before them.
    2. `Phrase.begins` — with which words a phrase begins.
-/

namespace Scriptlet

/-! ## Words of the grammar -/

theorem CodePoint.ofChar_injective : Function.Injective CodePoint.ofChar := by
  intro c d h
  exact Char.toNat_inj.mp (congrArg CodePoint.val h)

@[simp]
theorem Text.ofString_inj {s t : String} : Text.ofString s = Text.ofString t ↔ s = t := by
  constructor
  · intro h
    exact String.toList_inj.mp
      ((List.map_inj_right fun _ _ heq => CodePoint.ofChar_injective heq).mp h)
  · rintro rfl
    rfl

@[simp]
theorem Word.of_inj {s t : Text} : Word.of s = Word.of t ↔ s = t :=
  ⟨fun h => by simpa only [Word.text_of] using congrArg Word.text h, congrArg Word.of⟩

namespace Word

/-- How tightly a word clings to the expression before it, if it does. -/
def grip (w : Word) : Nat :=
  if w ∈ [.of "(", .of ".", .of "["] then 7
  else if w = .of "**" then 6
  else if w ∈ [.of "*", .of "/", .of "//", .of "%"] then 5
  else if w ∈ [.of "+", .of "-"] then 4
  else if w ∈ [.of "==", .of "!=", .of "<", .of ">", .of "<=", .of ">=", .of "in", .of "is"] then 3
  else if w = .of "and" then 2
  else if w = .of "or" then 1
  else 0

/-- The words that close a bracket. -/
def closers : List Word := [.of ")", .of "]", .of "\x7d"]

/-- Whether an atom can begin with the word. -/
def OpensAtom (w : Word) : Prop :=
  w.kind = .number ∨ w.kind = .string ∨
    (w.kind = .name ∧ (w.text ∉ Token.keywords ∨ (Parse.constant? w.text).isSome)) ∨
    w ∈ [.of "(", .of "[", .of "\x7b"]

end Word

namespace Level

/-- Whether an expression of the level can begin with a sign. -/
def hasSigns : Level → Bool
  | .power | .primary | .atom => false
  | _ => true

/-- Whether an expression of the level can begin with `not`. -/
def hasNot : Level → Bool
  | .list | .chain .or | .chain .and | .negation => true
  | _ => false

/-- Whether an expression of the level can begin with the word. -/
def Opens (l : Level) (w : Word) : Prop :=
  w.OpensAtom ∨ (l.hasSigns = true ∧ w ∈ [.of "-", .of "+"]) ∨ (l.hasNot = true ∧ w = .of "not")

end Level

/-- How tightly some words cling to the expression before them; `not` does so only before `in`. -/
def clings : List Word → Nat
  | [] => 0
  | w :: rest => if w = .of "not" ∧ rest.head? = some (.of "in") then 3 else w.grip

/-- The words end, or close a bracket. -/
def Closes (r : List Word) : Prop := ∀ w ∈ r.head?, w ∈ Word.closers

namespace Symbol

/-- The words cannot go on a phrase of the symbol. -/
def Stops : Symbol → List Word → Prop
  | .level .list, r => Closes r
  | .level l, r => clings r < l.tightness
  | .tail t, r => clings r < (Level.chain t).tightness
  | .comparisons, r => clings r < Level.comparison.tightness
  | .suffixes, r => clings r < Level.primary.tightness
  | .part, r => ∀ w ∈ r.head?, w ∈ Word.of ":" :: Word.closers
  | _, r => Closes r

/-- The words can begin a phrase of the symbol. No expression goes on with `=` behind a name. -/
def Begins : Symbol → List Word → Prop
  | .level l, ws =>
    ∃ w rest, ws = w :: rest ∧ l.Opens w ∧ (w.kind = .name → rest.head? ≠ some (.of "="))
  | .tail _, ws => ws.head? ≠ some (.of "=")
  | .comparisons, ws => ws.head? ≠ some (.of "=")
  | .suffixes, ws => ws.head? ≠ some (.of "=")
  | _, _ => True

end Symbol

/-! ## How tightly words cling -/

theorem clings_cons {w : Word} (hw : w ≠ .of "not") (rest : List Word) :
    clings (w :: rest) = w.grip := by
  rw [clings, if_neg fun h => hw h.1]

theorem clings_of_mem {w : Word} (hw : w ∈ [.of ",", .of ":", .of "="] ++ Word.closers)
    (rest : List Word) : clings (w :: rest) = 0 := by
  have hgrip : w ≠ .of "not" ∧ w.grip = 0 := by
    simp only [Word.closers, List.mem_append, List.mem_cons, List.not_mem_nil, or_false] at hw
    rcases hw with (rfl | rfl | rfl) | rfl | rfl | rfl <;> simp [Word.grip]
  rw [clings_cons hgrip.1, hgrip.2]

theorem Closes.clings_eq {r : List Word} (h : Closes r) : clings r = 0 := by
  cases r with
  | nil => rfl
  | cons w rest => exact clings_of_mem (List.mem_append_right _ (h w rfl)) rest

theorem closes_cons {w : Word} (hw : w ∈ Word.closers) (rest : List Word) : Closes (w :: rest) := by
  intro w' h
  cases h
  exact hw

/-- No operator with two operands is written as a word that is no operator. -/
theorem Joint.word_ne (op : Joint) : op.word ≠ .of "not" ∧ op.word ≠ .of "=" := by
  cases op with
  | boolean op => cases op <;> simp [word, BoolOp.symbol]
  | binary op => cases op <;> simp [word, BinaryOp.symbol]

/-- An operator clings as tightly as its chain says. -/
theorem Joint.clings_eq {op : Joint} {t : Tier} (h : op.tier = some t) (rest : List Word) :
    clings (op.word :: rest) = (Level.chain t).tightness := by
  rw [clings_cons op.word_ne.1]
  cases op with
  | boolean op => cases op <;> cases h <;> simp [word, BoolOp.symbol, Word.grip, Level.tightness]
  | binary op => cases op <;> cases h <;> simp [word, BinaryOp.symbol, Word.grip, Level.tightness]

/-- Operators are told apart by their words. -/
theorem Joint.word_inj {op op' : Joint} (h : op.word = op'.word) : op = op' := by
  cases op with
  | boolean op =>
    cases op' with
    | boolean op' => cases op <;> cases op' <;> simp [word, BoolOp.symbol] at h ⊢
    | binary op' => cases op <;> cases op' <;> simp [word, BoolOp.symbol, BinaryOp.symbol] at h
  | binary op =>
    cases op' with
    | boolean op' => cases op <;> cases op' <;> simp [word, BoolOp.symbol, BinaryOp.symbol] at h
    | binary op' => cases op <;> cases op' <;> simp [word, BinaryOp.symbol] at h ⊢

theorem CompareOp.clings_eq (op : CompareOp) (rest : List Word) :
    clings (op.words ++ rest) = Level.comparison.tightness := by
  cases op <;> simp [clings, words, Word.grip, Level.tightness]

/-- Comparison operators are told apart by their words, if no `not` follows an `is`. -/
theorem CompareOp.words_inj {op op' : CompareOp} {x x' : List Word}
    (hx : op = .isSame → x.head? ≠ some (.of "not"))
    (hx' : op' = .isSame → x'.head? ≠ some (.of "not"))
    (h : op.words ++ x = op'.words ++ x') : op = op' ∧ x = x' := by
  cases op <;> cases op' <;>
    simp [words] at h ⊢ <;>
    first
    | exact h
    | exact absurd (congrArg List.head? h) (hx rfl)
    | exact absurd (congrArg List.head? h).symm (hx' rfl)

/-- What clings is an operator, of the sort that its tightness says. -/
theorem Word.mem_of_grip (w : Word) :
    (w.grip = 7 → w ∈ [.of "(", .of ".", .of "["]) ∧ (w.grip = 6 → w = .of "**") ∧
      (w.grip = 5 → w ∈ [.of "*", .of "/", .of "//", .of "%"]) ∧
      (w.grip = 4 → w ∈ [.of "+", .of "-"]) ∧
      (w.grip = 3 → w ∈ [.of "==", .of "!=", .of "<", .of ">", .of "<=", .of ">=", .of "in", .of "is"]) ∧
      (w.grip = 2 → w = .of "and") ∧ (w.grip = 1 → w = .of "or") ∧ w.grip ≤ 7 := by
  unfold grip
  repeat' split
  all_goals simp_all

theorem grip_of_clings (w : Word) (rest : List Word) (h : clings (w :: rest) ≠ 3) :
    w.grip = clings (w :: rest) := by
  rw [clings] at h ⊢
  by_cases hnot : w = .of "not" ∧ rest.head? = some (.of "in")
  · exact absurd (if_pos hnot) h
  · rw [if_neg hnot]

theorem exists_joint_of_clings {t : Tier} {ws : List Word}
    (h : clings ws = (Level.chain t).tightness) :
    ∃ op : Joint, op.tier = some t ∧ ws.head? = some op.word := by
  cases ws with
  | nil => cases t <;> cases h
  | cons w rest =>
    have hgrip : w.grip = (Level.chain t).tightness := by
      rw [grip_of_clings, h]
      rw [h]
      cases t <;> simp [Level.tightness]
    obtain ⟨-, -, hproduct, hsum, -, hand, hor, -⟩ := w.mem_of_grip
    cases t with
    | or => exact ⟨.boolean .or, rfl, by rw [hor hgrip]; rfl⟩
    | and => exact ⟨.boolean .and, rfl, by rw [hand hgrip]; rfl⟩
    | sum =>
      have hmem := hsum hgrip
      simp only [List.mem_cons, List.not_mem_nil, or_false] at hmem
      rcases hmem with rfl | rfl
      · exact ⟨.binary .add, rfl, rfl⟩
      · exact ⟨.binary .sub, rfl, rfl⟩
    | product =>
      have hmem := hproduct hgrip
      simp only [List.mem_cons, List.not_mem_nil, or_false] at hmem
      rcases hmem with rfl | rfl | rfl | rfl
      · exact ⟨.binary .mul, rfl, rfl⟩
      · exact ⟨.binary .div, rfl, rfl⟩
      · exact ⟨.binary .floorDiv, rfl, rfl⟩
      · exact ⟨.binary .mod, rfl, rfl⟩

theorem exists_compareOp_of_clings {ws : List Word} (h : clings ws = Level.comparison.tightness) :
    ∃ (op : CompareOp) (rest : List Word), ws = op.words ++ rest := by
  cases ws with
  | nil => cases h
  | cons w rest =>
    rw [clings] at h
    by_cases hnot : w = .of "not" ∧ rest.head? = some (.of "in")
    · obtain ⟨rfl, hin⟩ := hnot
      obtain ⟨rest, rfl⟩ := List.head?_eq_some_iff.mp hin
      exact ⟨.notIn, rest, rfl⟩
    · rw [if_neg hnot] at h
      have hmem := w.mem_of_grip.2.2.2.2.1 h
      simp only [List.mem_cons, List.not_mem_nil, or_false] at hmem
      rcases hmem with rfl | rfl | rfl | rfl | rfl | rfl | rfl | rfl
      · exact ⟨.eq, rest, rfl⟩
      · exact ⟨.ne, rest, rfl⟩
      · exact ⟨.lt, rest, rfl⟩
      · exact ⟨.gt, rest, rfl⟩
      · exact ⟨.le, rest, rfl⟩
      · exact ⟨.ge, rest, rfl⟩
      · exact ⟨.isIn, rest, rfl⟩
      · exact ⟨.isSame, rest, rfl⟩

theorem head_of_clings_power {ws : List Word} (h : clings ws = Level.power.tightness) :
    ws.head? = some (.of "**") := by
  cases ws with
  | nil => cases h
  | cons w rest =>
    have hgrip := grip_of_clings w rest (by rw [h]; decide)
    rw [w.mem_of_grip.2.1 (hgrip.trans h)]
    rfl

theorem head_of_clings_primary {ws : List Word} (h : Level.primary.tightness ≤ clings ws) :
    ∃ w ∈ [Word.of "(", .of ".", .of "["], ws.head? = some w := by
  cases ws with
  | nil => exact absurd h (by decide)
  | cons w rest =>
    have hgrip := grip_of_clings w rest
      (fun heq => absurd (heq ▸ h) (by decide))
    have hle := w.mem_of_grip.2.2.2.2.2.2.2
    have hseven : w.grip = 7 := Nat.le_antisymm hle (hgrip ▸ h)
    exact ⟨w, w.mem_of_grip.1 hseven, rfl⟩

/-! ## How phrases begin -/

namespace Level

theorem Opens.ne_closer {l : Level} {w : Word} (h : l.Opens w) :
    w ∉ Word.of "=" :: .of ":" :: Word.closers := by
  intro hw
  simp only [Word.closers, List.mem_cons, List.not_mem_nil, or_false] at hw
  rcases hw with rfl | rfl | rfl | rfl | rfl <;>
    simp [Opens, Word.OpensAtom, Word.kind_of, Token.operators] at h

/-- A level within another begins with words that the other begins with. -/
theorem Opens.mono {l l' : Level} {w : Word} (h : l.Opens w) (hsigns : l.hasSigns ≤ l'.hasSigns)
    (hnot : l.hasNot ≤ l'.hasNot) : l'.Opens w := by
  rcases h with h | ⟨hs, h⟩ | ⟨hn, h⟩
  · exact .inl h
  · exact .inr (.inl ⟨hsigns hs, h⟩)
  · exact .inr (.inr ⟨hnot hn, h⟩)

end Level

namespace Symbol

/-- What an expression begins with, words around it begin with, if they go on as it can. -/
theorem Begins.append {l l' : Level} {ws rest : List Word} (h : (level l).Begins ws)
    (hsigns : l.hasSigns ≤ l'.hasSigns) (hnot : l.hasNot ≤ l'.hasNot)
    (hrest : rest.head? ≠ some (.of "=")) : (level l').Begins (ws ++ rest) := by
  obtain ⟨w, tail, rfl, hopens, heq⟩ := h
  refine ⟨w, tail ++ rest, rfl, hopens.mono hsigns hnot, fun hname => ?_⟩
  cases tail with
  | nil => exact hrest
  | cons w' tail => exact heq hname

theorem Begins.mono {l l' : Level} {ws : List Word} (h : (level l).Begins ws)
    (hsigns : l.hasSigns ≤ l'.hasSigns) (hnot : l.hasNot ≤ l'.hasNot) : (level l').Begins ws := by
  have happend : (level l').Begins (ws ++ []) := h.append hsigns hnot (by simp)
  rwa [List.append_nil] at happend

theorem Begins.head_ne {l : Level} {ws : List Word} (h : (level l).Begins ws) (rest : List Word) :
    (ws ++ rest).head? ≠ some (.of "=") := by
  obtain ⟨w, tail, rfl, hopens, _⟩ := h
  intro heq
  cases heq
  exact hopens.ne_closer List.mem_cons_self

end Symbol

namespace Phrase

theorem begins {s : Symbol} (p : Phrase s) : s.Begins p.words := by
  induction p with
  | single e ih => exact ih.mono (by decide) (by decide)
  | commas e rest ih _ => exact ih.append (by decide) (by decide) (by simp)
  | @chain t first rest ih ihrest =>
    cases t <;> exact ih.append (by decide) (by decide) ihrest
  | tailEnd => simp [Symbol.Begins, words]
  | tailMore op _ e rest _ _ =>
    simpa [Symbol.Begins, words] using op.word_ne.2
  | not e ih =>
    refine ⟨_, _, rfl, .inr (.inr ⟨rfl, rfl⟩), fun _ => ?_⟩
    simpa using ih.head_ne []
  | compared e ih => exact ih.mono (by decide) (by decide)
  | comparison first rest ih ihrest => exact ih.append (by decide) (by decide) ihrest
  | comparisonsEnd => simp [Symbol.Begins, words]
  | comparisonsMore op e rest _ _ => cases op <;> simp [Symbol.Begins, words, CompareOp.words]
  | signed op hop e ih =>
    refine ⟨_, _, rfl, .inr (.inl ⟨rfl, ?_⟩), fun _ => ?_⟩
    · cases op with
      | negative => simp [UnaryOp.symbol]
      | positive => simp [UnaryOp.symbol]
      | not => exact absurd rfl hop
    · simpa using ih.head_ne []
  | unsigned e ih => exact ih.mono (by decide) (by decide)
  | base e ih => exact ih.mono (by decide) (by decide)
  | power e exponent ih _ => exact ih.append (by decide) (by decide) (by simp)
  | primary e rest ih ihrest => exact ih.append (by decide) (by decide) ihrest
  | suffixesEnd => simp [Symbol.Begins, words]
  | call args rest _ _ => simp [Symbol.Begins, words]
  | attr label _ rest _ => simp [Symbol.Begins, words]
  | subscript i rest _ _ => simp [Symbol.Begins, words]
  | number text => exact ⟨_, _, rfl, .inl (.inl rfl), by simp⟩
  | string text => exact ⟨_, _, rfl, .inl (.inr (.inl rfl)), by simp⟩
  | constant text value h =>
    exact ⟨_, _, rfl, .inl (.inr (.inr (.inl ⟨rfl, .inr (by simp [h])⟩))), by simp⟩
  | name text h => exact ⟨_, _, rfl, .inl (.inr (.inr (.inl ⟨rfl, .inl h⟩))), by simp⟩
  | unit | group _ _ | tuple _ _ _ _ | list _ _ | dict _ _ | singleton _ _ | set _ _ _ _ =>
    refine ⟨_, _, rfl, .inl (.inr (.inr (.inr (by simp)))), fun h => ?_⟩
    simp [Word.kind_of, Token.operators] at h
  | _ => trivial

end Phrase

end Scriptlet
