import Scriptlet.Evaluation
import Scriptlet.Proofs.Parse.Whole
import Scriptlet.Proofs.ReadBack.Scanning

/-
  Written data is parsed as the expression that it is.

  Data has a derivation in the grammar of expressions (`Data.phrase`), which is written with the words of
  the data and means its expression. No other derivation is written with these words, so that is what
  the parser finds.

  What is proved:
    1. `Data.words_phrase`, `Data.meaning_phrase` — the words and the meaning of the derivation.
    2. `Data.read_written` — the expression that written data is read as.
-/

namespace Scriptlet

/-! ## Derivations without operators -/

namespace Phrase

/-- An atom as an operand of products. -/
def ofAtom (p : Phrase (.level .atom)) : Phrase (.level .factor) :=
  .unsigned (.base (.primary p .suffixesEnd))

/-- An operand of products as an expression. -/
def ofFactor (p : Phrase (.level .factor)) : Phrase (.level .expression) :=
  .chain (.chain (.compared (.comparison (.chain (.chain p .tailEnd) .tailEnd) .comparisonsEnd)) .tailEnd)
    .tailEnd

/-- Items with commas between them. -/
def ofItems : List (Phrase (.level .expression)) → Phrase .items
  | [] => .itemsEnd
  | [e] => .item e
  | e :: next :: rest => .itemMore e (ofItems (next :: rest))

/-- Entries with commas between them. -/
def ofEntries : List (Phrase (.level .expression) × Phrase (.level .expression)) → Phrase .entries
  | [] => .entriesEnd
  | [(key, value)] => .entry key value
  | (key, value) :: next :: rest => .entryMore key value (ofEntries (next :: rest))

theorem words_ofAtom (p : Phrase (.level .atom)) : (ofAtom p).words = p.words := by
  simp only [ofAtom, words, List.append_nil]

theorem words_ofFactor (p : Phrase (.level .factor)) : (ofFactor p).words = p.words := by
  simp only [ofFactor, words, List.append_nil]
  rfl

theorem meaning_ofAtom (p : Phrase (.level .atom)) : (ofAtom p).meaning = p.meaning := rfl

theorem meaning_ofFactor (p : Phrase (.level .factor)) : (ofFactor p).meaning = p.meaning := rfl

theorem words_ofItems : ∀ ps : List (Phrase (.level .expression)),
    (ofItems ps).words = Data.withCommas (ps.map words)
  | [] => rfl
  | [_] => rfl
  | e :: next :: rest => by
    rw [ofItems, words, words_ofItems (next :: rest)]
    rfl

theorem meaning_ofItems : ∀ ps : List (Phrase (.level .expression)),
    (ofItems ps).meaning = ps.map meaning
  | [] => rfl
  | [_] => rfl
  | e :: next :: rest => by
    rw [ofItems, meaning, meaning_ofItems (next :: rest)]
    rfl

theorem words_ofEntries : ∀ ps : List (Phrase (.level .expression) × Phrase (.level .expression)),
    (ofEntries ps).words = Data.withCommas (ps.map fun p => Data.entryWords p.1.words p.2.words)
  | [] => rfl
  | [_] => rfl
  | (key, value) :: next :: rest => by
    rw [ofEntries, words, words_ofEntries (next :: rest)]
    simp only [List.map_cons, Data.withCommas, Data.entryWords, List.append_assoc, List.cons_append]

theorem meaning_ofEntries : ∀ ps : List (Phrase (.level .expression) × Phrase (.level .expression)),
    (ofEntries ps).meaning = ps.map fun p => (p.1.meaning, p.2.meaning)
  | [] => rfl
  | [_] => rfl
  | (key, value) :: next :: rest => by
    rw [ofEntries, meaning, meaning_ofEntries (next :: rest)]
    rfl

end Phrase

/-! ## The derivation of data -/

namespace Data

open Phrase

mutual

/-- The derivation of the data as it is written. -/
def phrase : Data → Phrase (.level .factor)
  | .none => ofAtom (.constant "None" .none rfl)
  | .bool true => ofAtom (.constant "True" (.bool true) rfl)
  | .bool false => ofAtom (.constant "False" (.bool false) rfl)
  | .int n =>
    if n < 0 then .signed .negative (by decide) (ofAtom (.number (Text.ofNat n.natAbs)))
    else ofAtom (.number (Text.ofNat n.natAbs))
  | .text t => ofAtom (.string t.quoted)
  | .list items => ofAtom (.list (ofItems (phrases items)))
  | .tuple items =>
    match phrases items with
    | [] => ofAtom .unit
    | e :: rest => ofAtom (.tuple e (ofItems rest))
  | .dict ks vs => ofAtom (.dict (ofEntries ((phrases ks).zip (phrases vs))))
  | .set items =>
    match phrases items with
    | [] => ofAtom (.dict .entriesEnd)
    | [e] => ofAtom (.singleton e)
    | e :: next :: rest => ofAtom (.set e (ofItems (next :: rest)))

def phrases : List Data → List (Phrase (.level .expression))
  | [] => []
  | d :: rest => ofFactor d.phrase :: phrases rest

end

mutual

theorem words_phrase : ∀ d : Data, d.phrase.words = d.words
  | .none | .bool true | .bool false | .text _ => by
    rw [phrase, words_ofAtom, words]
    rfl
  | .int n => by
    rw [phrase, words]
    split
    · rw [Phrase.words, words_ofAtom]
      rfl
    · rw [words_ofAtom]
      rfl
  | .list items => by
    rw [phrase, words_ofAtom, Phrase.words, words_ofItems, words_phrases items, words]
  | .tuple items => by
    have hitems := words_phrases items
    cases items with
    | nil =>
      rw [phrase, phrases, words_ofAtom, words]
      rfl
    | cons d rest =>
      rw [phrase, words, ← hitems]
      cases rest with
      | nil =>
        simp only [phrases, words_ofAtom, Phrase.words, words_ofItems, List.map_cons, List.map_nil,
          withCommas, List.length_singleton, if_true, List.nil_append, List.cons_append]
      | cons next rest =>
        simp only [phrases, words_ofAtom, Phrase.words, words_ofItems, List.map_cons, withCommas,
          List.length_cons, List.append_assoc, List.cons_append]
        rw [if_neg (by omega), List.nil_append]
  | .dict ks vs => by
    have hks := words_phrases ks
    have hvs := words_phrases vs
    rw [phrase, words_ofAtom, Phrase.words, words_ofEntries, words, ← hks, ← hvs, List.zipWith_map,
      List.zip_eq_zipWith, List.map_zipWith]
  | .set items => by
    have hitems := words_phrases items
    cases items with
    | nil =>
      rw [phrase, phrases, words_ofAtom, words]
      rfl
    | cons d rest =>
      rw [phrase, words, ← hitems]
      cases rest with
      | nil => simp only [phrases, words_ofAtom, Phrase.words, List.map_cons, List.map_nil, withCommas]
      | cons next rest =>
        simp only [phrases, words_ofAtom, Phrase.words, words_ofItems, List.map_cons, withCommas,
          List.append_assoc, List.cons_append]

theorem words_phrases : ∀ ds : List Data, (phrases ds).map Phrase.words = wordsAll ds
  | [] => rfl
  | d :: ds => by
    rw [phrases, List.map_cons, words_ofFactor, words_phrase d, words_phrases ds, wordsAll]

end

/-! ## What the derivation means -/

theorem digitsValue_ofNat (n : Nat) : NumberText.digitsValue (Text.ofNat n) = n := by
  have hdigit : ∀ d ∈ Nat.toDigits 10 n, (CodePoint.ofChar d).digit?.getD 0 = d.toNat - '0'.toNat := by
    intro d hd
    have hrange : (CodePoint.ofChar d).isAsciiDigit = true :=
      Text.isAsciiDigit_of_mem_ofNat (List.mem_map_of_mem hd)
    have hlt : (CodePoint.ofChar d).val < 128 := by
      simp only [CodePoint.isAsciiDigit, Bool.and_eq_true, decide_eq_true_eq] at hrange
      omega
    unfold CodePoint.digit? CodePoint.asciiDigit?
    unfold CodePoint.isAsciiDigit at hrange
    rw [if_pos hlt, if_pos hrange]
    rfl
  calc NumberText.digitsValue (Text.ofNat n)
      = (Nat.toDigits 10 n).foldl (fun m d => 10 * m + (CodePoint.ofChar d).digit?.getD 0) 0 :=
        List.foldl_map
    _ = Nat.ofDigitChars 10 (Nat.toDigits 10 n) 0 :=
        List.foldl_ext _ _ _ fun m d hd => by rw [hdigit d hd]
    _ = n := Nat.ofDigitChars_toDigits (by decide) (by decide)

/-- The number that is written with the digits of a number. -/
theorem ofNumber_ofNat (n : Nat) : Literal.ofNumber (Text.ofNat n) = .int n := by
  have hwhole : (Text.ofNat n).any (fun c => c.val == 46 || c.val == 101 || c.val == 69) = false := by
    refine List.any_eq_false.mpr fun c hc => ?_
    have hrange := Text.isAsciiDigit_of_mem_ofNat hc
    simp only [CodePoint.isAsciiDigit, Bool.and_eq_true, decide_eq_true_eq] at hrange
    simp only [Bool.or_eq_true, beq_iff_eq]
    omega
  rw [Literal.ofNumber, hwhole, digitsValue_ofNat]
  rfl

mutual

theorem meaning_phrase : ∀ {d : Data}, d.IsReadable → d.phrase.meaning = d.expr
  | .none, _ | .bool true, _ | .bool false, _ => by
    rw [phrase, expr]
    rfl
  | .int n, _ => by
    rw [phrase, expr]
    split
    · rw [Phrase.meaning, meaning_ofAtom, Phrase.meaning, ofNumber_ofNat]
    · rw [meaning_ofAtom, Phrase.meaning, ofNumber_ofNat]
  | .text t, h => by
    rw [IsReadable] at h
    obtain ⟨-, -, hquoted⟩ := h.quoted_eq
    have hinside : ((t.quoted.drop 1).take (t.quoted.length - 2)) = t := by
      simp [hquoted]
    rw [phrase, expr, meaning_ofAtom, Phrase.meaning, hinside]
  | .list items, h => by
    rw [IsReadable] at h
    rw [phrase, expr, meaning_ofAtom, Phrase.meaning, meaning_ofItems, meaning_phrases h]
  | .tuple items, h => by
    rw [IsReadable] at h
    have hitems := meaning_phrases h
    cases items with
    | nil =>
      rw [phrase, expr]
      rfl
    | cons d rest =>
      rw [phrase, expr, ← hitems]
      simp only [phrases, meaning_ofAtom, Phrase.meaning, meaning_ofItems, List.map_cons]
  | .dict ks vs, h => by
    rw [IsReadable] at h
    have hks := meaning_phrases h.1
    have hvs := meaning_phrases h.2.1
    rw [phrase, expr, meaning_ofAtom, Phrase.meaning, meaning_ofEntries, ← hks, ← hvs, List.zip_map]
    rfl
  | .set items, h => by
    rw [IsReadable] at h
    obtain ⟨hread, hne, -, -⟩ := h
    have hitems := meaning_phrases hread
    cases items with
    | nil => exact absurd rfl hne
    | cons d rest =>
      rw [phrase, expr, ← hitems]
      cases rest with
      | nil => simp only [phrases, meaning_ofAtom, Phrase.meaning, List.map_cons, List.map_nil]
      | cons next rest =>
        simp only [phrases, meaning_ofAtom, Phrase.meaning, meaning_ofItems, List.map_cons]

theorem meaning_phrases : ∀ {ds : List Data}, AreReadable ds →
    (phrases ds).map Phrase.meaning = exprs ds
  | [], _ => rfl
  | d :: ds, h => by
    rw [AreReadable] at h
    rw [phrases, List.map_cons, meaning_ofFactor, meaning_phrase h.1, meaning_phrases h.2, exprs]

end

/-! ## Reading -/

theorem mem_withCommas {w : Word} : ∀ {wss : List (List Word)}, w ∈ withCommas wss →
    w = .of "," ∨ ∃ ws ∈ wss, w ∈ ws
  | [], h => by cases h
  | [ws], h => .inr ⟨ws, List.mem_cons_self .., h⟩
  | ws :: next :: rest, h => by
    rw [withCommas, List.mem_append, List.mem_cons] at h
    rcases h with h | rfl | h
    · exact .inr ⟨ws, List.mem_cons_self .., h⟩
    · exact .inl rfl
    · rcases mem_withCommas h with rfl | ⟨us, hus, hw⟩
      · exact .inl rfl
      · exact .inr ⟨us, List.mem_cons_of_mem _ hus, hw⟩

/-- The word is no number of more digits than are converted. -/
def IsShort (w : Word) : Prop := w.kind = .number → w.text.length ≤ NumberText.maxDigits

theorem isShort_of (text : Text) : IsShort (.of text) := by
  intro hkind
  rw [Word.kind_of] at hkind
  split at hkind <;> cases hkind

theorem isShort_withCommas {wss : List (List Word)} (h : ∀ ws ∈ wss, ∀ w ∈ ws, IsShort w) :
    ∀ w ∈ withCommas wss, IsShort w := by
  intro w hw
  rcases mem_withCommas hw with rfl | ⟨ws, hws, hw⟩
  · exact isShort_of ","
  · exact h ws hws w hw

theorem length_ofNat_le {n k : Nat} (h : n < tenTo k) (hk : 0 < k) : (Text.ofNat n).length ≤ k := by
  rw [Text.ofNat, Text.ofNatBase, List.length_map]
  exact (Nat.length_toDigits_le_iff (by decide) hk).mpr h

theorem isShort_brackets {opening closing : Text} {inside : List Word} (h : ∀ w ∈ inside, IsShort w) :
    ∀ w ∈ .of opening :: (inside ++ [.of closing]), IsShort w := by
  intro w hw
  rw [List.mem_cons, List.mem_append, List.mem_singleton] at hw
  rcases hw with rfl | hw | rfl
  · exact isShort_of opening
  · exact h w hw
  · exact isShort_of closing

theorem isShort_entries {wss uss : List (List Word)} (hwss : ∀ ws ∈ wss, ∀ w ∈ ws, IsShort w)
    (huss : ∀ us ∈ uss, ∀ w ∈ us, IsShort w) :
    ∀ ws ∈ List.zipWith entryWords wss uss, ∀ w ∈ ws, IsShort w := by
  intro ws hws w hw
  rw [← List.map_uncurry_zip_eq_zipWith] at hws
  obtain ⟨⟨key, value⟩, hmem, rfl⟩ := List.mem_map.mp hws
  obtain ⟨hkey, hvalue⟩ := List.of_mem_zip hmem
  have hcases : w ∈ key ∨ w = .of ":" ∨ w ∈ value := by
    rw [Function.uncurry_apply_pair, entryWords, List.mem_append, List.mem_cons] at hw
    exact hw
  rcases hcases with hw | rfl | hw
  · exact hwss key hkey w hw
  · exact isShort_of ":"
  · exact huss value hvalue w hw

mutual

/-- The numbers in readable data are short. -/
theorem isShort_words : ∀ {d : Data}, d.IsReadable → ∀ w ∈ d.words, IsShort w
  | .none, _ | .bool _, _ | .text _, _ => by
    intro w hw hkind
    rw [words, List.mem_singleton] at hw
    rw [hw] at hkind
    cases hkind
  | .int n, h => by
    rw [IsReadable] at h
    have hnumber : IsShort ⟨.number, Text.ofNat n.natAbs⟩ := fun _ => length_ofNat_le h (by decide)
    rw [words]
    split
    · exact List.forall_mem_cons.mpr ⟨isShort_of "-", List.forall_mem_singleton.mpr hnumber⟩
    · exact List.forall_mem_singleton.mpr hnumber
  | .list items, h => by
    rw [IsReadable] at h
    rw [words]
    exact isShort_brackets (isShort_withCommas (isShort_wordsAll h))
  | .tuple items, h => by
    rw [IsReadable] at h
    have hitems := isShort_withCommas (isShort_wordsAll h)
    rw [words, ← List.append_assoc]
    refine isShort_brackets fun w hw => ?_
    rcases List.mem_append.mp hw with hw | hw
    · exact hitems w hw
    · split at hw
      · rw [List.mem_singleton.mp hw]
        exact isShort_of ","
      · cases hw
  | .dict ks vs, h => by
    rw [IsReadable] at h
    rw [words]
    exact isShort_brackets
      (isShort_withCommas (isShort_entries (isShort_wordsAll h.1) (isShort_wordsAll h.2.1)))
  | .set items, h => by
    rw [IsReadable] at h
    rw [words]
    exact isShort_brackets (isShort_withCommas (isShort_wordsAll h.1))

theorem isShort_wordsAll : ∀ {ds : List Data}, AreReadable ds → ∀ ws ∈ wordsAll ds, ∀ w ∈ ws, IsShort w
  | [], _ => by
    intro ws hws
    cases hws
  | d :: ds, h => by
    rw [AreReadable] at h
    rw [wordsAll]
    exact List.forall_mem_cons.mpr ⟨isShort_words h.1, isShort_wordsAll h.2⟩

end

/-- Written data is read as its expression. -/
theorem read_written {d : Data} (hd : d.IsReadable) (levels : Nat)
    (hlevels : 10 * d.words.length + 13 ≤ levels) :
    ∃ e, Evaluation.read levels d.written = .ok e ∧ e.bare = d.expr := by
  obtain ⟨tokens, hscan, hwords⟩ := scan_written hd
  have hlength : tokens.length = d.words.length := by rw [← hwords, List.length_map]
  have hlexed : Lexed (tokens.map Token.word) :=
    Token.scan_lexed hscan fun token htoken hinteger =>
      isShort_words hd token.word (hwords ▸ List.mem_map_of_mem htoken) hinteger.1
  have hderives : Derives (tokens.map Token.word) d.expr :=
    ⟨.single (ofFactor d.phrase), by rw [Phrase.words, words_ofFactor, words_phrase, hwords],
      by rw [Phrase.meaning, meaning_ofFactor, meaning_phrase hd]⟩
  have hroom : 10 * tokens.length + 10 ≤ levels - Evaluation.readingLevels := by
    show _ ≤ levels - 3
    omega
  have hparse : ∀ room, Expr.parse room d.written = Expr.parseWhole room d.written := fun room => by
    rw [Expr.parse, (part_written hd).trimmed]
  obtain ⟨e, hparsed, hexpr⟩ := Expr.exists_parseWhole hscan hlexed hderives hroom
  exact ⟨e, by rw [Evaluation.read, hparse, hparsed], hexpr⟩

end Data

end Scriptlet
