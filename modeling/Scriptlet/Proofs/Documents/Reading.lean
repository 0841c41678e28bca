import Mathlib.Data.List.TakeDrop
import Mathlib.Data.List.TakeWhile
import Scriptlet.Proofs.Documents.Escapes
import Scriptlet.Proofs.ReadBack.Parsing

/-
  Written documents are read back.

  The text of a document without doubles is read as the document, with the halves in its texts and keys
  joined. On one line as well as with an indentation, what stands between two items is a comma and spaces,
  and spaces stand in front of a closing bracket.

  What is proved:
    1. `readNumber_ofInt`, `readWord?_of_digit` — a number is read up to what follows it, and is no name.
    2. `readItems_join`, `readEntries_join` — items and entries with commas between them are read up to the
       closing bracket.
    3. `reads_render` — a document is read up to what follows it, by induction on the document.
    4. `read_render` — a whole text is read.
-/

namespace Scriptlet

namespace Json

/-! ## What follows a value -/

/-- The text begins with nothing that would go on with a value: it is at its end, or a space, a comma or a
closing bracket is next. -/
def EndsValue (rest : Text) : Prop :=
  ∀ c ∈ rest.head?, isSpace c = true ∨ c.val = 44 ∨ c.val = 93 ∨ c.val = 125

/-- Only spaces. -/
def IsGap (t : Text) : Prop := ∀ c ∈ t, isSpace c = true

theorem EndsValue.val_eq {c : CodePoint} {rest : Text} (h : EndsValue (c :: rest)) :
    c.val = 32 ∨ c.val = 9 ∨ c.val = 10 ∨ c.val = 13 ∨ c.val = 44 ∨ c.val = 93 ∨ c.val = 125 := by
  have hc := h c rfl
  simp only [isSpace, Bool.or_eq_true, beq_iff_eq] at hc
  omega

theorem EndsValue.append {gap rest : Text} (hgap : IsGap gap) (hrest : EndsValue rest) :
    EndsValue (gap ++ rest) := by
  cases gap with
  | nil => exact hrest
  | cons c gap =>
    intro d hd
    cases hd
    exact .inl (hgap c (List.mem_cons_self ..))

theorem IsGap.append {gap more : Text} (hgap : IsGap gap) (hmore : IsGap more) : IsGap (gap ++ more) :=
  fun c hc => (List.mem_append.mp hc).elim (hgap c) (hmore c)

/-- Spaces are skipped up to what is none. -/
theorem skipSpace_append {gap : Text} (hgap : IsGap gap) {c : CodePoint} (hc : isSpace c = false)
    (rest : Text) : skipSpace (gap ++ c :: rest) = c :: rest := by
  unfold skipSpace
  rw [List.dropWhile_append_of_pos hgap, List.dropWhile_cons_of_neg (by rw [hc]; exact Bool.false_ne_true)]

/-! ## Numbers -/

section

variable {rest : Text}

theorem spanDigits_append {digits : Text} (hdigits : ∀ c ∈ digits, c.isAsciiDigit = true)
    (hrest : EndsValue rest) : spanDigits (digits ++ rest) = (digits, rest) := by
  have hnone : rest.takeWhile CodePoint.isAsciiDigit = [] ∧ rest.dropWhile CodePoint.isAsciiDigit = rest := by
    cases rest with
    | nil => exact ⟨rfl, rfl⟩
    | cons c rest =>
      have hc : ¬ c.isAsciiDigit = true := by
        have hval := hrest.val_eq
        simp only [CodePoint.isAsciiDigit, Bool.and_eq_true, decide_eq_true_eq]
        omega
      exact ⟨List.takeWhile_cons_of_neg hc, List.dropWhile_cons_of_neg hc⟩
  unfold spanDigits
  rw [List.span_eq_takeWhile_dropWhile, List.takeWhile_append_of_pos hdigits,
    List.dropWhile_append_of_pos hdigits, hnone.1, hnone.2, List.append_nil]

/-- Where a value ends, no fraction begins. -/
theorem readFraction_of_ends (hrest : EndsValue rest) : readFraction rest = ([], rest) := by
  cases rest with
  | nil => rfl
  | cons c rest =>
    have hpoint : (c.val == 46) = false := by
      have hval := hrest.val_eq
      simp only [beq_eq_false_iff_ne]
      omega
    simp only [readFraction, hpoint, Bool.false_and, Bool.false_eq_true, if_false]

/-- Where a value ends, no exponent begins. -/
theorem readExponent_of_ends (hrest : EndsValue rest) : readExponent rest = ([], rest) := by
  cases rest with
  | nil => rfl
  | cons c rest =>
    have hletter : (c.val == 101 || c.val == 69) = false := by
      have hval := hrest.val_eq
      simp only [Bool.or_eq_false_iff, beq_eq_false_iff_ne]
      omega
    simp only [readExponent, hletter, Bool.false_eq_true, if_false]

/-- The text of a number begins with a digit, which is a zero for zero only. -/
theorem exists_ofNat_cons (n : Nat) : ∃ c digits, Text.ofNat n = c :: digits ∧ c.isAsciiDigit = true ∧
    (c.val = 48 → n = 0) := by
  induction n using Nat.strongRecOn with
  | ind n ih =>
    unfold Text.ofNat at ih ⊢
    by_cases hsmall : n < 10
    · have hdigit : ∀ m < 10, (CodePoint.ofChar (Nat.digitChar m)).val = 48 + m := by decide
      have hval := hdigit n hsmall
      refine ⟨_, [], Text.ofNatBase_of_lt hsmall, ?_, by omega⟩
      simp only [CodePoint.isAsciiDigit, hval, Bool.and_eq_true, decide_eq_true_eq]
      omega
    · -- The first digit is that of the quotient, which is not zero.
      obtain ⟨c, digits, hfront, hdigit, hzero⟩ := ih (n / 10) (by omega)
      have hsplit : Text.ofNatBase 10 n = _ := Text.ofNatBase_of_le (by decide) (Nat.le_of_not_lt hsmall)
      rw [hfront, List.cons_append] at hsplit
      refine ⟨c, _, hsplit, hdigit, fun h => ?_⟩
      have hquotient := hzero h
      omega

/-- The integers that can be read. -/
abbrev IsShort (n : Int) : Prop := n.natAbs < tenTo NumberText.maxDigits

theorem readNumber_signed {n : Nat} (hn : n < tenTo NumberText.maxDigits) (hrest : EndsValue rest)
    {t : Text} {negative : Bool} (hsign : t = Text.ofNat n ++ rest ∧ negative = false ∨
      t = CodePoint.ofChar '-' :: (Text.ofNat n ++ rest) ∧ negative = true) :
    readNumber t = .ok (.int (if negative then -n else n), rest) := by
  obtain ⟨c, digits, hcons, hdigit, hzero⟩ := exists_ofNat_cons n
  have hspan : spanDigits (Text.ofNat n ++ rest) = (Text.ofNat n, rest) :=
    spanDigits_append (fun c => Text.isAsciiDigit_of_mem_ofNat) hrest
  have hshort : (Text.ofNat n).length ≤ NumberText.maxDigits := Data.length_ofNat_le hn (by decide)
  have hvalue := Data.digitsValue_ofNat n
  have hlead : (if c.val == 48 then ([c], digits ++ rest) else (c :: digits, rest)) = (c :: digits, rest) := by
    split
    · rename_i h
      rw [hzero (beq_iff_eq.mp h)] at hcons
      cases hcons
      rfl
    · rfl
  have hplain : (c.val == 45) = false := by
    simp only [CodePoint.isAsciiDigit, Bool.and_eq_true, decide_eq_true_eq] at hdigit
    simp only [beq_eq_false_iff_ne]
    omega
  have hminus : ((CodePoint.ofChar '-').val == 45) = true := rfl
  rw [hcons] at hspan hshort hvalue hsign
  simp only [List.cons_append] at hspan hsign
  obtain ⟨rfl, rfl⟩ | ⟨rfl, rfl⟩ := hsign <;>
    simp only [readNumber, hplain, hminus, hspan, List.drop_succ_cons, List.drop_zero, hlead,
      readFraction_of_ends hrest, readExponent_of_ends hrest, List.isEmpty_cons, List.isEmpty_nil,
      Bool.and_self, Bool.false_eq_true, if_true, if_false, gt_iff_lt, Nat.not_lt.mpr hshort, hvalue]

theorem readNumber_ofInt {n : Int} (hn : IsShort n) (hrest : EndsValue rest) :
    readNumber (Text.ofInt n ++ rest) = .ok (.int n, rest) := by
  cases n with
  | ofNat n => exact readNumber_signed hn hrest (.inl ⟨rfl, rfl⟩)
  | negSucc n => exact readNumber_signed hn hrest (.inr ⟨rfl, rfl⟩)

/-! ## Names -/

/-- No name of a value begins with a digit, with or without a minus in front. -/
theorem words_begin : ∀ entry ∈ words, (match entry.1 with
    | c :: d :: _ => decide (57 < c.val) || (c.val == 45 && decide (57 < d.val))
    | _ => false) = true := by
  decide

theorem readWord?_of_digit {c : CodePoint} (hc : c.isAsciiDigit = true) {t : Text}
    (ht : t = c :: rest ∨ t = CodePoint.ofChar '-' :: c :: rest) : readWord? t = none := by
  refine List.findSome?_eq_none_iff.mpr fun entry hentry => ?_
  have hbegin := words_begin entry hentry
  simp only [CodePoint.isAsciiDigit, Bool.and_eq_true, decide_eq_true_eq] at hc
  suffices hnone : Text.dropStart? entry.1 t = none by
    simp only [hnone, Option.map_none]
  split at hbegin
  · rename_i d e more hword
    simp only [Bool.or_eq_true, Bool.and_eq_true, decide_eq_true_eq, beq_iff_eq] at hbegin
    have hminus : (CodePoint.ofChar '-').val = 45 := rfl
    rw [hword]
    obtain rfl | rfl := ht
    · have hne : d ≠ c := by
        rintro rfl
        omega
      rw [Text.dropStart?, if_neg hne]
    · rw [Text.dropStart?]
      split
      · rename_i hd
        have hne : e ≠ c := by
          rintro rfl
          rw [hd] at hbegin
          omega
        rw [Text.dropStart?, if_neg hne]
      · rfl
  · cases hbegin

/-- What begins with no bracket and no quote is a name or a number. -/
theorem readValue_of_plain {room : Nat} {c : CodePoint} {more : Text} (hquote : c.val ≠ 34)
    (hbracket : c.val ≠ 91) (hbrace : c.val ≠ 123) : readValue (room + 1) (c :: more) =
      match readWord? (c :: more) with
      | some found => .ok found
      | none => readNumber (c :: more) := by
  show (if c.val == 34 then _ else if c.val == 91 then _ else if c.val == 123 then _ else _) = _
  exact (if_neg (by simpa using hquote)).trans
    ((if_neg (by simpa using hbracket)).trans (if_neg (by simpa using hbrace)))

end

/-! ## Items and entries -/

/-- The text begins with a code point that is no space, no closing bracket and no mark. -/
def BeginsValue (t : Text) : Prop :=
  ∃ c more, t = c :: more ∧ isSpace c = false ∧ c.val ≠ 93 ∧ c.val ≠ 125 ∧ c.val < 128

namespace BeginsValue

theorem append {t : Text} (h : BeginsValue t) (more : Text) : BeginsValue (t ++ more) := by
  obtain ⟨c, tail, rfl, hc⟩ := h
  exact ⟨c, tail ++ more, rfl, hc⟩

theorem join {t : Text} (h : BeginsValue t) (separator : Text) (texts : List Text) :
    BeginsValue (Text.join separator (t :: texts)) := by
  cases texts with
  | nil =>
    rw [Text.join_singleton]
    exact h
  | cons u texts =>
    rw [Text.join_cons_cons]
    exact h.append _

theorem skipSpace_eq {gap t : Text} (h : BeginsValue t) (hgap : IsGap gap) : skipSpace (gap ++ t) = t := by
  obtain ⟨c, tail, rfl, hc, -⟩ := h
  exact skipSpace_append hgap hc tail

end BeginsValue

theorem beginsValue_quoted (t : Text) : BeginsValue (quoted t) :=
  ⟨CodePoint.ofChar '"', _, rfl, rfl, by decide, by decide, by decide⟩

/-- What a function reads of a text, whatever follows it. -/
structure Reads (value : Text → Except ReadFault (Json × Text)) (t : Text) (j : Json) : Prop where
  begins : BeginsValue t
  reads : ∀ {rest : Text}, EndsValue rest → value (t ++ rest) = .ok (j, rest)

/-- A key between quotes and what a function reads behind it. -/
def ReadsEntry (value : Text → Except ReadFault (Json × Text)) (t : Text) (entry : Text × Json) : Prop :=
  ∃ key written, t = quoted key ++ (": " ++ written) ∧ entry.1 = key.joined ∧ Reads value written entry.2

theorem reads_ofInt {room : Nat} {n : Int} (hn : IsShort n) :
    Reads (readValue (room + 1)) (Text.ofInt n) (.int n) := by
  obtain ⟨c, digits, hcons, hdigit, -⟩ := exists_ofNat_cons n.natAbs
  have hsign : Text.ofInt n = c :: digits ∨ Text.ofInt n = CodePoint.ofChar '-' :: c :: digits := by
    rw [← hcons]
    cases n with
    | ofNat n => exact .inl rfl
    | negSucc n => exact .inr rfl
  have hrange : 48 ≤ c.val ∧ c.val ≤ 57 := by
    simpa only [CodePoint.isAsciiDigit, Bool.and_eq_true, decide_eq_true_eq] using hdigit
  have hspace : isSpace c = false := by
    simp only [isSpace, Bool.or_eq_false_iff, beq_eq_false_iff_ne]
    omega
  refine ⟨?_, fun {rest} hrest => ?_⟩
  · obtain hsign | hsign := hsign
    · exact ⟨c, digits, hsign, hspace, by omega, by omega, by omega⟩
    · exact ⟨CodePoint.ofChar '-', c :: digits, hsign, rfl, by decide, by decide, by decide⟩
  · have hnumber := readNumber_ofInt hn hrest
    have hword : readWord? (Text.ofInt n ++ rest) = none :=
      readWord?_of_digit hdigit (hsign.imp (congrArg (· ++ rest)) (congrArg (· ++ rest)))
    obtain hsign | hsign := hsign <;> rw [hsign, List.cons_append] at hword hnumber ⊢
    · rw [readValue_of_plain (by omega) (by omega) (by omega), hword]
      exact hnumber
    · rw [readValue_of_plain (by decide) (by decide) (by decide), hword]
      exact hnumber

theorem reads_quoted {room : Nat} (t : Text) : Reads (readValue (room + 1)) (quoted t) (.text t.joined) := by
  refine ⟨beginsValue_quoted t, fun {rest} _ => ?_⟩
  simp only [quoted, List.append_assoc]
  show (readQuoted (t.flatMap escape ++ CodePoint.ofChar '"' :: rest) >>= _) = _
  rw [readQuoted_quoted]
  rfl

section

variable {value : Text → Except ReadFault (Json × Text)} {blanks closing rest : Text}

theorem ReadsEntry.begins {t : Text} {entry : Text × Json} (h : ReadsEntry value t entry) : BeginsValue t := by
  obtain ⟨key, written, rfl, -⟩ := h
  exact (beginsValue_quoted key).append _

/-- The separator between items. -/
abbrev comma (blanks : Text) : Text := CodePoint.ofChar ',' :: blanks

theorem skipSpace_comma (blanks t : Text) :
    skipSpace (comma blanks ++ t) = CodePoint.ofChar ',' :: (blanks ++ t) :=
  rfl

theorem endsValue_cons {c : CodePoint} (hc : c.val = 44 ∨ c.val = 93 ∨ c.val = 125) : EndsValue (c :: rest) := by
  intro d hd
  cases hd
  exact .inr hc

theorem endsValue_comma (blanks t : Text) : EndsValue (comma blanks ++ t) := endsValue_cons (by decide)

theorem length_join_lt (t u : Text) (texts : List Text) :
    (Text.join (comma blanks) (u :: texts)).length < (Text.join (comma blanks) (t :: u :: texts)).length := by
  rw [Text.join_cons_cons, List.length_append, List.length_append, List.length_cons]
  omega

theorem skipSpace_join {t : Text} (h : BeginsValue t) (hblanks : IsGap blanks) (texts : List Text)
    (more : Text) : skipSpace (blanks ++ (Text.join (comma blanks) (t :: texts) ++ more)) =
      Text.join (comma blanks) (t :: texts) ++ more :=
  ((h.join _ texts).append more).skipSpace_eq hblanks

/-- An item is read up to what follows it. -/
theorem readItems_eq {t : Text} {j : Json} {done : List Json} (steps : Nat) (hj : Reads value t j)
    {more : Text} (hmore : EndsValue more) :
    readItems value (steps + 1) done (t ++ more) =
      match skipSpace more with
      | c :: rest =>
        if c.val == 93 then .ok (.array (j :: done).reverse, rest)
        else if c.val == 44 then readItems value steps (j :: done) (skipSpace rest)
        else .error (.at .comma (rest.length + 1))
      | [] => .error (.at .comma 0) := by
  rw [readItems, hj.reads hmore]
  rfl

/-- Items with commas between them are read up to the closing bracket. -/
theorem readItems_join (hblanks : IsGap blanks) (hclosing : IsGap closing) : ∀ {texts : List Text}
    {items done : List Json} {steps : Nat}, List.Forall₂ (Reads value) texts items → texts ≠ [] →
      (Text.join (comma blanks) texts).length < steps →
      readItems value steps done
          (Text.join (comma blanks) texts ++ (closing ++ CodePoint.ofChar ']' :: rest)) =
        .ok (.array (done.reverse ++ items), rest)
  | [t], [j], done, steps + 1, .cons hj .nil, _, _ => by
    have hend : EndsValue (closing ++ CodePoint.ofChar ']' :: rest) :=
      .append hclosing (endsValue_cons (by decide))
    rw [Text.join_singleton, readItems_eq steps hj hend, skipSpace_append hclosing (by decide)]
    show Except.ok (array (j :: done).reverse, rest) = _
    rw [List.reverse_cons]
  | t :: u :: texts, j :: items, done, steps + 1, .cons hj hrest, _, hsteps => by
    obtain ⟨_, _, hu, -⟩ := List.forall₂_cons_left_iff.mp hrest
    -- Steps are counted by code points, and the comma alone is one.
    have hlength := Nat.lt_of_lt_of_le (length_join_lt ..) (Nat.le_of_lt_succ hsteps)
    rw [Text.join_cons_cons, List.append_assoc, List.append_assoc,
      readItems_eq steps hj (endsValue_comma _ _), skipSpace_comma]
    show readItems value steps (j :: done) (skipSpace (blanks ++ _)) = _
    rw [skipSpace_join hu.begins hblanks,
      readItems_join hblanks hclosing hrest (List.cons_ne_nil _ _) hlength, List.reverse_cons,
      List.append_assoc, List.singleton_append]

/-- An entry is read up to what follows its value. -/
theorem readEntries_eq {key written : Text} {j : Json} {done : List (Text × Json)} (steps : Nat)
    (hj : Reads value written j) {more : Text} (hmore : EndsValue more) :
    readEntries value (steps + 1) done (quoted key ++ (": " ++ written) ++ more) =
      match skipSpace more with
      | c :: rest =>
        if c.val == 125 then .ok (.object ((key.joined, j) :: done).reverse, rest)
        else if c.val == 44 then readEntries value steps ((key.joined, j) :: done) (skipSpace rest)
        else .error (.at .comma (rest.length + 1))
      | [] => .error (.at .comma 0) := by
  have htext : quoted key ++ (": " ++ written) ++ more = CodePoint.ofChar '"' ::
      (key.flatMap escape ++ CodePoint.ofChar '"' :: (": " ++ (written ++ more))) := by
    simp only [quoted, List.append_assoc]
    rfl
  have hspace : IsGap [CodePoint.ofChar ' '] := fun c hc => by
    rw [List.mem_singleton.mp hc]
    rfl
  rw [htext]
  show (readQuoted (key.flatMap escape ++ CodePoint.ofChar '"' :: (": " ++ (written ++ more))) >>= _) = _
  rw [readQuoted_quoted]
  show (value (skipSpace ([CodePoint.ofChar ' '] ++ (written ++ more))) >>= _) = _
  rw [(hj.begins.append more).skipSpace_eq hspace, hj.reads hmore]
  rfl

/-- Entries with commas between them are read up to the closing brace. -/
theorem readEntries_join (hblanks : IsGap blanks) (hclosing : IsGap closing) : ∀ {texts : List Text}
    {entries done : List (Text × Json)} {steps : Nat}, List.Forall₂ (ReadsEntry value) texts entries →
      texts ≠ [] → (Text.join (comma blanks) texts).length < steps →
      readEntries value steps done
          (Text.join (comma blanks) texts ++ (closing ++ CodePoint.ofChar '\x7d' :: rest)) =
        .ok (.object (done.reverse ++ entries), rest)
  | [_], [(_, j)], done, steps + 1, .cons ⟨key, written, rfl, rfl, hj⟩ .nil, _, _ => by
    have hend : EndsValue (closing ++ CodePoint.ofChar '\x7d' :: rest) :=
      .append hclosing (endsValue_cons (by decide))
    rw [Text.join_singleton, readEntries_eq steps hj hend, skipSpace_append hclosing (by decide)]
    show Except.ok (object ((key.joined, j) :: done).reverse, rest) = _
    rw [List.reverse_cons]
  | _ :: u :: texts, (_, j) :: entries, done, steps + 1, .cons ⟨key, written, rfl, rfl, hj⟩ hrest, _, hsteps => by
    obtain ⟨_, _, hu, -⟩ := List.forall₂_cons_left_iff.mp hrest
    have hlength := Nat.lt_of_lt_of_le (length_join_lt ..) (Nat.le_of_lt_succ hsteps)
    rw [Text.join_cons_cons, List.append_assoc _ _ (closing ++ _), List.append_assoc (comma blanks),
      readEntries_eq steps hj (endsValue_comma _ _), skipSpace_comma]
    show readEntries value steps ((key.joined, j) :: done) (skipSpace (blanks ++ _)) = _
    rw [skipSpace_join hu.begins hblanks,
      readEntries_join hblanks hclosing hrest (List.cons_ne_nil _ _) hlength, List.reverse_cons,
      List.append_assoc, List.singleton_append]

end

/-! ## Documents -/

mutual

/-- The document holds no doubles, and its integers are not too long to be read. -/
def IsExact : Json → Prop
  | .null | .bool _ | .text _ => True
  | .int n => IsShort n
  | .float _ => False
  | .array items => AreExact items
  | .object entries => AreExactIn entries

def AreExact : List Json → Prop
  | [] => True
  | item :: rest => item.IsExact ∧ AreExact rest

def AreExactIn : List (Text × Json) → Prop
  | [] => True
  | (_, value) :: rest => value.IsExact ∧ AreExactIn rest

end

mutual

/-- How deep brackets stand inside each other. -/
def height : Json → Nat
  | .null | .bool _ | .int _ | .float _ | .text _ => 0
  | .array items => heights items + 1
  | .object entries => heightsIn entries + 1

def heights : List Json → Nat
  | [] => 0
  | item :: rest => max item.height (heights rest)

def heightsIn : List (Text × Json) → Nat
  | [] => 0
  | (_, value) :: rest => max value.height (heightsIn rest)

end

mutual

/-- The document as it is read: the halves in its texts and keys are joined. -/
def asRead : Json → Json
  | .text t => .text t.joined
  | .array items => .array (asReadAll items)
  | .object entries => .object (asReadIn entries)
  | .null => .null
  | .bool b => .bool b
  | .int n => .int n
  | .float x => .float x

def asReadAll : List Json → List Json
  | [] => []
  | item :: rest => item.asRead :: asReadAll rest

def asReadIn : List (Text × Json) → List (Text × Json)
  | [] => []
  | (key, value) :: rest => (key.joined, value.asRead) :: asReadIn rest

end

/-- Items are told apart by a comma, which spaces may follow. -/
def Layout.IsSpaced (layout : Layout) : Prop := ∃ blanks, layout.itemSeparator = comma blanks ∧ IsGap blanks

theorem Layout.isSpaced_line : Layout.line.IsSpaced := by
  refine ⟨[CodePoint.ofChar ' '], rfl, fun c hc => ?_⟩
  rw [List.mem_singleton.mp hc]
  rfl

theorem Layout.isSpaced_indented (width : Nat) : (Layout.indented width).IsSpaced := ⟨[], rfl, nofun⟩

theorem Layout.isGap_newLine (layout : Layout) (depth : Nat) : IsGap (layout.newLine depth) := by
  unfold newLine
  split
  · exact nofun
  · intro c hc
    obtain hc | hc := List.mem_append.mp hc
    · rw [List.mem_singleton.mp hc]
      rfl
    · rw [List.eq_of_mem_replicate hc]
      rfl

theorem Layout.bracket_cons (layout : Layout) (depth : Nat) (opening closing t : Text) (texts : List Text) :
    layout.bracket depth opening closing (t :: texts) =
      opening ++ (layout.newLine (depth + 1) ++
        (Text.join (layout.itemSeparator ++ layout.newLine (depth + 1)) (t :: texts) ++
          (layout.newLine depth ++ closing))) := by
  simp only [bracket, List.isEmpty_cons, Bool.false_eq_true, if_false, List.append_assoc]

section

variable {layout : Layout} {room depth : Nat}

theorem readValue_open {opening t : Text} (hopening : IsGap opening) (ht : BeginsValue t) :
    readValue (room + 1) (CodePoint.ofChar '[' :: (opening ++ t)) =
      readItems (readValue room) ((opening ++ t).length + 2) [] t := by
  show (match skipSpace (opening ++ t) with
    | d :: after => if d.val == 93 then _ else
      readItems (readValue room) ((opening ++ t).length + 2) [] (d :: after)
    | [] => _) = _
  rw [ht.skipSpace_eq hopening]
  obtain ⟨c, more, rfl, -, hc, -⟩ := ht
  exact if_neg (by simpa using hc)

theorem readValue_openBrace {opening t : Text} (hopening : IsGap opening) (ht : BeginsValue t) :
    readValue (room + 1) (CodePoint.ofChar '\x7b' :: (opening ++ t)) =
      readEntries (readValue room) ((opening ++ t).length + 2) [] t := by
  show (match skipSpace (opening ++ t) with
    | d :: after => if d.val == 125 then _ else
      readEntries (readValue room) ((opening ++ t).length + 2) [] (d :: after)
    | [] => _) = _
  rw [ht.skipSpace_eq hopening]
  obtain ⟨c, more, rfl, -, -, hc, -⟩ := ht
  exact if_neg (by simpa using hc)

theorem length_lt_inside (opening t rest : Text) : t.length < (opening ++ (t ++ rest)).length + 2 := by
  simp only [List.length_append]
  omega

/-- Items between brackets are read as an array. -/
theorem reads_array (hlayout : layout.IsSpaced) {texts : List Text} {items : List Json}
    (h : List.Forall₂ (Reads (readValue room)) texts items) :
    Reads (readValue (room + 1)) (layout.bracket depth "[" "]" texts) (.array items) := by
  have hbegin : ∀ t : Text, BeginsValue ("[" ++ t) := fun t =>
    ⟨CodePoint.ofChar '[', t, rfl, rfl, by decide, by decide, by decide⟩
  cases texts with
  | nil =>
    cases h
    exact ⟨hbegin _, fun _ => rfl⟩
  | cons t texts =>
    obtain ⟨blanks, hcomma, hblanks⟩ := hlayout
    obtain ⟨_, _, hj, -⟩ := List.forall₂_cons_left_iff.mp h
    rw [layout.bracket_cons, hcomma]
    refine ⟨hbegin _, fun {rest} _ => ?_⟩
    simp only [List.append_assoc]
    exact (readValue_open (layout.isGap_newLine _) ((hj.begins.join _ texts).append _)).trans
      (readItems_join (hblanks.append (layout.isGap_newLine _)) (layout.isGap_newLine _) h
        (List.cons_ne_nil _ _) (length_lt_inside _ _ _))

/-- Entries between braces are read as an object. -/
theorem reads_object (hlayout : layout.IsSpaced) {texts : List Text} {entries : List (Text × Json)}
    (h : List.Forall₂ (ReadsEntry (readValue room)) texts entries) :
    Reads (readValue (room + 1)) (layout.bracket depth "\x7b" "\x7d" texts) (.object entries) := by
  have hbegin : ∀ t : Text, BeginsValue ("\x7b" ++ t) := fun t =>
    ⟨CodePoint.ofChar '\x7b', t, rfl, rfl, by decide, by decide, by decide⟩
  cases texts with
  | nil =>
    cases h
    exact ⟨hbegin _, fun _ => rfl⟩
  | cons t texts =>
    obtain ⟨blanks, hcomma, hblanks⟩ := hlayout
    obtain ⟨_, _, hentry, -⟩ := List.forall₂_cons_left_iff.mp h
    rw [layout.bracket_cons, hcomma]
    refine ⟨hbegin _, fun {rest} _ => ?_⟩
    simp only [List.append_assoc]
    exact (readValue_openBrace (layout.isGap_newLine _) ((hentry.begins.join _ texts).append _)).trans
      (readEntries_join (hblanks.append (layout.isGap_newLine _)) (layout.isGap_newLine _) h
        (List.cons_ne_nil _ _) (length_lt_inside _ _ _))

mutual

/-- A document is read from its text, whatever the layout. -/
theorem reads_render (hlayout : layout.IsSpaced) : ∀ {j : Json} {room depth : Nat}, j.IsExact →
    j.height < room → Reads (readValue room) (render layout depth j) j.asRead
  | j, 0, _, _, h => absurd h (Nat.not_lt_zero _)
  | .null, room + 1, depth, _, _ => by
    rw [render, asRead]
    exact ⟨⟨CodePoint.ofChar 'n', _, rfl, rfl, by decide, by decide, by decide⟩, fun _ => rfl⟩
  | .bool true, room + 1, depth, _, _ => by
    rw [render, asRead]
    exact ⟨⟨CodePoint.ofChar 't', _, rfl, rfl, by decide, by decide, by decide⟩, fun _ => rfl⟩
  | .bool false, room + 1, depth, _, _ => by
    rw [render, asRead]
    exact ⟨⟨CodePoint.ofChar 'f', _, rfl, rfl, by decide, by decide, by decide⟩, fun _ => rfl⟩
  | .int n, room + 1, depth, hj, _ => by
    rw [IsExact] at hj
    rw [render, asRead]
    exact reads_ofInt hj
  | .float x, _, _, hj, _ => by
    rw [IsExact] at hj
    exact hj.elim
  | .text t, room + 1, depth, _, _ => by
    rw [render, asRead]
    exact reads_quoted t
  | .array items, room + 1, depth, hj, hroom => by
    rw [IsExact] at hj
    rw [height] at hroom
    rw [render, asRead]
    exact reads_array hlayout (reads_renderItems hlayout hj (Nat.lt_of_succ_lt_succ hroom))
  | .object entries, room + 1, depth, hj, hroom => by
    rw [IsExact] at hj
    rw [height] at hroom
    rw [render, asRead]
    exact reads_object hlayout (reads_renderEntries hlayout hj (Nat.lt_of_succ_lt_succ hroom))

theorem reads_renderItems (hlayout : layout.IsSpaced) : ∀ {items : List Json} {room depth : Nat},
    AreExact items → heights items < room →
      List.Forall₂ (Reads (readValue room)) (renderItems layout depth items) (asReadAll items)
  | [], _, _, _, _ => .nil
  | item :: items, room, depth, hitems, hroom => by
    rw [AreExact] at hitems
    rw [heights] at hroom
    rw [renderItems, asReadAll]
    exact .cons (reads_render hlayout hitems.1 (by omega)) (reads_renderItems hlayout hitems.2 (by omega))

theorem reads_renderEntries (hlayout : layout.IsSpaced) : ∀ {entries : List (Text × Json)} {room depth : Nat},
    AreExactIn entries → heightsIn entries < room →
      List.Forall₂ (ReadsEntry (readValue room)) (renderEntries layout depth entries) (asReadIn entries)
  | [], _, _, _, _ => .nil
  | (key, value) :: entries, room, depth, hentries, hroom => by
    rw [AreExactIn] at hentries
    rw [heightsIn] at hroom
    rw [renderEntries, asReadIn]
    exact .cons ⟨key, _, List.append_assoc .., rfl, reads_render hlayout hentries.1 (by omega)⟩
      (reads_renderEntries hlayout hentries.2 (by omega))

end

/-- The text of a document is read as the document with its halves joined. -/
theorem read_render (hlayout : layout.IsSpaced) {j : Json} (hj : j.IsExact) (hroom : j.height < room) :
    read room (render layout 0 j) = .ok j.asRead := by
  have hreads : Reads (readValue room) (render layout 0 j) j.asRead := reads_render hlayout hj hroom
  have hvalue : readValue room (render layout 0 j ++ []) = .ok (j.asRead, []) := hreads.reads nofun
  have hskip : skipSpace ([] ++ render layout 0 j) = render layout 0 j := hreads.begins.skipSpace_eq nofun
  have hmark : ¬ (render layout 0 j).head? = some (CodePoint.ofNat 0xFEFF) := by
    obtain ⟨c, more, hbegin, -, -, -, hascii⟩ := hreads.begins
    rw [hbegin]
    rintro ⟨⟩
    exact absurd hascii (by decide)
  rw [List.append_nil] at hvalue
  rw [List.nil_append] at hskip
  rw [read, if_neg hmark, hskip, hvalue]
  rfl

end

end Json

end Scriptlet
