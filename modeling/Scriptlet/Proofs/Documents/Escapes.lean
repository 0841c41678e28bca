import Mathlib.Data.List.Basic
import Scriptlet.Json.Reading

/-
  Texts between quotes in documents.

  A written text is ASCII: some code points have an escape of their own, and every other one is written by
  its UTF-16 units. What is read is the same text, but for surrogates: two halves that stand side by side in
  the text are written like the units of one code point, and are read as that.

  What is proved:
    1. `exists_unitEscape` — a unit is written by four digits, which write its number.
    2. `spells_escape` — how a code point is written; `lowHalf?_escape` tells from what is written whether it
       is a second half.
    3. `readString_escape`, `readString_pair` — a code point that begins no pair is read as it is, two halves
       side by side are read as one code point.
    4. `readQuoted_quoted` — a written text is read as the text with its halves joined.
-/

namespace Scriptlet

/-! ## Halves of pairs -/

namespace CodePoint

/-- Whether the code point is the first half of a pair. -/
def isFirstHalf (c : CodePoint) : Bool := 0xD800 ≤ c.val && c.val < 0xDC00

/-- Whether the code point is the second half of a pair. -/
def isSecondHalf (c : CodePoint) : Bool := 0xDC00 ≤ c.val && c.val < 0xE000

/-- The code point that two halves make. -/
def join (first second : CodePoint) : CodePoint :=
  ofNat (0x10000 + (first.val - 0xD800) * 0x400 + (second.val - 0xDC00))

theorem eq_of_val_eq {c d : CodePoint} (h : c.val = d.val) : c = d := by
  cases c
  cases d
  cases h
  rfl

theorem ofNat_val (c : CodePoint) : ofNat c.val = c := by
  unfold ofNat ofNat?
  rw [dif_pos c.lt]
  rfl

end CodePoint

namespace Text

/-- The text with a first half and a second half joined wherever they stand side by side. -/
def joined : Text → Text
  | [] => []
  | [c] => [c]
  | a :: b :: rest =>
    if a.isFirstHalf && b.isSecondHalf then a.join b :: joined rest else a :: joined (b :: rest)

/-- No first half stands in front of a second half. -/
def HasNoPair : Text → Prop
  | [] | [_] => True
  | a :: b :: rest => (a.isFirstHalf && b.isSecondHalf) = false ∧ HasNoPair (b :: rest)

theorem ofNatBase_of_lt {base n : Nat} (h : n < base) :
    ofNatBase base n = [CodePoint.ofChar (Nat.digitChar n)] := by
  rw [ofNatBase, Nat.toDigits_of_lt_base h, List.map_singleton]

/-- The last digit of a number stands behind the digits of the quotient. -/
theorem ofNatBase_of_le {base n : Nat} (hbase : 1 < base) (h : base ≤ n) :
    ofNatBase base n = ofNatBase base (n / base) ++ [CodePoint.ofChar (Nat.digitChar (n % base))] := by
  have hlast : n % base < base := Nat.mod_lt n (by omega)
  have hsplit := Nat.toDigits_append_toDigits hbase (Nat.div_pos h (by omega)) hlast
  rw [Nat.div_add_mod, Nat.toDigits_of_lt_base hlast] at hsplit
  rw [ofNatBase, ← hsplit, List.map_append, List.map_singleton]
  rfl

theorem HasNoPair.joined_eq : ∀ {t : Text}, t.HasNoPair → t.joined = t
  | [], _ | [_], _ => rfl
  | a :: b :: rest, h => by
    rw [joined, if_neg (by rw [h.1]; exact Bool.false_ne_true), h.2.joined_eq]

end Text

namespace Json

/-! ## Units -/

theorem hexValue?_append (front : Text) (d : CodePoint) :
    hexValue? (front ++ [d]) = (hexValue? front).bind fun n => (hexDigit? d).map (16 * n + ·) := by
  unfold hexValue?
  rw [List.foldlM_append]
  simp [List.foldlM_cons]

theorem hexDigit?_digitChar {n : Nat} (h : n < 16) :
    hexDigit? (CodePoint.ofChar (Nat.digitChar n)) = some n := by
  revert h
  revert n
  decide

/-- The digits of a number to the base sixteen write the number. -/
theorem hexValue?_ofNatBase (n : Nat) : hexValue? (Text.ofNatBase 16 n) = some n := by
  induction n using Nat.strongRecOn with
  | ind n ih =>
    by_cases hsmall : n < 16
    · rw [Text.ofNatBase_of_lt hsmall]
      simp [hexValue?, List.foldlM_cons, hexDigit?_digitChar hsmall]
    · rw [Text.ofNatBase_of_le (by decide) (by omega), hexValue?_append, ih (n / 16) (by omega),
        hexDigit?_digitChar (Nat.mod_lt n (by decide))]
      simp [Nat.div_add_mod]

/-- Zeros in front change nothing. -/
theorem hexValue?_zeros (k : Nat) (t : Text) :
    hexValue? (List.replicate k (CodePoint.ofChar '0') ++ t) = hexValue? t := by
  induction k with
  | zero => rfl
  | succ k ih =>
    rw [List.replicate_succ, List.cons_append]
    exact ih

/-- A unit is written by four digits, which write its number. -/
theorem exists_unitEscape {n : Nat} (h : n < 0x10000) : ∃ d₁ d₂ d₃ d₄ : CodePoint,
    unitEscape n = [CodePoint.ofChar '\\', CodePoint.ofChar 'u', d₁, d₂, d₃, d₄] ∧
      hexValue? [d₁, d₂, d₃, d₄] = some n := by
  have hvalue : hexValue? ((Text.ofNatBase 16 n).padLeft 4 '0') = some n := by
    rw [Text.padLeft, hexValue?_zeros, hexValue?_ofNatBase]
  have hshort : (Text.ofNatBase 16 n).length ≤ 4 := by
    rw [Text.ofNatBase, List.length_map]
    exact (Nat.length_toDigits_le_iff (by decide) (by decide)).mpr h
  have hlength : ((Text.ofNatBase 16 n).padLeft 4 '0').length = 4 := by
    rw [Text.padLeft, List.length_append, List.length_replicate]
    omega
  obtain ⟨d₁, d₂, d₃, d₄, hdigits⟩ := List.length_eq_four.mp hlength
  rw [hdigits] at hvalue
  exact ⟨d₁, d₂, d₃, d₄, by rw [unitEscape, hdigits]; rfl, hvalue⟩

/-! ## Code points as they are written -/

/-- How a code point stands between quotes: behind a backslash with a letter of its own, as itself, or by
one or two units. -/
inductive Spells (c : CodePoint) : Text → Prop
  | letter (e : CodePoint) : unescape? e = some c → e.val ≠ 117 → Spells c [CodePoint.ofChar '\\', e]
  | plain : 32 ≤ c.val → c.val < 127 → c.val ≠ 34 → c.val ≠ 92 → Spells c [c]
  | unit : c.val < 0x10000 → Spells c (unitEscape c.val)
  | units : 0x10000 ≤ c.val → Spells c (unitEscape (0xD800 + (c.val - 0x10000) / 0x400) ++
      unitEscape (0xDC00 + (c.val - 0x10000) % 0x400))

theorem spells_escape (c : CodePoint) : Spells c (escape c) := by
  have hletter : ∀ (e : Char) (d : CodePoint), c.val = d.val → unescape? e = some d →
      (CodePoint.ofChar e).val ≠ 117 → Spells c [CodePoint.ofChar '\\', e] := by
    intro e d hval hread hunit
    refine .letter e ?_ hunit
    rw [hread, CodePoint.eq_of_val_eq hval]
  unfold escape
  split
  case h_1 hval => exact hletter '"' '"' hval rfl (by decide)
  case h_2 hval => exact hletter '\\' '\\' hval rfl (by decide)
  case h_3 hval => exact hletter 'b' '\x08' hval rfl (by decide)
  case h_4 hval => exact hletter 't' '\t' hval rfl (by decide)
  case h_5 hval => exact hletter 'n' '\n' hval rfl (by decide)
  case h_6 hval => exact hletter 'f' '\x0c' hval rfl (by decide)
  case h_7 hval => exact hletter 'r' '\r' hval rfl (by decide)
  case h_8 hquote hbackslash _ _ _ _ _ =>
    split
    · rename_i hplain
      obtain ⟨hlow, hhigh⟩ : 32 ≤ c.val ∧ c.val ≤ 126 := by simpa using hplain
      exact .plain hlow (Nat.lt_succ_of_le hhigh) hquote hbackslash
    · split
      · exact .unit ‹_›
      · exact .units (Nat.le_of_not_lt ‹_›)

/-! ## Reading -/

variable {c : CodePoint} {rest more : Text}

theorem lowHalf?_of_plain {b : CodePoint} (hb : b.val ≠ 92) (t : Text) :
    lowHalf? (b :: t) = .ok none := by
  unfold lowHalf?
  split
  · rename_i heq
    cases heq
    simp [hb]
  · rfl

theorem lowHalf?_of_letter {b e : CodePoint} (he : e.val ≠ 117) (t : Text) :
    lowHalf? (b :: e :: t) = .ok none := by
  unfold lowHalf?
  split
  · rename_i heq
    cases heq
    simp [he]
  · rfl

/-- A unit that something follows is the second half of a pair or none. -/
theorem lowHalf?_unitEscape {n : Nat} (h : n < 0x10000) (hrest : rest ≠ []) :
    lowHalf? (unitEscape n ++ rest) =
      .ok (if 0xDC00 ≤ n && n < 0xE000 then some (n, rest) else none) := by
  obtain ⟨d₁, d₂, d₃, d₄, hdigits, hvalue⟩ := exists_unitEscape h
  have hsome : rest.isEmpty = false := List.isEmpty_eq_false_iff.mpr hrest
  rw [hdigits]
  simp only [List.cons_append, List.nil_append, lowHalf?, hvalue, hsome]
  rfl

theorem lt_of_unescape? {e : CodePoint} (h : unescape? e = some c) : c.val < 128 := by
  unfold unescape? at h
  split at h <;> cases h <;> decide

/-- What is written behind a first half is a second half exactly if it is one in the text. -/
theorem lowHalf?_escape (hmore : more ≠ []) :
    lowHalf? (escape c ++ more) = .ok (if c.isSecondHalf then some (c.val, more) else none) := by
  have hspells := spells_escape c
  generalize escape c = written at hspells ⊢
  have hnot : c.val < 0xDC00 ∨ 0xE000 ≤ c.val → c.isSecondHalf = false := by
    intro h
    simp only [CodePoint.isSecondHalf, Bool.and_eq_false_iff, decide_eq_false_iff_not]
    omega
  -- Only what is written by one unit can be a half; of two units the first one is none.
  cases hspells with
  | letter e hread hunit =>
    have hlow := lt_of_unescape? hread
    rw [hnot (by omega)]
    exact lowHalf?_of_letter hunit more
  | plain _ hhigh _ hbackslash =>
    rw [hnot (by omega)]
    exact lowHalf?_of_plain hbackslash more
  | unit h => exact lowHalf?_unitEscape h hmore
  | units h =>
    have hlt := c.lt
    have hsome : unitEscape (0xDC00 + (c.val - 0x10000) % 0x400) ++ more ≠ [] :=
      List.append_ne_nil_of_right_ne_nil _ hmore
    rw [hnot (by omega), List.append_assoc, lowHalf?_unitEscape (by omega) hsome, if_neg]
    · rfl
    · simp only [Bool.and_eq_true, decide_eq_true_eq]
      omega

theorem joined_of_not_first {unit : Nat} (h : ¬ (0xD800 ≤ unit ∧ unit < 0xDC00)) (t : Text) :
    joined unit t = .ok (CodePoint.ofNat unit, t) := by
  unfold joined
  rw [if_neg (by simpa using h)]

theorem joined_of_none {unit : Nat} {t : Text} (h : lowHalf? t = .ok none) :
    joined unit t = .ok (CodePoint.ofNat unit, t) := by
  unfold joined
  split
  · rw [h]
  · rfl

theorem joined_of_some {unit low : Nat} {t : Text} (hunit : 0xD800 ≤ unit ∧ unit < 0xDC00)
    (h : lowHalf? t = .ok (some (low, rest))) :
    joined unit t = .ok (CodePoint.ofNat (0x10000 + (unit - 0xD800) * 0x400 + (low - 0xDC00)), rest) := by
  unfold joined
  rw [if_pos (by simpa using hunit), h]

theorem val_backslash : (CodePoint.ofChar '\\').val = 92 := rfl

theorem val_unit : (CodePoint.ofChar 'u').val = 117 := rfl

section

variable {left steps : Nat} {done : Text}

/-- A unit is read, perhaps together with the second half that follows it. -/
theorem readString_unit {n : Nat} {d : CodePoint} (hn : n < 0x10000) (hmore : more ≠ [])
    (hjoined : joined n more = .ok (d, rest)) :
    readString left (steps + 1) done (unitEscape n ++ more) = readString left steps (d :: done) rest := by
  obtain ⟨d₁, d₂, d₃, d₄, hdigits, hvalue⟩ := exists_unitEscape hn
  obtain ⟨next, after, rfl⟩ := List.exists_cons_of_ne_nil hmore
  rw [hdigits]
  simp only [List.cons_append, List.nil_append, readString, val_backslash, val_unit, Nat.reduceBEq,
    Bool.false_eq_true, if_false, if_true, hvalue, hjoined]

/-- A code point that begins no pair is read as it is written. -/
theorem readString_escape (hmore : more ≠ []) (halone : c.isFirstHalf = false ∨ lowHalf? more = .ok none) :
    readString left (steps + 1) done (escape c ++ more) = readString left steps (c :: done) more := by
  have hspells := spells_escape c
  generalize escape c = written at hspells ⊢
  cases hspells with
  | letter e hread hunit =>
    have hletter : (e.val == 117) = false := beq_eq_false_iff_ne.mpr hunit
    simp only [List.cons_append, List.nil_append, readString, val_backslash, Nat.reduceBEq,
      Bool.false_eq_true, if_false, if_true, hletter, hread]
  | plain hlow hhigh hquote hbackslash =>
    show (if c.val == 34 then _ else if c.val == 92 then _ else if c.val < 32 then _ else
      readString left steps (c :: done) more) = _
    rw [if_neg (by simpa using hquote), if_neg (by simpa using hbackslash), if_neg (Nat.not_lt.mpr hlow)]
  | unit h =>
    refine readString_unit h hmore ?_
    obtain hnot | hnone := halone
    · have hrange : ¬ (0xD800 ≤ c.val ∧ c.val < 0xDC00) := by simpa [CodePoint.isFirstHalf] using hnot
      rw [joined_of_not_first hrange, CodePoint.ofNat_val]
    · rw [joined_of_none hnone, CodePoint.ofNat_val]
  | units h =>
    have hlt := c.lt
    have hsecond := lowHalf?_unitEscape (n := 0xDC00 + (c.val - 0x10000) % 0x400) (by omega) hmore
    rw [if_pos (by simp only [Bool.and_eq_true, decide_eq_true_eq]; omega)] at hsecond
    rw [List.append_assoc, readString_unit (by omega) (List.append_ne_nil_of_right_ne_nil _ hmore)
      (joined_of_some (by omega) hsecond)]
    have hval : 0x10000 + (0xD800 + (c.val - 0x10000) / 0x400 - 0xD800) * 0x400 +
        (0xDC00 + (c.val - 0x10000) % 0x400 - 0xDC00) = c.val := by
      omega
    rw [hval, CodePoint.ofNat_val]

/-- Two halves that stand side by side are read as one code point. -/
theorem readString_pair {a b : CodePoint} (hfirst : a.isFirstHalf = true) (hsecond : b.isSecondHalf = true)
    (hmore : more ≠ []) :
    readString left (steps + 1) done (escape a ++ (escape b ++ more)) =
      readString left steps (a.join b :: done) more := by
  have hrange : 0xD800 ≤ a.val ∧ a.val < 0xDC00 := by simpa [CodePoint.isFirstHalf] using hfirst
  have hspells := spells_escape a
  generalize escape a = written at hspells ⊢
  -- A half is written by one unit: the other ways to write a code point are for others.
  cases hspells with
  | letter e hread _ =>
    have hlow := lt_of_unescape? hread
    omega
  | plain _ hhigh _ _ => omega
  | unit h =>
    have hhalf := lowHalf?_escape (c := b) hmore
    rw [if_pos hsecond] at hhalf
    exact readString_unit h (List.append_ne_nil_of_right_ne_nil _ hmore) (joined_of_some hrange hhalf)
  | units h => omega

/-- Up to the closing quote a written text is read as the text with its halves joined. -/
theorem readString_flatMap (t : Text) : ∀ {steps : Nat} {done : Text}, t.length < steps →
    readString left steps done (t.flatMap escape ++ CodePoint.ofChar '"' :: rest) =
      .ok (done.reverse ++ t.joined, rest) := by
  have hclose : ∀ {t : Text}, t ++ CodePoint.ofChar '"' :: rest ≠ [] :=
    List.append_ne_nil_of_right_ne_nil _ (List.cons_ne_nil _ _)
  -- The induction goes over the text as `joined` does: a pair is taken in one step.
  induction t using Text.joined.induct with
  | case1 =>
    rintro (_ | steps) done hsteps
    · exact absurd hsteps (Nat.lt_irrefl 0)
    · rw [Text.joined, List.append_nil]
      rfl
  | case2 c =>
    rintro (_ | _ | steps) done hsteps
    · exact absurd hsteps (Nat.not_lt_zero _)
    · exact absurd hsteps (Nat.lt_irrefl 1)
    · rw [List.flatMap_singleton, readString_escape (List.cons_ne_nil _ _)
        (.inr (lowHalf?_of_plain (by decide) rest)), Text.joined, ← List.reverse_cons]
      rfl
  | case3 a b t hpair ih =>
    rintro (_ | steps) done hsteps
    · exact absurd hsteps (Nat.not_lt_zero _)
    obtain ⟨hfirst, hsecond⟩ := Bool.and_eq_true_iff.mp hpair
    rw [List.flatMap_cons, List.flatMap_cons, List.append_assoc, List.append_assoc,
      readString_pair hfirst hsecond hclose, ih (by simp only [List.length_cons] at hsteps; omega),
      Text.joined, if_pos hpair, List.reverse_cons, List.append_assoc, List.singleton_append]
  | case4 a b t hpair ih =>
    rintro (_ | steps) done hsteps
    · exact absurd hsteps (Nat.not_lt_zero _)
    have halone : a.isFirstHalf = false ∨
        lowHalf? ((b :: t).flatMap escape ++ CodePoint.ofChar '"' :: rest) = .ok none := by
      refine (Bool.and_eq_false_iff.mp (Bool.not_eq_true _ ▸ hpair)).imp_right fun hsecond => ?_
      rw [List.flatMap_cons, List.append_assoc, lowHalf?_escape hclose, hsecond]
      rfl
    rw [List.flatMap_cons, List.append_assoc, readString_escape hclose halone,
      ih (Nat.lt_of_succ_lt_succ hsteps), Text.joined, if_neg hpair, List.reverse_cons, List.append_assoc,
      List.singleton_append]

end

theorem Spells.ne_nil {t : Text} (h : Spells c t) : t ≠ [] := by
  cases h <;> exact List.cons_ne_nil _ _

/-- What is written holds a code point at least for every code point of the text. -/
theorem length_le_flatMap_escape (t : Text) : t.length ≤ (t.flatMap escape).length := by
  induction t with
  | nil => exact Nat.le_refl 0
  | cons c t ih =>
    have hsome : 0 < (escape c).length := List.length_pos_iff.mpr (spells_escape c).ne_nil
    rw [List.flatMap_cons, List.length_append, List.length_cons]
    omega

/-- A text between quotes is read as the text with its halves joined. -/
theorem readQuoted_quoted (t : Text) :
    readQuoted (t.flatMap escape ++ CodePoint.ofChar '"' :: rest) = .ok (t.joined, rest) := by
  have hlength := length_le_flatMap_escape t
  refine readString_flatMap t ?_
  rw [List.length_append, List.length_cons]
  omega

end Json

end Scriptlet
