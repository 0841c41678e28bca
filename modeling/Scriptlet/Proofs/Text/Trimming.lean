import Mathlib.Data.List.TakeWhile
import Scriptlet.Text.Blank
import Scriptlet.Text.Word

/-
  Texts without blanks at their ends.

  Trimming leaves a text as it is exactly if neither its first nor its last code point is blank
  (`trim_eq_self_iff`). Word characters are never blank, so a blank ends every word.
-/

namespace Scriptlet.Text

theorem head?_trimLeft (t : Text) : ∀ c ∈ t.trimLeft.head?, c.isBlank = false := by
  intro c hc
  have hhead := List.head?_dropWhile_not CodePoint.isBlank t
  rw [show (List.dropWhile CodePoint.isBlank t).head? = some c from hc] at hhead
  simpa using hhead

theorem trimLeft_eq_self_iff {t : Text} :
    t.trimLeft = t ↔ ∀ c ∈ t.head?, c.isBlank = false := by
  constructor
  · intro h
    have hhead := head?_trimLeft t
    rwa [h] at hhead
  · intro h
    cases t with
    | nil => rfl
    | cons c rest => exact List.dropWhile_cons_of_neg (by simp [h c rfl])

theorem trimRight_eq_self_iff {t : Text} :
    t.trimRight = t ↔ ∀ c ∈ t.getLast?, c.isBlank = false := by
  have hflip : t.trimRight = t ↔ Text.trimLeft t.reverse = t.reverse := by
    unfold trimRight trimLeft
    rw [← List.reverse_inj, List.reverse_reverse]
  rw [hflip, trimLeft_eq_self_iff, List.head?_reverse]

theorem length_trimRight_le (t : Text) : t.trimRight.length ≤ t.length := by
  unfold trimRight
  rw [List.length_reverse]
  exact Nat.le_trans (List.dropWhile_suffix _).length_le (Nat.le_of_eq List.length_reverse)

theorem trim_eq_self_iff {t : Text} :
    t.trim = t ↔ (∀ c ∈ t.head?, c.isBlank = false) ∧ ∀ c ∈ t.getLast?, c.isBlank = false := by
  rw [← trimLeft_eq_self_iff, ← trimRight_eq_self_iff]
  constructor
  · intro h
    have hle : t.length ≤ t.trimLeft.length := by
      calc t.length = t.trim.length := by rw [h]
        _ ≤ t.trimLeft.length := length_trimRight_le _
    have hleft : t.trimLeft = t :=
      (List.dropWhile_suffix CodePoint.isBlank).eq_of_length_le hle
    unfold trim at h
    rw [hleft] at h
    exact ⟨hleft, h⟩
  · rintro ⟨hleft, hright⟩
    unfold trim
    rw [hleft, hright]

theorem trimRight_trimRight (t : Text) : t.trimRight.trimRight = t.trimRight := by
  unfold trimRight
  rw [List.reverse_reverse]
  exact congrArg List.reverse (trimLeft_eq_self_iff.mpr (head?_trimLeft t.reverse))

theorem trim_trim (t : Text) : t.trim.trim = t.trim := by
  refine trim_eq_self_iff.mpr ⟨fun c hc => ?_, trimRight_eq_self_iff.mp (trimRight_trimRight _)⟩
  -- Without its last blanks a text begins with what it began with before.
  have hprefix : t.trim <+: t.trimLeft := by
    rw [← List.reverse_suffix, trim, trimRight, List.reverse_reverse]
    exact List.dropWhile_suffix _
  obtain ⟨rest, hrest⟩ := hprefix
  refine head?_trimLeft t c ?_
  rw [← hrest, List.head?_append, Option.mem_def.mp hc]
  rfl

/-- What is left of a text behind blanks is the text, if it does not begin with a blank. -/
theorem trimLeft_blanks_append {pad t : Text} (hpad : ∀ c ∈ pad, c.isBlank = true)
    (ht : t.trimLeft = t) : Text.trimLeft (pad ++ t) = t := by
  unfold trimLeft at ht ⊢
  rw [List.dropWhile_append_of_pos hpad, ht]

/-- The blanks at the start of a text that goes on with something else. -/
theorem takeWhile_blanks_append (pad : Text) {t : Text} (hpad : ∀ c ∈ pad, c.isBlank = true)
    (ht : t.trimLeft = t) : (pad ++ t).takeWhile CodePoint.isBlank = pad := by
  rw [List.takeWhile_append_of_pos hpad]
  cases t with
  | nil => simp
  | cons c rest =>
    have hc := trimLeft_eq_self_iff.mp ht c rfl
    rw [List.takeWhile_cons_of_neg (by simp [hc]), List.append_nil]

/-- Nothing is left of a text without its last blanks exactly if it holds nothing but blanks. -/
theorem isEmpty_trimRight (t : Text) : t.trimRight.isEmpty = t.isBlank := by
  rw [Bool.eq_iff_iff, List.isEmpty_iff, trimRight, List.reverse_eq_nil_iff,
    List.dropWhile_eq_nil_iff, isBlank, List.all_eq_true]
  simp only [List.mem_reverse]

theorem trimRight_append {s t : Text} (hne : t ≠ []) (ht : t.trimRight = t) :
    Text.trimRight (s ++ t) = s ++ t := by
  rw [trimRight_eq_self_iff] at ht ⊢
  intro c hc
  rw [List.getLast?_append, List.getLast?_eq_some_getLast hne, Option.some_or] at hc
  exact ht c (by rwa [List.getLast?_eq_some_getLast hne])

/-! ## Words -/

/-- The code points that are blank, as numbers. -/
def blankCodes : List Nat :=
  [9, 10, 11, 12, 13, 28, 29, 30, 31, 32, 0x85, 0xA0, 0x1680, 0x2000, 0x2001, 0x2002, 0x2003, 0x2004,
   0x2005, 0x2006, 0x2007, 0x2008, 0x2009, 0x200A, 0x2028, 0x2029, 0x202F, 0x205F, 0x3000]

theorem mem_blankCodes {c : CodePoint} (h : c.isBlank = true) : c.val ∈ blankCodes := by
  simp only [CodePoint.isBlank, Bool.or_eq_true, Bool.and_eq_true, decide_eq_true_eq,
    beq_iff_eq] at h
  simp only [blankCodes, List.mem_cons, List.not_mem_nil, or_false]
  omega

theorem blankCodes_not_alphanumeric :
    ∀ n ∈ blankCodes, 128 ≤ n → alphanumerics.contains n = false := by decide +kernel

theorem isWord_eq_false_of_isBlank {c : CodePoint} (h : c.isBlank = true) : c.isWord = false := by
  have hmem := mem_blankCodes h
  by_cases hsmall : c.val < 128
  · simp only [CodePoint.isBlank, Bool.or_eq_true, Bool.and_eq_true, decide_eq_true_eq,
      beq_iff_eq] at h
    simp only [CodePoint.isWord, CodePoint.isAlphanumeric, hsmall, if_true,
      CodePoint.isAsciiLetter, CodePoint.isAsciiDigit, Bool.or_eq_false_iff, Bool.and_eq_false_iff,
      decide_eq_false_iff_not, beq_eq_false_iff_ne]
    omega
  · simp only [CodePoint.isWord, CodePoint.isAlphanumeric, hsmall, if_false,
      blankCodes_not_alphanumeric _ hmem (Nat.le_of_not_lt hsmall), Bool.false_or,
      beq_eq_false_iff_ne]
    omega

theorem isBlank_eq_false_of_isWord {c : CodePoint} (h : c.isWord = true) : c.isBlank = false := by
  cases hb : c.isBlank with
  | false => rfl
  | true => rw [isWord_eq_false_of_isBlank hb] at h; cases h

end Scriptlet.Text

namespace Scriptlet.CodePoint

theorem isWord_of_startsIdentifier {c : CodePoint} (h : c.startsIdentifier = true) : c.isWord = true := by
  simp only [startsIdentifier, Bool.or_eq_true] at h
  rcases h with h | h
  · have hsmall : c.val < 128 := by
      simp only [isAsciiLetter, Bool.or_eq_true, Bool.and_eq_true, decide_eq_true_eq] at h
      omega
    simp [isWord, isAlphanumeric, hsmall, h]
  · simp [isWord, h]

end Scriptlet.CodePoint
