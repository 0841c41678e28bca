import Scriptlet.Proofs.Program

/-
  Lines of a program are read as what they say.

  What is proved:
    1. `read_header` — the line of a header is read as that header.
    2. `read_simple` — a line that begins with no header word is read as a statement.
    3. `Written.dedent` — the lines of a body are indented, hold something, and without their first
       unit they are the lines of the body one level further out.
    4. `Written.isClean` — no line of a program is changed when a source is cleaned.
-/

namespace Scriptlet

/-! ## Pieces -/

namespace IsPiece

variable {t : Text}

theorem trimLeft_eq (h : IsPiece t) : t.trimLeft = t :=
  Text.trimLeft_eq_self_iff.mpr (Text.trim_eq_self_iff.mp h.trimmed).1

theorem trimRight_eq (h : IsPiece t) : t.trimRight = t :=
  Text.trimRight_eq_self_iff.mpr (Text.trim_eq_self_iff.mp h.trimmed).2

theorem exists_cons (h : IsPiece t) : ∃ c rest, t = c :: rest ∧ c.isBlank = false := by
  obtain ⟨c, rest, rfl⟩ := List.exists_cons_of_ne_nil h.nonempty
  exact ⟨c, rest, rfl, (Text.trim_eq_self_iff.mp h.trimmed).1 c rfl⟩

end IsPiece

/-! ## Words in front of a line -/

namespace Text

theorem dropStart?_eq_some_iff {start t rest : Text} :
    dropStart? start t = some rest ↔ t = start ++ rest := by
  induction start generalizing t with
  | nil => exact Option.some_inj
  | cons c start ih =>
    cases t with
    | nil => simp [dropStart?]
    | cons d t =>
      rw [dropStart?, List.cons_append, List.cons.injEq, ← ih]
      split
      · rename_i heq
        exact (and_iff_right heq.symm).symm
      · rename_i hne
        exact iff_of_false nofun fun h => hne h.1.symm

theorem dropStart?_append (start rest : Text) : dropStart? start (start ++ rest) = some rest :=
  dropStart?_eq_some_iff.mpr rfl

/-- What a word ends at: nothing, or a code point that goes on with no word. -/
def EndsWord (t : Text) : Prop := ∀ c ∈ t.head?, c.isWord = false

/-- Behind a shorter word that a text begins with, the word that it begins with goes on. -/
theorem exists_word_of_append_eq {word name rest t : Text} (hword : ∀ c ∈ word, c.isWord = true)
    (hname : ∀ c ∈ name, c.isWord = true) (hne : name ≠ word) (hrest : EndsWord rest)
    (h : name ++ rest = word ++ t) : ∃ c more, t = c :: more ∧ c.isWord = true := by
  rcases List.append_eq_append_iff.mp h with ⟨x, rfl, rfl⟩ | ⟨x, rfl, rfl⟩
  · cases x with
    | nil => exact absurd (List.append_nil name).symm hne
    | cons c x =>
      have hends := hrest c rfl
      rw [hword c (List.mem_append_right _ List.mem_cons_self)] at hends
      cases hends
  · cases x with
    | nil => exact absurd (List.append_nil word) hne
    | cons c x => exact ⟨c, x ++ rest, rfl, hname c (List.mem_append_right _ List.mem_cons_self)⟩

theorem dropWord?_append (word : Text) {t : Text} (h : EndsWord t) : dropWord? word (word ++ t) = some t := by
  unfold dropWord?
  rw [dropStart?_append]
  cases t with
  | nil => rfl
  | cons c t => simp [h c rfl]

end Text

namespace Line

theorem beforeColon?_append (t : Text) : beforeColon? (t ++ ":") = some t := by
  have hcolon : (":" : Text) = [CodePoint.ofChar ':'] := by decide
  unfold beforeColon?
  rw [hcolon, List.getLast?_append, List.dropLast_append_cons]
  simp

/-- A piece behind one blank is what follows the blanks. -/
theorem afterBlanks?_blank_append {t : Text} (h : IsPiece t) :
    afterBlanks? (" " ++ t) = some t := by
  have hblanks : List.takeWhile CodePoint.isBlank ((" " : Text) ++ t) = " " :=
    Text.takeWhile_blanks_append " " (by decide) h.trimLeft_eq
  have hone : (" " : Text).length = 1 := by decide
  have hpos : 0 < t.length := List.length_pos_iff.mpr h.nonempty
  unfold afterBlanks?
  rw [hblanks, hone, List.length_append, hone]
  have hdrop : List.drop 1 ((" " : Text) ++ t) = t := List.drop_left' hone
  simp [hdrop, hpos]

theorem afterBlanks?_of_not_blank {t : Text} (h : ∀ c ∈ t.head?, c.isBlank = false) :
    afterBlanks? t = none := by
  unfold afterBlanks?
  cases t with
  | nil => rfl
  | cons c t => simp [h c rfl]

end Line

/-! ## Targets of a loop -/

namespace IsTarget

variable {name : Text}

theorem exists_cons (h : IsTarget name) :
    ∃ c rest, name = c :: rest ∧ ∀ d ∈ c :: rest, d.isWord = true := by
  have hid := h.identifier
  cases name with
  | nil => cases hid
  | cons c rest =>
    simp only [Text.isIdentifier, Bool.and_eq_true, List.all_eq_true] at hid
    refine ⟨c, rest, rfl, ?_⟩
    intro d hd
    rcases List.mem_cons.mp hd with rfl | hd
    · exact CodePoint.isWord_of_startsIdentifier hid.1
    · exact hid.2 d hd

theorem isWord (h : IsTarget name) : ∀ c ∈ name, c.isWord = true := by
  obtain ⟨c, rest, rfl, hword⟩ := h.exists_cons
  exact hword

theorem not_isBlank (h : IsTarget name) : ∀ c ∈ name, c.isBlank = false :=
  fun c hc => Text.isBlank_eq_false_of_isWord (h.isWord c hc)

theorem trim_eq (h : IsTarget name) : name.trim = name :=
  Text.trim_eq_self_iff.mpr
    ⟨fun c hc => h.not_isBlank c (List.mem_of_mem_head? hc),
     fun c hc => h.not_isBlank c (List.mem_of_mem_getLast? hc)⟩

theorem ne_comma (h : IsTarget name) : ∀ c ∈ name, c ≠ CodePoint.ofChar ',' := by
  rintro c hc rfl
  have hcomma : (CodePoint.ofChar ',').isWord = false := by decide
  rw [h.isWord _ hc] at hcomma
  cases hcomma

end IsTarget

namespace Text

theorem splitOn_cons (separator c : CodePoint) (t first : Text) (others : List Text)
    (h : splitOn separator t = first :: others) :
    splitOn separator (c :: t) =
      if c = separator then [] :: first :: others else (c :: first) :: others := by
  simp only [splitOn, List.cons.injEq] at h
  obtain ⟨rfl, rfl⟩ := h
  by_cases hc : c = separator <;> simp [splitOn, hc]

theorem splitOn_append (separator : CodePoint) (s t first : Text) (others : List Text)
    (hs : ∀ c ∈ s, c ≠ separator) (h : splitOn separator t = first :: others) :
    splitOn separator (s ++ t) = (s ++ first) :: others := by
  induction s with
  | nil => exact h
  | cons c s ih =>
    have ih := ih (fun d hd => hs d (List.mem_cons_of_mem c hd))
    rw [List.cons_append, splitOn_cons separator c _ _ _ ih, if_neg (hs c List.mem_cons_self)]
    rfl

theorem trim_blank_append (t : Text) : Text.trim (" " ++ t) = t.trim := by
  unfold trim
  congr 1

theorem ofChar_comma : (", " : Text) = CodePoint.ofChar ',' :: " " := by decide

end Text

namespace Line

theorem commaParts_join (targets : List Text) (hne : targets ≠ [])
    (h : ∀ name ∈ targets, IsTarget name) : commaParts (Text.join ", " targets) = targets := by
  induction targets with
  | nil => exact absurd rfl hne
  | cons name targets ih =>
    have hname := h name List.mem_cons_self
    cases targets with
    | nil =>
      have hsplit : Text.splitOn (CodePoint.ofChar ',') (name ++ []) = [name ++ []] :=
        Text.splitOn_append _ name [] [] [] hname.ne_comma rfl
      simp only [List.append_nil] at hsplit
      rw [Text.join_singleton, commaParts, hsplit, List.map_cons, hname.trim_eq, List.map_nil]
    | cons next targets =>
      have ih := ih (by simp) (fun x hx => h x (List.mem_cons_of_mem name hx))
      rw [Text.join_cons_cons]
      generalize Text.join ", " (next :: targets) = tail at ih ⊢
      unfold commaParts at ih ⊢
      obtain ⟨first, others, hsplit⟩ :
          ∃ first others, Text.splitOn (CodePoint.ofChar ',') tail = first :: others := ⟨_, _, rfl⟩
      rw [hsplit] at ih
      have hblank := Text.splitOn_append (CodePoint.ofChar ',') " " tail _ _ (by decide) hsplit
      have hcomma := Text.splitOn_cons (CodePoint.ofChar ',') (CodePoint.ofChar ',') _ _ _ hblank
      rw [if_pos rfl] at hcomma
      have hall := Text.splitOn_append (CodePoint.ofChar ',') name _ _ _ hname.ne_comma hcomma
      rw [Text.ofChar_comma, List.cons_append, hall]
      simp only [List.map_cons, List.append_nil, hname.trim_eq, Text.trim_blank_append] at ih ⊢
      rw [ih]

theorem afterIn?_of_not_blank {t : Text} (h : ∀ c ∈ t.head?, c.isBlank = false) :
    afterIn? t = none := by
  unfold afterIn?
  cases ht : t.head? with
  | none => simp
  | some c => rw [ht] at h; simp [h c rfl]

theorem afterIn?_in_append {items : Text} (h : IsPiece items) :
    afterIn? (" in " ++ items) = some items := by
  have hsplit : (" in " ++ items : Text) = " " ++ ("in" ++ (" " ++ items)) := by
    rw [show (" in " : Text) = " " ++ ("in" ++ " ") by decide]
    simp only [List.append_assoc]
  have hleft : Text.trimLeft (" in " ++ items) = "in" ++ (" " ++ items) := by
    rw [hsplit]
    refine Text.trimLeft_blanks_append (by decide) (Text.trimLeft_eq_self_iff.mpr ?_)
    intro c hc
    cases hc
    decide
  have hhead : (" in " ++ items : Text).head?.any CodePoint.isBlank = true := rfl
  unfold afterIn?
  rw [hhead, if_pos rfl, hleft, Text.dropStart?_append, Option.bind_some]
  exact afterBlanks?_blank_append h

/-- A name that is no keyword is not the word `in`, though it may begin like it. -/
theorem afterIn?_target_append {name rest : Text} (h : IsTarget name)
    (hrest : Text.EndsWord rest) : afterIn? (" " ++ (name ++ rest)) = none := by
  have hleft : Text.trimLeft (" " ++ (name ++ rest)) = name ++ rest := by
    obtain ⟨a, tail, rfl, hword⟩ := h.exists_cons
    refine Text.trimLeft_blanks_append (by decide) (Text.trimLeft_eq_self_iff.mpr ?_)
    intro c hc
    cases hc
    exact h.not_isBlank a List.mem_cons_self
  have hkeyword : name ≠ "in" := fun heq => h.notKeyword (heq ▸ by decide)
  unfold afterIn?
  rw [hleft]
  split
  · cases hdrop : Text.dropStart? "in" (name ++ rest) with
    | none => rfl
    | some r =>
      obtain ⟨c, more, rfl, hc⟩ := Text.exists_word_of_append_eq (by decide) h.isWord hkeyword hrest
        (Text.dropStart?_eq_some_iff.mp hdrop)
      refine afterBlanks?_of_not_blank fun d hd => ?_
      cases hd
      exact Text.isBlank_eq_false_of_isWord hc
  · rfl

/-- Inside a word there is no `in` between blanks. -/
theorem splitAtIn?_word_append (done : Text) (c : CodePoint) (word rest : Text)
    (hword : ∀ d ∈ word, d.isWord = true) :
    splitAtIn? done (c :: (word ++ rest)) =
      match afterIn? rest with
      | some items => some (done.reverse ++ c :: word, items)
      | none => splitAtIn? ((c :: word).reverse ++ done) rest := by
  induction word generalizing done c with
  | nil => cases h : afterIn? rest <;> simp [splitAtIn?, h]
  | cons d word ih =>
    have hd : afterIn? (d :: (word ++ rest)) = none := by
      apply afterIn?_of_not_blank
      intro x hx
      cases hx
      exact Text.isBlank_eq_false_of_isWord (hword d List.mem_cons_self)
    rw [List.cons_append, splitAtIn?, hd, ih _ _ (fun x hx => hword x (List.mem_cons_of_mem d hx))]
    cases afterIn? rest <;> simp

/-- Targets that are listed begin with the first name, which ends there. -/
theorem exists_join_append (next : Text) (targets : List Text) (items : Text) :
    ∃ rest, Text.join ", " (next :: targets) ++ (" in " ++ items) = next ++ rest ∧ Text.EndsWord rest := by
  cases targets with
  | nil =>
    refine ⟨" in " ++ items, by rw [Text.join_singleton], ?_⟩
    intro d hd
    cases hd
    decide
  | cons other targets =>
    refine ⟨", " ++ (Text.join ", " (other :: targets) ++ (" in " ++ items)), ?_, ?_⟩
    · rw [Text.join_cons_cons]
      simp only [List.append_assoc]
    · intro d hd
      cases hd
      decide

theorem splitAtIn?_join (targets : List Text) (items done : Text) (hne : targets ≠ [])
    (h : ∀ name ∈ targets, IsTarget name) (hitems : IsPiece items) :
    splitAtIn? done (Text.join ", " targets ++ (" in " ++ items)) =
      some (done.reverse ++ Text.join ", " targets, items) := by
  induction targets generalizing done with
  | nil => exact absurd rfl hne
  | cons name targets ih =>
    have hname := h name List.mem_cons_self
    obtain ⟨c, word, rfl, hword⟩ := hname.exists_cons
    have hrest : ∀ d ∈ word, d.isWord = true := fun d hd => hword d (List.mem_cons_of_mem c hd)
    cases targets with
    | nil =>
      rw [Text.join_singleton, List.cons_append, splitAtIn?_word_append _ _ _ _ hrest,
        afterIn?_in_append hitems]
    | cons next targets =>
      have hnext := h next (by simp)
      have ih := ih (CodePoint.ofChar ' ' :: CodePoint.ofChar ',' :: ((c :: word).reverse ++ done))
        (by simp) (fun x hx => h x (List.mem_cons_of_mem _ hx))
      -- The text behind the comma begins with the next name.
      obtain ⟨rest, hjoin, hends⟩ := exists_join_append next targets items
      have hcomma : afterIn? (", " ++ (Text.join ", " (next :: targets) ++ (" in " ++ items))) =
          none := by
        apply afterIn?_of_not_blank
        intro d hd
        cases hd
        decide
      have hblank : afterIn? (" " ++ (Text.join ", " (next :: targets) ++ (" in " ++ items))) =
          none := by
        rw [hjoin]
        exact afterIn?_target_append hnext hends
      have hhead : afterIn? (Text.join ", " (next :: targets) ++ (" in " ++ items)) = none := by
        rw [hjoin]
        obtain ⟨d, tail, rfl, hd⟩ := hnext.exists_cons
        apply afterIn?_of_not_blank
        intro x hx
        cases hx
        exact Text.isBlank_eq_false_of_isWord (hd d List.mem_cons_self)
      rw [Text.join_cons_cons, List.append_assoc, List.append_assoc, List.cons_append,
        splitAtIn?_word_append _ _ _ _ hrest, hcomma]
      generalize Text.join ", " (next :: targets) = tail at ih hblank hhead ⊢
      have hspace : (" " : Text) = [CodePoint.ofChar ' '] := by decide
      rw [hspace] at hblank
      simp only [Text.ofChar_comma, hspace, List.cons_append, List.nil_append, splitAtIn?] at hblank ⊢
      simp only [hblank, hhead, ih]
      simp

theorem loopParts?_join (targets : List Text) (items : Text) (hne : targets ≠ [])
    (h : ∀ name ∈ targets, IsTarget name) (hitems : IsPiece items) :
    loopParts? (" " ++ (Text.join ", " targets ++ (" in " ++ items))) =
      some (Text.join ", " targets, items) := by
  have hhead : Text.trimLeft (Text.join ", " targets ++ (" in " ++ items)) =
      Text.join ", " targets ++ (" in " ++ items) := by
    apply Text.trimLeft_eq_self_iff.mpr
    obtain ⟨name, targets, rfl⟩ := List.exists_cons_of_ne_nil hne
    have hname := h name List.mem_cons_self
    obtain ⟨c, word, rfl, _⟩ := hname.exists_cons
    intro d hd
    have hjoin : ∃ rest, Text.join ", " ((c :: word) :: targets) ++ (" in " ++ items) = c :: rest := by
      cases targets with
      | nil => exact ⟨_, by rw [Text.join_singleton, List.cons_append]⟩
      | cons next targets => exact ⟨_, by rw [Text.join_cons_cons, List.cons_append, List.cons_append]⟩
    obtain ⟨rest, hrest⟩ := hjoin
    rw [hrest] at hd
    cases hd
    exact hname.not_isBlank c List.mem_cons_self
  have hblanks := Text.takeWhile_blanks_append " " (by decide) hhead
  have hone : (" " : Text).length = 1 := by decide
  unfold loopParts?
  rw [hblanks, hone]
  simp only [List.range_one, List.findSome?_cons, Nat.sub_zero, List.drop_left' hone,
    splitAtIn?_join targets items [] hne h hitems]
  rfl

/-! ## Headers and simple lines -/

theorem read_header {h : Header} (hw : h.WellFormed) : read h.text = .ok (.header h) := by
  cases h with
  | forEach targets items =>
    obtain ⟨hne, htargets, hitems⟩ := hw
    have hword : Text.dropWord? "for" (Header.text (.forEach targets items)) =
        some (" " ++ (Text.join ", " targets ++ (" in " ++ (items ++ ":")))) :=
      Text.dropWord?_append "for" (by intro c hc; cases hc; decide)
    have hfind : targets.find? (fun name => !name.isIdentifier || Token.keywords.contains name) =
        none := by
      rw [List.find?_eq_none]
      intro name hname
      have htarget := htargets name hname
      simp [htarget.identifier, htarget.notKeyword]
    have hline : (" " ++ (Text.join ", " targets ++ (" in " ++ (items ++ ":"))) : Text) =
        " " ++ (Text.join ", " targets ++ (" in " ++ items)) ++ ":" := by
      simp only [List.append_assoc]
    unfold read
    rw [hword]
    simp only [readFor, hline, beforeColon?_append, Option.bind_some,
      loopParts?_join targets items hne htargets hitems, commaParts_join targets hne htargets, hfind]
    rfl
  | onlyIf condition =>
    have hword : Text.dropWord? "if" (Header.text (.onlyIf condition)) =
        some (" " ++ (condition ++ ":")) :=
      Text.dropWord?_append "if" (by intro c hc; cases hc; decide)
    have hfor : Text.dropWord? "for" (Header.text (.onlyIf condition)) = none := rfl
    have hline : (" " ++ (condition ++ ":") : Text) = " " ++ condition ++ ":" := by
      simp only [List.append_assoc]
    unfold read
    rw [hfor, hword]
    simp only [readIf, hline, beforeColon?_append, Option.bind_some, afterBlanks?_blank_append hw]
    rfl
  | whileTrue condition =>
    have hword : Text.dropWord? "while" (Header.text (.whileTrue condition)) =
        some (" " ++ (condition ++ ":")) :=
      Text.dropWord?_append "while" (by intro c hc; cases hc; decide)
    have hfor : Text.dropWord? "for" (Header.text (.whileTrue condition)) = none := rfl
    have hif : Text.dropWord? "if" (Header.text (.whileTrue condition)) = none := rfl
    have hline : (" " ++ (condition ++ ":") : Text) = " " ++ condition ++ ":" := by
      simp only [List.append_assoc]
    unfold read
    rw [hfor, hif, hword]
    simp only [readWhile, hline, beforeColon?_append, Option.bind_some, afterBlanks?_blank_append hw]
    rfl

theorem read_simple {line : Text} (h : IsSimpleLine line) :
    read line = (readStatement line).map Line.statement := by
  have hnone : ∀ word ∈ headerWords, Text.dropWord? word line = none := by
    intro word hword
    have hstart := h.notHeader word hword
    unfold Text.startsWithWord at hstart
    simpa using hstart
  have helif := h.notHeader "elif" (by decide)
  have helse := h.notHeader "else" (by decide)
  unfold read
  rw [hnone "for" (by decide), hnone "if" (by decide), hnone "while" (by decide), helif, helse]
  simp only [Bool.or_self, Bool.false_eq_true, if_false]
  cases readStatement line <;> rfl

end Line

/-! ## The lines of a program -/

theorem CodePoint.isBlank_of_isLineBreak {c : CodePoint} (h : c.isLineBreak = true) :
    c.isBlank = true := by
  simp only [CodePoint.isLineBreak, Bool.or_eq_true, Bool.and_eq_true, decide_eq_true_eq,
    beq_iff_eq] at h
  simp only [CodePoint.isBlank, Bool.or_eq_true, Bool.and_eq_true, decide_eq_true_eq, beq_iff_eq]
  omega

/-- A text that no line break and no comment cuts. -/
def Text.IsUncut (t : Text) : Prop := ∀ c ∈ t, c.isLineBreak = false ∧ c.val ≠ 35

instance (t : Text) : Decidable t.IsUncut := inferInstanceAs (Decidable (∀ c ∈ t, _))

theorem Text.IsUncut.append {s t : Text} (hs : s.IsUncut) (ht : t.IsUncut) :
    Text.IsUncut (s ++ t) := by
  intro c hc
  rcases List.mem_append.mp hc with h | h
  · exact hs c h
  · exact ht c h

theorem IsPiece.isUncut {t : Text} (h : IsPiece t) : t.IsUncut :=
  fun c hc => ⟨h.oneLine c hc, h.uncommented c hc⟩

theorem IsTarget.isUncut {name : Text} (h : IsTarget name) : name.IsUncut := by
  intro c hc
  constructor
  · cases hb : c.isLineBreak with
    | false => rfl
    | true =>
      have := h.not_isBlank c hc
      rw [CodePoint.isBlank_of_isLineBreak hb] at this
      cases this
  · intro hval
    have hword := h.isWord c hc
    simp [CodePoint.isWord, CodePoint.isAlphanumeric, CodePoint.isAsciiLetter,
      CodePoint.isAsciiDigit, hval] at hword

theorem Text.IsUncut.join_targets {targets : List Text} (h : ∀ name ∈ targets, IsTarget name) :
    Text.IsUncut (Text.join ", " targets) := by
  induction targets with
  | nil => intro c hc; cases hc
  | cons name targets ih =>
    have hname := (h name List.mem_cons_self).isUncut
    cases targets with
    | nil => rwa [Text.join_singleton]
    | cons next targets =>
      rw [Text.join_cons_cons]
      have hcomma : Text.IsUncut ", " := by decide
      exact hname.append (hcomma.append (ih fun x hx => h x (List.mem_cons_of_mem name hx)))

/-- A text that begins with a letter and ends with a colon has no blanks at its ends. -/
theorem isPiece_of_colon {c : CodePoint} {t : Text} (hc : c.isBlank = false)
    (h : Text.IsUncut (c :: t ++ ":")) : IsPiece (c :: t ++ ":") where
  nonempty := by simp
  oneLine d hd := (h d hd).1
  uncommented d hd := (h d hd).2
  trimmed := by
    rw [Text.trim_eq_self_iff]
    have hcolon : (":" : Text) = [CodePoint.ofChar ':'] := by decide
    constructor
    · intro d hd
      cases hd
      exact hc
    · intro d hd
      rw [hcolon, List.getLast?_append] at hd
      cases hd
      decide

theorem Header.WellFormed.isPiece_text {h : Header} (hw : h.WellFormed) : IsPiece h.text := by
  have hcolon : Text.IsUncut ":" := by decide
  cases h with
  | forEach targets items =>
    obtain ⟨_, htargets, hitems⟩ := hw
    have hfor : Text.IsUncut "for " := by decide
    have hin : Text.IsUncut " in " := by decide
    have hall := hfor.append
      ((Text.IsUncut.join_targets htargets).append (hin.append (hitems.isUncut.append hcolon)))
    have hshape : Header.text (.forEach targets items) =
        CodePoint.ofChar 'f' :: ("or " ++ (Text.join ", " targets ++ (" in " ++ items))) ++ ":" := by
      simp only [Header.text, List.cons_append, List.append_assoc]
      rfl
    rw [hshape]
    exact isPiece_of_colon (by decide) (hshape ▸ hall)
  | onlyIf condition =>
    have hif : Text.IsUncut "if " := by decide
    have hall := hif.append (hw.isUncut.append hcolon)
    have hshape : Header.text (.onlyIf condition) =
        CodePoint.ofChar 'i' :: ("f " ++ condition) ++ ":" := by
      simp only [Header.text, List.cons_append, List.append_assoc]
      rfl
    rw [hshape]
    exact isPiece_of_colon (by decide) (hshape ▸ hall)
  | whileTrue condition =>
    have hwhile : Text.IsUncut "while " := by decide
    have hall := hwhile.append (hw.isUncut.append hcolon)
    have hshape : Header.text (.whileTrue condition) =
        CodePoint.ofChar 'w' :: ("hile " ++ condition) ++ ":" := by
      simp only [Header.text, List.cons_append, List.append_assoc]
      rfl
    rw [hshape]
    exact isPiece_of_colon (by decide) (hshape ▸ hall)

theorem Indentation.isUncut {depth : Nat} {pad : Text} (h : Indentation depth pad) :
    pad.IsUncut := by
  induction h with
  | none => intro c hc; cases hc
  | spaces _ ih => exact Text.IsUncut.append (by decide) ih
  | tab _ ih => exact Text.IsUncut.append (by decide) ih

/-- Any indentation of a piece is a clean line. -/
theorem Indentation.isClean {depth : Nat} {pad t : Text} (h : Indentation depth pad)
    (ht : IsPiece t) : Source.IsClean (pad ++ t) where
  nonempty := by simp [ht.nonempty]
  oneLine c hc := (h.isUncut.append ht.isUncut c hc).1
  uncommented c hc := (h.isUncut.append ht.isUncut c hc).2
  trimmed := Text.trimRight_append ht.nonempty ht.trimRight_eq

theorem isBlank_append (pad : Text) {t : Text} (ht : IsPiece t) : Text.isBlank (pad ++ t) = false := by
  obtain ⟨c, rest, rfl, hc⟩ := ht.exists_cons
  simp [Text.isBlank, hc]

theorem dedent?_piece {t : Text} (ht : IsPiece t) : Source.dedent? t = none := by
  obtain ⟨c, rest, rfl, hc⟩ := ht.exists_cons
  have hspace : ("    " : Text) = CodePoint.ofChar ' ' :: "   " := by decide
  have htab : ("\t" : Text) = [CodePoint.ofChar '\t'] := by decide
  have hne : CodePoint.ofChar ' ' ≠ c := by
    rintro rfl
    exact absurd hc (by decide)
  have hne' : CodePoint.ofChar '\t' ≠ c := by
    rintro rfl
    exact absurd hc (by decide)
  simp [Source.dedent?, hspace, htab, Text.dropStart?, hne, hne']

theorem dedent?_spaces (t : Text) : Source.dedent? ("    " ++ t) = some t := by
  simp only [Source.dedent?, Text.dropStart?_append]

theorem dedent?_tab (t : Text) : Source.dedent? ("\t" ++ t) = some t := by
  have hnone : Text.dropStart? "    " ("\t" ++ t) = none := rfl
  simp only [Source.dedent?, hnone, Text.dropStart?_append]

theorem Indentation.dedent {depth : Nat} {pad t : Text} (h : Indentation (depth + 1) pad)
    (ht : IsPiece t) :
    ∃ rest, Indentation depth rest ∧
      (Text.isBlank (pad ++ t) = false ∧ Source.dedent? (pad ++ t) = some (rest ++ t)) := by
  have hblank := isBlank_append pad ht
  cases h with
  | @spaces _ rest h => exact ⟨rest, h, hblank, by rw [List.append_assoc, dedent?_spaces]⟩
  | @tab _ rest h => exact ⟨rest, h, hblank, by rw [List.append_assoc, dedent?_tab]⟩

namespace Program

theorem Written.isClean {depth : Nat} {p : Program} {ls : List Text} (h : Written depth p ls)
    (hp : p.WellFormed) : ∀ l ∈ ls, Source.IsClean l := by
  induction h with
  | done => intro l hl; cases hl
  | simple hind _ ih =>
    obtain ⟨hline, hnext⟩ := hp
    intro l hl
    rcases List.mem_cons.mp hl with rfl | hl
    · exact hind.isClean hline.toIsPiece
    · exact ih hnext l hl
  | header hind _ _ ihbody ihnext =>
    obtain ⟨hh, hbody, hnext⟩ := hp
    intro l hl
    rcases List.mem_cons.mp hl with rfl | hl
    · exact hind.isClean hh.isPiece_text
    · rcases List.mem_append.mp hl with hl | hl
      · exact ihbody hbody l hl
      · exact ihnext hnext l hl

/-- The lines of a body hold something, and without their first unit they are the lines of the same
program one level further out. -/
theorem Written.dedent {d depth : Nat} {p : Program} {ls : List Text} (h : Written d p ls)
    (hd : d = depth + 1) (hp : p.WellFormed) :
    ∃ bodies, Written depth p bodies ∧
      List.Forall₂ (fun l body => l.isBlank = false ∧ Source.dedent? l = some body) ls bodies := by
  induction h generalizing depth with
  | done => exact ⟨[], .done, .nil⟩
  | simple hind _ ih =>
    subst hd
    obtain ⟨hline, hnext⟩ := hp
    obtain ⟨rest, hrest, hl⟩ := hind.dedent hline.toIsPiece
    obtain ⟨bodies, hw, hall⟩ := ih rfl hnext
    exact ⟨_, .simple hrest hw, .cons hl hall⟩
  | header hind _ _ ihbody ihnext =>
    subst hd
    obtain ⟨hh, hbody, hnext⟩ := hp
    obtain ⟨rest, hrest, hl⟩ := hind.dedent hh.isPiece_text
    obtain ⟨inner, hwinner, hallinner⟩ := ihbody rfl hbody
    obtain ⟨outer, hwouter, hallouter⟩ := ihnext rfl hnext
    exact ⟨_, .header hrest hwinner hwouter, .cons hl (List.rel_append hallinner hallouter)⟩

/-- A program that is not indented ends the block before it. -/
theorem Written.endsBlock {p : Program} {ls : List Text} (h : Written 0 p ls)
    (hp : p.WellFormed) : Source.EndsBlock ls := by
  cases h with
  | done => trivial
  | simple hind _ =>
    cases hind
    obtain ⟨hline, _⟩ := hp
    exact ⟨isBlank_append _ hline.toIsPiece, dedent?_piece hline.toIsPiece⟩
  | header hind _ _ =>
    cases hind
    obtain ⟨hh, _⟩ := hp
    exact ⟨isBlank_append _ hh.isPiece_text, dedent?_piece hh.isPiece_text⟩

/-- The body of a header is the block below it, dedented. -/
theorem Written.block {body next : Program} {bs ls : List Text} (hb : Written 1 body bs)
    (hl : Written 0 next ls) (hbody : body.WellFormed) (hnext : next.WellFormed) :
    ∃ bodies, Written 0 body bodies ∧ Source.block (bs ++ ls) = (bodies, bs.length) := by
  obtain ⟨bodies, hw, hall⟩ := hb.dedent rfl hbody
  exact ⟨bodies, hw, Source.block_append hall (hl.endsBlock hnext)⟩

end Program

end Scriptlet
