import Mathlib.Data.List.Forall2
import Scriptlet.Proofs.Text.Trimming
import Scriptlet.Source

/-
  Sources that say their lines plainly.

  What is proved:
    1. `cleanLines_join` — lines without breaks, comments and blanks at their ends, joined by line
       feeds, are read back as they are.
    2. `cleanLines_escapeHashes` — lines whose `#` signs are written with backslashes are read back
       as they are, but for their last blanks, alone, in front of a comment and joined by line feeds.
    3. `block_append` — the block at the start of some lines is what its indented lines say without
       their first unit, and ends before the first line that is not indented.
-/

namespace Scriptlet

/-! ## Lines and line feeds -/

namespace Text

theorem join_cons_cons (separator part next : Text) (rest : List Text) :
    join separator (part :: next :: rest) = part ++ (separator ++ join separator (next :: rest)) := by
  simp [join, List.intercalate]

theorem join_singleton (separator part : Text) : join separator [part] = part := by
  simp [join, List.intercalate]

/-- A text without line breaks. -/
def IsOneLine (t : Text) : Prop := ∀ c ∈ t, c.isLineBreak = false

theorem IsOneLine.tail {c : CodePoint} {t : Text} (h : IsOneLine (c :: t)) : IsOneLine t :=
  fun d hd => h d (List.mem_cons_of_mem c hd)

theorem IsOneLine.append {s t : Text} (hs : IsOneLine s) (ht : IsOneLine t) : IsOneLine (s ++ t) :=
  fun c hc => (List.mem_append.mp hc).elim (hs c) (ht c)

/-- A code point that ends no line goes to the current line. -/
theorem linesFrom_cons {line rest : Text} {c : CodePoint} (hc : c.isLineBreak = false)
    (hne : rest ≠ []) : linesFrom line (c :: rest) = linesFrom (c :: line) rest := by
  obtain ⟨d, rest, rfl⟩ := List.exists_cons_of_ne_nil hne
  have h13 : (c.val == 13) = false := by
    rw [beq_eq_false_iff_ne]
    intro h
    simp [CodePoint.isLineBreak, h] at hc
  simp only [linesFrom, h13, hc, Bool.false_and, Bool.false_eq_true, if_false]

/-- A line ends at the next line feed. -/
theorem linesFrom_append_lineFeed (t line rest : Text) (h : IsOneLine t) :
    linesFrom line (t ++ ("\n" : Text) ++ rest) = (line.reverse ++ t) :: linesFrom [] rest := by
  induction t generalizing line with
  | nil =>
    have hfeed : CodePoint.isLineBreak (CodePoint.ofChar '\n') = true := by decide
    have h13 : ((CodePoint.ofChar '\n').val == 13) = false := by decide
    have htext : ("\n" : Text) = [CodePoint.ofChar '\n'] := by decide
    rw [htext]
    cases rest with
    | nil => simp [linesFrom, hfeed]
    | cons d rest => simp [linesFrom, hfeed, h13]
  | cons c t ih =>
    have hc : c.isLineBreak = false := h c List.mem_cons_self
    have htext : ("\n" : Text) ≠ [] := by decide
    rw [List.cons_append, List.cons_append, linesFrom_cons hc (by simp [htext]), ih _ h.tail]
    simp

/-- The last line needs no break. -/
theorem linesFrom_oneLine (t line : Text) (h : IsOneLine t) (hne : line.reverse ++ t ≠ []) :
    linesFrom line t = [line.reverse ++ t] := by
  induction t generalizing line with
  | nil =>
    have hline : line ≠ [] := by simpa using hne
    simp [linesFrom, hline]
  | cons c t ih =>
    have hc : c.isLineBreak = false := h c List.mem_cons_self
    cases t with
    | nil => simp [linesFrom, hc]
    | cons d t =>
      rw [linesFrom_cons hc (by simp), ih _ h.tail (by simp)]
      simp

/-- Joined lines are read back, but for an empty line at the very end, which nothing begins. -/
theorem lines_join_or (ls : List Text) (hone : ∀ l ∈ ls, IsOneLine l) :
    lines (join "\n" ls) = ls ∨ lines (join "\n" ls) ++ [[]] = ls := by
  induction ls with
  | nil => exact .inl rfl
  | cons l ls ih =>
    have hl : IsOneLine l := hone l List.mem_cons_self
    cases ls with
    | nil =>
      rw [join_singleton]
      cases l with
      | nil => exact .inr rfl
      | cons c l => exact .inl (linesFrom_oneLine (c :: l) [] hl (List.cons_ne_nil c l))
    | cons m ls =>
      have hrest := ih fun x hx => hone x (List.mem_cons_of_mem l hx)
      have hlines : lines (join "\n" (l :: m :: ls)) = l :: lines (join "\n" (m :: ls)) := by
        unfold lines
        rw [join_cons_cons, ← List.append_assoc, linesFrom_append_lineFeed l [] _ hl]
        rfl
      rw [hlines, List.cons_append]
      exact hrest.imp (congrArg (l :: ·)) (congrArg (l :: ·))

end Text

/-! ## Clean lines -/

namespace Source

/-- A text without the sign that begins a comment. -/
def IsUncommented (t : Text) : Prop := ∀ c ∈ t, c.val ≠ 35

theorem IsUncommented.tail {c : CodePoint} {t : Text} (h : IsUncommented (c :: t)) :
    IsUncommented t :=
  fun d hd => h d (List.mem_cons_of_mem c hd)

theorem dropComment_eq_self (t : Text) (escaped : Bool) (h : IsUncommented t) :
    dropComment escaped t = t := by
  induction t generalizing escaped with
  | nil => rfl
  | cons c t ih =>
    have hc : (c.val == 35) = false := by simpa using h c List.mem_cons_self
    simp only [dropComment, hc, Bool.false_and, Bool.false_eq_true, if_false, ih _ h.tail]

theorem unescapeHashes_eq_self (t : Text) (h : IsUncommented t) : unescapeHashes t = t := by
  induction t with
  | nil => rfl
  | cons c t ih =>
    cases t with
    | nil => rfl
    | cons d t =>
      have hd : (d.val == 35) = false := by
        simpa using h d (List.mem_cons_of_mem c List.mem_cons_self)
      simp only [unescapeHashes, hd, Bool.and_false, Bool.false_eq_true, if_false, ih h.tail]

/-- Cleaning joined lines cleans each of them, since an empty line that is lost at the end holds
nothing. -/
theorem cleanLines_join_map (ls : List Text) (hone : ∀ l ∈ ls, Text.IsOneLine l) :
    cleanLines (Text.join "\n" ls) = (ls.map cleanLine).filter (!·.isEmpty) := by
  unfold cleanLines
  rcases Text.lines_join_or ls hone with h | h
  · rw [h]
  · conv_rhs => rw [← h]
    rw [List.map_append, List.filter_append]
    exact (List.append_nil _).symm

/-- A line that cleaning leaves as it is. -/
structure IsClean (l : Text) : Prop where
  nonempty : l ≠ []
  oneLine : Text.IsOneLine l
  uncommented : IsUncommented l
  trimmed : l.trimRight = l

theorem IsClean.cleanLine_eq {l : Text} (h : IsClean l) : cleanLine l = l := by
  unfold cleanLine
  rw [dropComment_eq_self l false h.uncommented, unescapeHashes_eq_self l h.uncommented, h.trimmed]

theorem cleanLines_join (ls : List Text) (h : ∀ l ∈ ls, IsClean l) :
    cleanLines (Text.join "\n" ls) = ls := by
  rw [cleanLines_join_map ls fun l hl => (h l hl).oneLine,
    List.map_congr_left fun l hl => (h l hl).cleanLine_eq, List.map_id', List.filter_eq_self]
  intro l hl
  simpa using (h l hl).nonempty

/-! ## Escaped hashes -/

/-- The line with each `#` written `\#`. -/
def escapeHashes (line : Text) : Text :=
  line.flatMap fun c => if c.val == 35 then [('\\' : CodePoint), c] else [c]

theorem escapeHashes_cons_hash {c : CodePoint} (hc : c.val = 35) (line : Text) :
    escapeHashes (c :: line) = ('\\' : CodePoint) :: c :: escapeHashes line := by
  simp [escapeHashes, hc]

theorem escapeHashes_cons {c : CodePoint} (hc : c.val ≠ 35) (line : Text) :
    escapeHashes (c :: line) = c :: escapeHashes line := by
  simp [escapeHashes, hc]

theorem val_backslash : CodePoint.val '\\' = 92 := rfl

/-- No escaped line begins with a `#`, so a backslash in front of one is not taken for its escape. -/
theorem head?_escapeHashes (line : Text) : ∀ c ∈ (escapeHashes line).head?, c.val ≠ 35 := by
  intro c hc
  cases line with
  | nil => cases hc
  | cons d line =>
    by_cases hd : d.val = 35
    · rw [escapeHashes_cons_hash hd] at hc
      obtain rfl : ('\\' : CodePoint) = c := Option.some.inj hc
      decide
    · rw [escapeHashes_cons hd] at hc
      obtain rfl : d = c := Option.some.inj hc
      exact hd

theorem isOneLine_escapeHashes {line : Text} (h : Text.IsOneLine line) :
    Text.IsOneLine (escapeHashes line) := by
  intro c hc
  obtain ⟨d, hd, hmem⟩ := List.mem_flatMap.mp hc
  split at hmem
  · rcases List.mem_pair.mp hmem with rfl | rfl
    · decide
    · exact h c hd
  · obtain rfl : c = d := List.mem_singleton.mp hmem
    exact h c hd

/-- A code point in front of anything but a `#` stays as it is. -/
theorem unescapeHashes_cons (c : CodePoint) {rest : Text} (h : ∀ d ∈ rest.head?, d.val ≠ 35) :
    unescapeHashes (c :: rest) = c :: unescapeHashes rest := by
  cases rest with
  | nil => rfl
  | cons d rest =>
    have hd : (d.val == 35) = false := by simpa using h d rfl
    simp only [unescapeHashes, hd, Bool.and_false, Bool.false_eq_true, if_false]

theorem unescapeHashes_escapeHashes (line : Text) : unescapeHashes (escapeHashes line) = line := by
  induction line with
  | nil => rfl
  | cons c line ih =>
    by_cases hc : c.val = 35
    · rw [escapeHashes_cons_hash hc]
      simp only [unescapeHashes, val_backslash, hc, BEq.rfl, Bool.and_self, if_true, ih]
    · rw [escapeHashes_cons hc, unescapeHashes_cons c (head?_escapeHashes line), ih]

/-- The search for a comment passes each escaped `#`, whatever stands in front of the line. -/
theorem dropComment_escapeHashes (line : Text) (escaped : Bool) :
    dropComment escaped (escapeHashes line) = escapeHashes line := by
  induction line generalizing escaped with
  | nil => rfl
  | cons c line ih =>
    by_cases hc : c.val = 35
    · rw [escapeHashes_cons_hash hc]
      simp [dropComment, val_backslash, hc, ih]
    · rw [escapeHashes_cons hc]
      simp [dropComment, hc, ih]

/-- The search stops at the `#` behind an escaped line, unless a backslash stands just before it. -/
theorem dropComment_escapeHashes_append (line : Text) (escaped : Bool) (comment : Text)
    (hempty : line = [] → escaped = false) (hlast : ∀ c ∈ line.getLast?, c.val ≠ 92) :
    dropComment escaped (escapeHashes line ++ ("#" ++ comment)) = escapeHashes line := by
  induction line generalizing escaped with
  | nil =>
    obtain rfl := hempty rfl
    rfl
  | cons c line ih =>
    have hafter : line = [] → (c.val == 92) = false := by
      rintro rfl
      exact beq_eq_false_iff_ne.mpr (hlast c rfl)
    have htail : ∀ d ∈ line.getLast?, d.val ≠ 92 := by
      intro d hd
      refine hlast d ?_
      rw [List.getLast?_cons, Option.mem_def.mp hd]
      rfl
    by_cases hc : c.val = 35
    · have hstep := ih false (fun _ => rfl) htail
      rw [escapeHashes_cons_hash hc]
      simpa [dropComment, val_backslash, hc] using hstep
    · have hstep := ih (c.val == 92) hafter htail
      rw [escapeHashes_cons hc]
      simpa [dropComment, hc] using hstep

theorem cleanLine_escapeHashes (line : Text) : cleanLine (escapeHashes line) = line.trimRight := by
  unfold cleanLine
  rw [dropComment_escapeHashes, unescapeHashes_escapeHashes]

theorem cleanLine_escapeHashes_append {line : Text} (comment : Text)
    (hlast : ∀ c ∈ line.getLast?, c.val ≠ 92) :
    cleanLine (escapeHashes line ++ ("#" ++ comment)) = line.trimRight := by
  unfold cleanLine
  rw [dropComment_escapeHashes_append line false comment (fun _ => rfl) hlast,
    unescapeHashes_escapeHashes]

theorem cleanLines_oneLine {line : Text} (h : Text.IsOneLine line) (hclean : cleanLine line ≠ []) :
    cleanLines line = [cleanLine line] := by
  have hjoin := cleanLines_join_map [line] (List.forall_mem_singleton.mpr h)
  rw [Text.join_singleton] at hjoin
  rw [hjoin, List.map_singleton, List.filter_eq_self]
  intro l hl
  obtain rfl := List.mem_singleton.mp hl
  simpa using hclean

/-- Escaped hashes are read back: alone, in front of a comment, and in joined lines. -/
theorem cleanLines_escapeHashes :
    (∀ line : Text, Text.IsOneLine line → line.isBlank = false →
      cleanLines (escapeHashes line) = [line.trimRight] ∧
      ∀ comment : Text, Text.IsOneLine comment → (∀ c ∈ line.getLast?, c.val ≠ 92) →
        cleanLines (escapeHashes line ++ ("#" ++ comment)) = [line.trimRight]) ∧
    ∀ ls : List Text, (∀ l ∈ ls, Text.IsOneLine l) →
      cleanLines (Text.join "\n" (ls.map escapeHashes)) =
        (ls.filter (!·.isBlank)).map Text.trimRight := by
  refine ⟨fun line hone hblank => ?_, fun ls hone => ?_⟩
  · have hne : line.trimRight ≠ [] := by
      rw [Ne, ← List.isEmpty_iff, Text.isEmpty_trimRight, hblank]
      exact Bool.false_ne_true
    have hescaped := isOneLine_escapeHashes hone
    refine ⟨?_, fun comment hcomment hlast => ?_⟩
    · rw [← cleanLine_escapeHashes] at hne ⊢
      exact cleanLines_oneLine hescaped hne
    · have hwhole : Text.IsOneLine (escapeHashes line ++ ("#" ++ comment)) :=
        hescaped.append (Text.IsOneLine.append (by unfold Text.IsOneLine; decide) hcomment)
      rw [← cleanLine_escapeHashes_append comment hlast] at hne ⊢
      exact cleanLines_oneLine hwhole hne
  · have hescaped : ∀ l ∈ ls.map escapeHashes, Text.IsOneLine l :=
      List.forall_mem_map.mpr fun l hl => isOneLine_escapeHashes (hone l hl)
    have hclean : cleanLine ∘ escapeHashes = Text.trimRight := funext cleanLine_escapeHashes
    rw [cleanLines_join_map _ hescaped, List.map_map, hclean, List.filter_map]
    simp only [Function.comp_def, Text.isEmpty_trimRight]

/-- A backslash and two hashes, in front of a comment and below a blank line. -/
theorem cleanLines_escapeHashes_runs :
    cleanLines "a\\\\#\\# # b" = [("a\\##" : Text)] ∧
    cleanLines (Text.join "\n" [" ", "a\\\\#\\#  ", ""]) = [("a\\##" : Text)] := by
  have hone : Text.IsOneLine "a\\## " := by unfold Text.IsOneLine; decide
  have hcomment : Text.IsOneLine " b" := by unfold Text.IsOneLine; decide
  have hlines : ∀ l ∈ [(" " : Text), "a\\##  ", ""], Text.IsOneLine l := by
    unfold Text.IsOneLine
    decide
  exact ⟨(cleanLines_escapeHashes.1 "a\\## " hone (by decide)).2 " b" hcomment (by decide),
    cleanLines_escapeHashes.2 [" ", "a\\##  ", ""] hlines⟩

/-! ## Blocks -/

theorem blockFrom_append {ls bodies : List Text} (done : List Text) (taken : Nat)
    (rest : List Text)
    (h : List.Forall₂ (fun l body => l.isBlank = false ∧ dedent? l = some body) ls bodies) :
    blockFrom done taken (ls ++ rest) =
      blockFrom (bodies.reverse ++ done) (taken + ls.length) rest := by
  induction h generalizing done taken with
  | nil => simp
  | cons hl _ ih =>
    obtain ⟨hblank, hdedent⟩ := hl
    simp only [List.cons_append, blockFrom, hblank, hdedent, Bool.false_eq_true, if_false]
    rw [ih]
    simp [Nat.add_comm, Nat.add_left_comm]

/-- A block ends before a line that holds something and is not indented. -/
def EndsBlock : List Text → Prop
  | [] => True
  | l :: _ => l.isBlank = false ∧ dedent? l = none

theorem blockFrom_of_endsBlock {rest : List Text} (done : List Text) (taken : Nat)
    (h : EndsBlock rest) : blockFrom done taken rest = (done.reverse, taken) := by
  cases rest with
  | nil => rfl
  | cons l rest =>
    obtain ⟨hblank, hdedent⟩ := h
    simp only [blockFrom, hblank, hdedent, Bool.false_eq_true, if_false]

theorem block_append {ls bodies rest : List Text}
    (h : List.Forall₂ (fun l body => l.isBlank = false ∧ dedent? l = some body) ls bodies)
    (hrest : EndsBlock rest) : block (ls ++ rest) = (bodies, ls.length) := by
  unfold block
  rw [blockFrom_append [] 0 rest h, blockFrom_of_endsBlock _ _ hrest]
  simp

end Source

end Scriptlet
