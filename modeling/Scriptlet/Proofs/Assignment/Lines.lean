import Scriptlet.Proofs.Assignment
import Scriptlet.Proofs.Escape.Expressions
import Scriptlet.Proofs.Program.Running

/-
  Lines that assign.

  A line is written as a left side, an operator that assigns, and a right side, with any blanks between
  them. Whatever the right side is, the operator is the first one in the line that assigns, so the line
  is read as the assignment that it is written as; only the words that other lines begin with cannot be
  its first word.

  What is proved:
    1. `Text.dropWord?_eq_none` — a line that begins with one word begins with no other.
    2. `Line.readAssignment?_eq` — the operator is found where it is written.
    3. `IsLeftSide.sequence_apply` — a line with a left side is executed as its assignment.
-/

namespace Scriptlet

/-! ## Blanks at the ends -/

namespace Text

variable {pad lead s t : Text}

theorem trimRight_append_eq (hs : ∃ c ∈ s.getLast?, c.isBlank = false) (t : Text) :
    Text.trimRight (s ++ t) = s ++ t.trimRight := by
  obtain ⟨c, hc, hblank⟩ := hs
  have hreverse : s.reverse.head? = some c := by rw [List.head?_reverse]; exact hc
  obtain ⟨rest, hrest⟩ := List.head?_eq_some_iff.mp hreverse
  unfold trimRight
  rw [List.reverse_append, List.dropWhile_append]
  split
  · rename_i hnil
    rw [List.isEmpty_iff.mp hnil, hrest, List.dropWhile_cons_of_neg (by simp [hblank]), ← hrest,
      List.reverse_reverse]
    simp
  · rw [List.reverse_append, List.reverse_reverse]

theorem trimRight_blanks (hpad : ∀ c ∈ pad, c.isBlank = true) : pad.trimRight = [] := by
  unfold trimRight
  rw [List.dropWhile_eq_nil_iff.mpr fun c hc => hpad c (List.mem_reverse.mp hc), List.reverse_nil]

/-- Blanks in front of a text that begins with something else, and what is left of its end. -/
theorem trim_blanks_append (hlead : ∀ c ∈ lead, c.isBlank = true)
    (hhead : ∃ c ∈ s.head?, c.isBlank = false) (hlast : ∃ c ∈ s.getLast?, c.isBlank = false) (t : Text) :
    Text.trim (lead ++ (s ++ t)) = s ++ t.trimRight := by
  have hleft : Text.trimLeft (s ++ t) = s ++ t := by
    obtain ⟨c, hc, hblank⟩ := hhead
    obtain ⟨rest, rfl⟩ := List.head?_eq_some_iff.mp hc
    refine trimLeft_eq_self_iff.mpr fun d hd => ?_
    cases hd
    exact hblank
  unfold trim
  rw [trimLeft_blanks_append hlead hleft, trimRight_append_eq hlast]

/-- Without the blanks at its end a text is blanks and what is left without those at both ends. -/
theorem exists_trimRight (t : Text) : ∃ lead trail : Text, (∀ c ∈ lead, c.isBlank = true) ∧
    t = t.trimRight ++ trail ∧ t.trimRight = lead ++ t.trim := by
  obtain ⟨lead, trail, hlead, htrail, ht⟩ := exists_blanks t
  cases htrim : t.trim with
  | nil =>
    rw [htrim, List.append_nil] at ht
    have hnil : t.trimRight = [] := by
      rw [ht]
      exact trimRight_blanks (List.forall_mem_append.mpr ⟨hlead, htrail⟩)
    exact ⟨[], t, List.forall_mem_nil _, by rw [hnil]; rfl, hnil⟩
  | cons c rest =>
    have hlast : ∃ d ∈ (lead ++ t.trim).getLast?, d.isBlank = false := by
      have hne : t.trim ≠ [] := by rw [htrim]; exact List.cons_ne_nil _ _
      have hd := List.getLast?_eq_some_getLast hne
      refine ⟨t.trim.getLast hne, ?_, (trim_eq_self_iff.mp (trim_trim t)).2 _ hd⟩
      rw [List.getLast?_append_of_ne_nil _ hne]
      exact hd
    have hright : t.trimRight = lead ++ t.trim := by
      calc t.trimRight = Text.trimRight (lead ++ t.trim ++ trail) := by rw [← ht]
        _ = lead ++ t.trim ++ trail.trimRight := trimRight_append_eq hlast trail
        _ = lead ++ t.trim := by rw [trimRight_blanks htrail, List.append_nil]
    exact ⟨lead, trail, hlead, by rw [hright]; exact ht, by rw [hright, htrim]⟩

theorem trim_trimRight (t : Text) : t.trimRight.trim = t.trim := by
  obtain ⟨lead, -, hlead, -, hright⟩ := exists_trimRight t
  obtain ⟨hhead, hlast⟩ := trim_eq_self_iff.mp (trim_trim t)
  rw [hright]
  show Text.trimRight (Text.trimLeft (lead ++ t.trim)) = t.trim
  rw [trimLeft_blanks_append hlead (trimLeft_eq_self_iff.mpr hhead), trimRight_eq_self_iff.mpr hlast]

/-! ## Words in front of a line -/

/-- A text that begins with a whole word begins with no other whole word. -/
theorem dropWord?_eq_none {word name rest : Text} (hword : ∀ c ∈ word, c.isWord = true)
    (hname : ∀ c ∈ name, c.isWord = true) (hne : name ≠ word) (hrest : EndsWord rest) :
    dropWord? word (name ++ rest) = none := by
  unfold dropWord?
  cases hdrop : dropStart? word (name ++ rest) with
  | none => rfl
  | some t =>
    obtain ⟨c, more, rfl, hc⟩ := exists_word_of_append_eq hword hname hne hrest
      (dropStart?_eq_some_iff.mp hdrop)
    simp [hc]

end Text

/-! ## The operator that assigns -/

namespace Token

variable {start : Nat} {done : List Token} {t op e : Text} {ws : List Word} {fault : ScanFault}

/-- Why a text cannot be cut into tokens does not depend on what is in front of it. -/
theorem scanFrom_error (h : scanFrom start done t = .error fault) (start' : Nat) (done' : List Token) :
    scanFrom start' done' t = .error fault := by
  induction start, done, t using scanFrom.induct generalizing start' done' with
  | case1 start done =>
    unfold scanFrom at h
    cases h
  | case2 start done c rest fault hlexeme =>
    unfold scanFrom at h ⊢
    simp only [hlexeme] at h ⊢
    exact h
  | case3 start done c rest kind n hlexeme stop done' ih =>
    unfold scanFrom at h ⊢
    simp only [hlexeme] at h ⊢
    exact ih h _ _

/-- An equals sign is itself where no other one follows. -/
theorem lexeme_equals (he : e.head? ≠ some (CodePoint.ofChar '=')) :
    lexeme (CodePoint.ofChar '=') e = .ok (some .operator, 0) := by
  -- Of the operators in front of it only the comparison begins with it.
  have hbegin : ∀ op ∈ operators.dropLast, op = "==" ∨ op.head?.all (· != CodePoint.ofChar '=') := by
    decide
  have hfind : operators.find? (·.isPrefixOf (CodePoint.ofChar '=' :: e)) = some (Text.ofString "=") := by
    refine List.find?_eq_some_iff_append.mpr ⟨rfl, operators.dropLast, [], by decide, fun op hop => ?_⟩
    rcases hbegin op hop with rfl | hhead
    · cases e with
      | nil => rfl
      | cons d e =>
        have hd : CodePoint.ofChar '=' ≠ d := fun h => he (congrArg some h.symm)
        have hpair : (Text.ofString "==") = [CodePoint.ofChar '=', CodePoint.ofChar '='] := by decide
        rw [hpair]
        simp [List.isPrefixOf, hd]
    · cases op with
      | nil => exact absurd hop (by decide)
      | cons c op =>
        have hc : c ≠ CodePoint.ofChar '=' := by simpa using hhead
        simp [List.isPrefixOf, hc]
  rw [lexeme, if_neg (by decide), numberLength_eq_zero (by decide) (by decide)]
  simp only [hfind]
  rfl

/-- In front of a right side an operator that assigns is itself; an equals sign makes another operator with
one behind it. -/
theorem lexeme_assignment (hop : op ∈ assignments)
    (he : op = "=" → e.head? ≠ some (CodePoint.ofChar '=')) :
    ∃ c rest, op = c :: rest ∧ lexeme c (rest ++ e) = .ok (some .operator, rest.length) := by
  have hmember : op ∈ [Text.ofString "=", "+=", "-=", "*=", "/=", "//=", "%="] := hop
  simp only [List.mem_cons, List.not_mem_nil, or_false] at hmember
  rcases hmember with rfl | rfl | rfl | rfl | rfl | rfl | rfl
  · exact ⟨_, [], rfl, lexeme_equals (he rfl)⟩
  all_goals exact ⟨_, _, rfl, rfl⟩

/-- Blanks in front of a text do not change whether it can be cut into tokens. -/
theorem scan_blanks_append {pad : Text} (hpad : ∀ c ∈ pad, c.isBlank = true) (t : Text) :
    match scan t with
    | .error fault => scan (pad ++ t) = .error fault
    | .ok _ => ∃ tokens, scan (pad ++ t) = .ok tokens := by
  rw [show scan (pad ++ t) = scanFrom (0 + pad.length) [] t from scanFrom_blanks hpad 0 [] t]
  cases hscan : scan t with
  | error fault => exact scanFrom_error hscan _ _
  | ok tokens =>
    cases hmore : scanFrom (0 + pad.length) [] t with
    | ok found => exact ⟨found, rfl⟩
    | error fault =>
      rw [scan, scanFrom_error hmore] at hscan
      cases hscan

/-- A text that is cut into tokens is cut into the same words without the blanks at its ends. -/
theorem scan_trim {tokens : List Token} (h : scan t = .ok tokens) :
    ∃ found, scan t.trim = .ok found ∧ found.map word = tokens.map word := by
  cases htrim : scan t.trim with
  | ok found =>
    obtain ⟨all, hall, hsame⟩ := scan_of_trim htrim
    obtain rfl : all = tokens := Except.ok.inj (hall.symm.trans h)
    exact ⟨found, rfl, hsame.symm⟩
  | error fault =>
    obtain ⟨lead, trail, hlead, htrail, ht⟩ := Text.exists_blanks t
    have hfails : scan t = .error fault := by
      rw [ht, List.append_assoc]
      exact (scanFrom_blanks hlead 0 [] _).trans
        (scanFrom_blanks_append (scanFrom_error htrim _ _) htrail)
    rw [h] at hfails
    cases hfails

/-- A text without tokens is blank. -/
theorem trim_eq_nil_of_scan (h : scan t.trim = .ok []) : t.trim = [] := by
  have htokens : ∀ {start : Nat} {u : Text} {tokens : List Token}, Lexes start u tokens → tokens = [] →
      ∀ c ∈ u.head?, c.isBlank = true := by
    intro start u tokens hlexes hnil c hc
    cases hlexes with
    | nil => cases hc
    | blank hlexeme _ => exact blank_of_lexeme hlexeme c (List.mem_cons.mpr (.inl (Option.some.inj hc).symm))
    | token => cases hnil
  cases htrim : t.trim with
  | nil => rfl
  | cons c rest =>
    have hhead : c ∈ t.trim.head? := by rw [htrim]; rfl
    have hblank := htokens (scan_iff.mp h) rfl c hhead
    rw [(Text.trim_eq_self_iff.mp (Text.trim_trim t)).1 c hhead] at hblank
    cases hblank

theorem scan_assignment (hcuts : Cuts t (op ++ e) ws) (hop : op ∈ assignments)
    (he : op = "=" → e.head? ≠ some (CodePoint.ofChar '=')) :
    match scan e with
    | .error fault => scan (t ++ (op ++ e)) = .error fault
    | .ok _ => ∃ front more, front.map word = ws ∧ scan (t ++ (op ++ e)) =
        .ok (front ++ ⟨.operator, op, t.length, t.length + op.length⟩ :: more) := by
  obtain ⟨c, rest, rfl, hlexeme⟩ := lexeme_assignment hop he
  obtain ⟨front, hwords, hfront⟩ := hcuts 0 []
  rw [List.append_nil, Nat.zero_add] at hfront
  have hall : scan (t ++ (c :: rest ++ e)) = scanFrom (t.length + rest.length + 1)
      (⟨.operator, c :: rest, t.length, t.length + rest.length + 1⟩ :: front.reverse) e := by
    refine hfront.trans ?_
    rw [List.cons_append, scanFrom.eq_def]
    simp only [hlexeme, List.take_left, List.drop_left]
  rw [hall]
  cases hscan : scan e with
  | error fault => exact scanFrom_error hscan _ _
  | ok tokens =>
    dsimp only
    cases hmore : scanFrom (t.length + rest.length + 1)
        (⟨.operator, c :: rest, t.length, t.length + rest.length + 1⟩ :: front.reverse) e with
    | error fault =>
      rw [scan, scanFrom_error hmore] at hscan
      cases hscan
    | ok all =>
      obtain ⟨more, rfl, -⟩ := exists_lexes hmore
      refine ⟨front, more, hwords, ?_⟩
      rw [List.reverse_cons, List.reverse_reverse, List.append_assoc]
      rfl

end Token

namespace Line

open Token

variable {t op e : Text} {ws : List Word}

/-- The operator that is found is the one in front of the right side. -/
theorem readAssignment?_eq (hcuts : Cuts t (op ++ e) ws) (hcalm : AssignsNothing ws)
    (hop : op ∈ assignments) (he : op = "=" → e.head? ≠ some (CodePoint.ofChar '=')) :
    readAssignment? (t ++ (op ++ e)) = match scan e with
      | .error fault => .error (.error ⟨.badSyntax, fault.message, t ++ (op ++ e)⟩)
      | .ok _ => .ok (some (.assign t.trim op e.trim)) := by
  have hscan := scan_assignment hcuts hop he
  unfold readAssignment?
  cases hright : scan e with
  | error fault =>
    rw [hright] at hscan
    rw [hscan]
    rfl
  | ok tokens =>
    rw [hright] at hscan
    obtain ⟨front, more, rfl, hall⟩ := hscan
    have hassigns : (⟨.operator, op, t.length, t.length + op.length⟩ : Token).word ∈ Word.assigners :=
      (word_mem_assigners _).mpr ⟨rfl, List.contains_iff_mem.mpr hop⟩
    rw [hall]
    dsimp only
    rw [firstAssignment_eq_some hcalm hassigns]
    show Except.ok (some (Statement.assign (Text.trim ((t ++ (op ++ e)).take t.length)) op
      (Text.trim ((t ++ (op ++ e)).drop (t.length + op.length))))) = _
    rw [List.take_left, ← List.drop_drop, List.drop_left, List.drop_left]

end Line

/-! ## Right sides -/

/-- What stops a text that nests too deep. -/
def Fault.IsTooDeep : Fault → Prop
  | .tooDeep => True
  | .error e => e.kind = .limit
  | .failure _ | .unreported _ => False

namespace Engine

variable {limits : Limits}

/-- Blanks at the ends of a text are not evaluated. -/
theorem evaluate_trim (n k : Nat) (text : Text) :
    (tower limits n k).evaluate text.trim = (tower limits n k).evaluate text := by
  rw [tower_below]
  cases n - k with
  | zero => rfl
  | succ n =>
    show Evaluation.evaluate (room limits n) text.trim = Evaluation.evaluate (room limits n) text
    unfold Evaluation.evaluate
    rw [Text.trim_trim]

/-- A right side that is not parsed is refused before anything is evaluated, and if it is too deep, then as
that. -/
theorem evaluate_below_refused (limits : Limits) (levels : Nat) {text : Text} {refusal : ParseFault}
    (hparse : Expr.parse (levels - 6) text = .error refusal) :
    ∃ fault : Fault, (refusal = .tooDeep → fault.IsTooDeep) ∧
      ∀ s, ((room limits levels).below 2).evaluate text s = .error fault s := by
  show ∃ fault : Fault, _ ∧ ∀ s, (tower limits levels 2).evaluate text s = _
  rw [tower_below]
  cases hn : levels - 2 with
  | zero => exact ⟨.tooDeep, fun _ => trivial, fun _ => rfl⟩
  | succ n =>
    obtain ⟨fault, hdeep, hread⟩ : ∃ fault, (refusal = .tooDeep → fault = .tooDeep) ∧
        Evaluation.read n text.trim = .error fault := by
      have hroom : n - Evaluation.readingLevels = levels - 6 := by
        show n - 3 = levels - 6
        omega
      rw [Evaluation.read, hroom, Expr.parse, Text.trim_trim, show Expr.parseWhole _ _ = _ from hparse]
      cases refusal with
      | tooDeep => exact ⟨.tooDeep, fun _ => rfl, rfl⟩
      | longInteger _ | scan _ | empty | unexpected _ _ => exact ⟨_, fun h => (by cases h), rfl⟩
    refine ⟨fault.leaving text.trim, fun h => ?_, fun s => ?_⟩
    · rw [hdeep h]
      rfl
    · show Run.mapFault _ (liftM (Evaluation.read n text.trim) >>= _) s = _
      rw [hread]
      rfl

end Engine

/-- An assignment without a right side is refused. -/
theorem Execution.assignment_blank (room : Room) (target operator : Text) (s : State) :
    ∃ e : ScriptError, assignment room target operator [] s = .error (.error e) s ∧
      e.kind = .badSyntax := by
  unfold assignment
  rw [if_pos (by simp)]
  exact ⟨_, rfl, rfl⟩

/-! ## Whole lines -/

/-- The words that a line begins with that does not assign. -/
def statementWords : List Text := "import" :: "from" :: headerWords

/-- The text can stand to the left of an operator that assigns: it begins with a name that no other line
begins with, and it is cut into words that assign nothing. -/
structure IsLeftSide (t : Text) (ws : List Word) : Prop where
  begins : ∃ name rest, t = name ++ rest ∧ IsTarget name ∧ name ∉ statementWords ∧ Text.EndsWord rest
  trimmed : t.trim = t
  cuts : ∀ rest, Token.Ends rest → Token.Cuts t rest ws
  calm : AssignsNothing ws

namespace IsLeftSide

open Token Engine

variable {t op e pad lead : Text} {ws : List Word}

theorem nonempty (h : IsLeftSide t ws) : t ≠ [] := by
  obtain ⟨name, rest, rfl, hname, -⟩ := h.begins
  obtain ⟨c, more, rfl, -⟩ := hname.exists_cons
  exact List.cons_ne_nil _ _

theorem head (h : IsLeftSide t ws) : ∃ c ∈ t.head?, c.isBlank = false := by
  have hhead := List.head?_eq_some_head h.nonempty
  exact ⟨_, hhead, (Text.trim_eq_self_iff.mp h.trimmed).1 _ hhead⟩

theorem last (h : IsLeftSide t ws) : ∃ c ∈ t.getLast?, c.isBlank = false := by
  have hlast := List.getLast?_eq_some_getLast h.nonempty
  exact ⟨_, hlast, (Text.trim_eq_self_iff.mp h.trimmed).2 _ hlast⟩

/-- A line that begins with a left side is no header and no import. -/
theorem read_eq (h : IsLeftSide t ws) {rest : Text} (hrest : Text.EndsWord rest) :
    Line.read (t ++ rest) = (Line.readStatement (t ++ rest)).map Line.statement ∧
      (t ++ rest ≠ "pass" → Line.readStatement (t ++ rest) =
        (Line.readAssignment? (t ++ rest)).map fun found => found.getD (.expression (t ++ rest))) := by
  obtain ⟨name, more, rfl, hname, hwords, hmore⟩ := h.begins
  have hends : Text.EndsWord (more ++ rest) := by
    intro c hc
    cases more with
    | nil => exact hrest c hc
    | cons d more =>
      exact hmore c hc
  have hnone : ∀ word ∈ statementWords, Text.dropWord? word (name ++ more ++ rest) = none := by
    intro word hword
    rw [List.append_assoc]
    have hall : ∀ word ∈ statementWords, ∀ c ∈ word, c.isWord = true := by decide +kernel
    exact Text.dropWord?_eq_none (hall word hword) hname.isWord (fun h => hwords (h ▸ hword)) hends
  have hstart : ∀ word ∈ statementWords, Text.startsWithWord word (name ++ more ++ rest) = false := by
    intro word hword
    rw [Text.startsWithWord, hnone word hword]
    rfl
  constructor
  · unfold Line.read
    rw [hnone "for" (by decide), hnone "if" (by decide), hnone "while" (by decide),
      hstart "elif" (by decide), hstart "else" (by decide)]
    simp only [Bool.or_self, Bool.false_eq_true, if_false]
    cases Line.readStatement (name ++ more ++ rest) <;> rfl
  · intro hpass
    unfold Line.readStatement
    rw [if_neg (by simpa using hpass), hstart "import" (by decide), hstart "from" (by decide)]
    simp only [Bool.or_self, Bool.false_eq_true, if_false]
    cases Line.readAssignment? (name ++ more ++ rest) <;> rfl

/-- An operator that assigns goes on with no word, and neither do blanks in front of it. -/
theorem ends_operator (hpad : ∀ c ∈ pad, c.isBlank = true) (hop : op ∈ assignments) (rest : Text) :
    Ends (pad ++ (op ++ rest)) := by
  have hfirst : ∀ op ∈ assignments, op ≠ [] ∧
      ∀ c ∈ op.head?, c.isWord = false ∧ c.isDigit = false ∧ c.val ≠ 46 := by
    decide +kernel
  refine .blanks_append hpad fun c hc => ?_
  rw [List.head?_append_of_ne_nil _ (hfirst op hop).1] at hc
  exact (hfirst op hop).2 c hc

/-- Without blanks at its ends the line begins with its left side. -/
theorem trim_line (h : IsLeftSide t ws) (hlead : ∀ c ∈ lead, c.isBlank = true) (hop : op ∈ assignments) :
    Text.trim (lead ++ (t ++ (pad ++ (op ++ e)))) = t ++ (pad ++ (op ++ e.trimRight)) := by
  have hlast : ∀ op ∈ assignments, op ≠ [] ∧ ∃ c ∈ op.getLast?, c.isBlank = false := by decide +kernel
  obtain ⟨hne, hlast⟩ := hlast op hop
  have hall := Text.trim_blanks_append (s := t ++ (pad ++ op)) hlead
    (by rw [List.head?_append_of_ne_nil _ h.nonempty]; exact h.head)
    (by rwa [← List.append_assoc, List.getLast?_append_of_ne_nil _ hne]) e
  simpa only [List.append_assoc] using hall

/-- The line is read as the assignment that it is written as. -/
theorem readStatement_eq (h : IsLeftSide t ws) (hpad : ∀ c ∈ pad, c.isBlank = true)
    (hop : op ∈ assignments) (he : op = "=" → e.head? ≠ some (CodePoint.ofChar '=')) :
    Line.readStatement (t ++ (pad ++ (op ++ e.trimRight))) = match scan e.trim with
      | .error fault => .error (.error ⟨.badSyntax, fault.message, t ++ (pad ++ (op ++ e.trimRight))⟩)
      | .ok _ => .ok (.assign t op e.trim) := by
  have hends := ends_operator hpad hop e.trimRight
  obtain ⟨blanks, trail, hblanks, hleft, hright⟩ := Text.exists_trimRight e
  have hequal : op = "=" → e.trimRight.head? ≠ some (CodePoint.ofChar '=') := by
    intro h heq
    rw [hleft, List.head?_append, heq] at he
    exact he h rfl
  have hcuts : Cuts (t ++ pad) (op ++ e.trimRight) ws := by
    have hall := (h.cuts _ hends).append (Cuts.blanks hpad)
    rwa [List.append_nil] at hall
  have htarget : Text.trim (t ++ pad) = t := by
    have hall := Text.trim_blanks_append (List.forall_mem_nil _) h.head h.last pad
    rwa [Text.trimRight_blanks hpad, List.append_nil, List.nil_append] at hall
  have hpass : t ++ (pad ++ (op ++ e.trimRight)) ≠ Text.ofString "pass" := by
    intro heq
    have hequals : ∀ op ∈ assignments, CodePoint.ofChar '=' ∈ op := by decide
    have hmember : CodePoint.ofChar '=' ∈ Text.ofString "pass" := by
      rw [← heq]
      simp [hequals op hop]
    exact absurd hmember (by decide)
  have hread := Line.readAssignment?_eq hcuts h.calm hop hequal
  rw [List.append_assoc, htarget, Text.trim_trimRight] at hread
  rw [(h.read_eq fun c hc => (hends c hc).1).2 hpass, hread]
  have hscan := scan_blanks_append hblanks e.trim
  rw [← hright] at hscan
  cases hresult : scan e.trim with
  | error fault =>
    rw [hresult] at hscan
    rw [hscan]
    rfl
  | ok tokens =>
    rw [hresult] at hscan
    obtain ⟨found, hfound⟩ := hscan
    rw [hfound]
    rfl

/-- A line with a left side is executed as the assignment that it is written as, and nothing is done if its
right side cannot be cut into tokens. -/
theorem sequence_apply (h : IsLeftSide t ws) (limits : Limits) (levels : Nat) (s : State)
    (hlead : ∀ c ∈ lead, c.isBlank = true) (hpad : ∀ c ∈ pad, c.isBlank = true) (hop : op ∈ assignments)
    (he : op = "=" → e.head? ≠ some (CodePoint.ofChar '=')) :
    Execution.sequence limits (room limits levels) [lead ++ (t ++ (pad ++ (op ++ e)))] s =
      match scan e.trim with
      | .error fault =>
        .error (.error ⟨.badSyntax, fault.message, t ++ (pad ++ (op ++ e.trimRight))⟩) s
      | .ok _ => Execution.assignment (room limits levels) t op e.trim s := by
  have hends := ends_operator hpad hop e.trimRight
  rw [Program.sequence_simple limits
    (by rw [h.trim_line hlead hop]; exact (h.read_eq fun c hc => (hends c hc).1).1), h.trim_line hlead hop]
  unfold Program.simpleLine
  rw [h.readStatement_eq hpad hop he]
  cases scan e.trim with
  | error fault => rfl
  | ok tokens =>
    rw [Run.bind_apply, Run.liftM_apply]
    dsimp only
    rw [show Execution.statement limits (room limits levels) (t ++ (pad ++ (op ++ e.trimRight)))
      (.assign t op e.trim) s = Execution.assignment (room limits levels) t op e.trim s from rfl]
    cases Execution.assignment (room limits levels) t op e.trim s with
    | error fault u => rfl
    | ok _ u =>
      dsimp only
      rw [Execution.sequence]
      rfl

end IsLeftSide

end Scriptlet
