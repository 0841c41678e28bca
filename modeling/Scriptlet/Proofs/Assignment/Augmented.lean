import Scriptlet.Proofs.Assignment.Several
import Scriptlet.Proofs.Grammar.Operands
import Scriptlet.Proofs.Parse.Room
import Scriptlet.Proofs.Spans.Evaluation

/-
  Augmented assignments.

  An augmented assignment writes its target and its right side, each in parentheses, into a new text with
  the operator between them, and evaluates that. The new text is cut into the words of both sides, so it is
  the operator between the target and the expression that the right side is, and no expression if the right
  side is none. The exception is a right side that closes a bracket that it has not opened: it can end the
  parentheses that it is put in and begin new ones, and then it is no expression where the new text is one.

  The new text nests deeper than the right side does, and a right side that just has room by itself may have
  none in it. Then the line is refused as too deep.

  What is proved:
    1. `Token.scan_augmented` — the words of the new text.
    2. `Expr.parse_augmented` — it is too deep, or it has an integer that is too long, or it is parsed to what
       the grammar derives from these words.
    3. `augmented_assigns` — so the target is bound to what the operator gives for it and the right side, and
       what else a line can do.
    4. `not_augmented_assigns` — a right side that closes the parentheses is not refused.
-/

namespace Scriptlet

open Engine (room tower)
open Execution

/-- The text of an operator. -/
def BinaryOp.sign (op : BinaryOp) : Text := .ofString op.symbol

/-- The text of the operator that assigns to a target what the operator gives for it. -/
def BinaryOp.assigner (op : BinaryOp) : Text := op.sign ++ "="

/-! ## The new text -/

section

variable {x r : Text} {op : BinaryOp} {tokens : List Token}

theorem BinaryOp.assigner_mem (hop : op ≠ .pow) : op.assigner ∈ Token.assignments := by
  cases op <;> first | exact absurd rfl hop | decide

theorem BinaryOp.assigner_ne (op : BinaryOp) : op.assigner ≠ "=" := by cases op <;> decide

theorem Execution.augmented_eq (x r : Text) (op : BinaryOp) : augmented x op.assigner r =
    "(" ++ (x ++ (")" ++ (" " ++ (op.sign ++ (" " ++ ("(" ++ (r ++ ")"))))))) := by
  have hsign : op.assigner.dropLast = op.sign := List.dropLast_concat
  have hclose : Text.ofString ") " = Text.ofString ")" ++ Text.ofString " " := by decide
  have hopen : Text.ofString " (" = Text.ofString " " ++ Text.ofString "(" := by decide
  rw [augmented, hsign, hclose, hopen]
  simp only [List.append_assoc]

theorem Text.trim_augmented (x r : Text) (op : BinaryOp) :
    (augmented x op.assigner r).trim = augmented x op.assigner r := by
  rw [augmented_eq]
  refine trim_eq_self_iff.mpr ⟨fun c hc => ?_, fun c hc => ?_⟩
  · cases hc
    decide
  · have hlast : ∀ t : Text, (t ++ Text.ofString ")").getLast? = some (CodePoint.ofChar ')') :=
      fun t => List.getLast?_concat
    simp only [← List.append_assoc, hlast] at hc
    cases hc
    decide

namespace Token

/-- In front of a blank the operator is itself. -/
theorem cuts_operator (op : BinaryOp) {rest : Text} (hrest : Spaces rest) :
    Cuts op.sign rest [Joint.word (.binary op)] := by
  have hmember : op.sign ∈ operators := by cases op <;> decide
  obtain ⟨c, t, heq, hlexeme⟩ := lexeme_operator _ hmember
  rw [show Joint.word (.binary op) = .of op.sign from rfl, Word.of_operator hmember, heq]
  exact .token (hlexeme _ hrest)

/-- The new text is cut into the words of both sides, with parentheses around them. -/
theorem scan_augmented (hx : IsTarget x) (h : scan r = .ok tokens) (op : BinaryOp) :
    ∃ found, scan (augmented x op.assigner r) = .ok found ∧
      found.map word = Word.operands op x (tokens.map word) := by
  have hopen : ∀ rest, Cuts "(" rest [.of "("] := fun _ => .sign (by decide) (by decide)
  have hclose : ∀ rest, Cuts ")" rest [.of ")"] := fun _ => .sign (by decide) (by decide)
  have hblank : ∀ rest, Cuts " " rest [] := fun _ => .blanks (by decide)
  have hname : ∀ t rest, Cuts x (")" ++ t ++ rest) [⟨.name, x⟩] := fun _ _ => hx.cuts <| by
    intro c hc
    cases hc
    decide
  have hoperator : ∀ t rest, Cuts op.sign (" " ++ t ++ rest) [Joint.word (.binary op)] :=
    fun _ _ => cuts_operator op fun c hc => (Option.some.inj hc).symm
  have hright : Cuts r ")" (tokens.map word) :=
    cuts_of_scan h fun c hc => .inr (Option.some.inj hc).symm
  have hall : Cuts (augmented x op.assigner r) [] (Word.operands op x (tokens.map word)) := by
    rw [augmented_eq]
    exact (hopen _).append <| (hname _ _).append <| (hclose _).append <| (hblank _).append <|
      (hoperator _ _).append <| (hblank _).append <| (hopen _).append <| hright.append (hclose [])
  exact hall.exists_scan

end Token

/-- Without room the new text is too deep. -/
theorem Expr.parse_augmented_zero (hx : IsTarget x) (h : Token.scan r = .ok tokens) (op : BinaryOp) :
    parse 0 (augmented x op.assigner r) = .error .tooDeep := by
  obtain ⟨found, hfound, hwords⟩ := Token.scan_augmented hx h op
  rw [parse, Text.trim_augmented]
  refine parseWhole_zero hfound ?_
  rintro rfl
  cases hwords

/-- Of the words of the new text only those of the right side are integers. -/
theorem Word.mem_of_isLong {w : Word} {ws : List Word} (hlong : w.isLong = true)
    (hw : w ∈ operands op x ws) : w ∈ ws := by
  have hsign : ∀ text, (Word.of text).isLong ≠ true := fun text => Bool.eq_false_iff.mp (isLong_of text)
  have hname : (⟨.name, x⟩ : Word).isLong ≠ true :=
    Bool.eq_false_iff.mp (isLong_of_kind fun h => by cases h)
  simp only [operands, List.mem_append, List.mem_cons, List.not_mem_nil, or_false] at hw
  rcases hw with (rfl | rfl | rfl) | rfl | rfl | hw | rfl
  · exact absurd hlong (hsign _)
  · exact absurd hlong hname
  · exact absurd hlong (hsign _)
  · exact absurd hlong (hsign op.sign)
  · exact absurd hlong (hsign _)
  · exact hw
  · exact absurd hlong (hsign _)

/-- The new text is too deep for a small room, or it has an integer that is too long, or it is parsed to what
the grammar derives from its words, or to nothing. -/
theorem Expr.parse_augmented (hx : IsTarget x) (h : Token.scan r = .ok tokens) (op : BinaryOp)
    (room : Nat) :
    (room < 10 * tokens.length + 70 ∧ parse room (augmented x op.assigner r) = .error .tooDeep) ∨
    (∃ token ∈ tokens, token.word.isLong = true ∧
      parse room (augmented x op.assigner r) = .error (.longInteger token.text.length)) ∨
    (∃ e, parse room (augmented x op.assigner r) = .ok e ∧ (∀ token ∈ tokens, token.word.isLong = false) ∧
      Derives (Word.operands op x (tokens.map Token.word)) e.bare) ∨
    ∃ fault message, parse room (augmented x op.assigner r) = .error fault ∧
      fault.message? = some message ∧ 0 < room ∧
        ∀ tree, ¬ Derives (Word.operands op x (tokens.map Token.word)) tree := by
  obtain ⟨found, hfound, hwords⟩ := Token.scan_augmented hx h op
  have hcases := parseWhole_outcomes hfound room
  rw [hwords] at hcases
  rw [parse, Text.trim_augmented]
  refine hcases.imp ?_ (Or.imp ?_ (Or.imp ?_ ?_))
  · have hlength : found.length = tokens.length + 6 := by
      simpa [Word.operands] using congrArg List.length hwords
    exact And.imp_left fun hroom => by omega
  · rintro ⟨token, htoken, hlong, hparse⟩
    have hmem : token.word ∈ Word.operands op x (tokens.map Token.word) :=
      hwords ▸ List.mem_map_of_mem htoken
    obtain ⟨same, hsame, hword⟩ := List.mem_map.mp (Word.mem_of_isLong hlong hmem)
    have htext : same.text = token.text := congrArg Word.text hword
    exact ⟨same, hsame, hword ▸ hlong, htext ▸ hparse⟩
  · rintro ⟨e, hparse, hshort, htree⟩
    refine ⟨e, hparse, fun token htoken => ?_, htree⟩
    have hmem : token.word ∈ found.map Token.word := by
      rw [hwords, Word.operands]
      simp [List.mem_map_of_mem htoken]
    obtain ⟨same, hsame, hword⟩ := List.mem_map.mp hmem
    exact hword ▸ hshort same hsame
  · rintro ⟨fault, message, hparse, hmessage, hno⟩
    refine ⟨fault, message, hparse, hmessage, Nat.pos_of_ne_zero ?_, hno⟩
    rintro rfl
    have hdeep := parse_augmented_zero hx h op
    rw [parse, Text.trim_augmented, hparse] at hdeep
    cases hdeep
    cases hmessage

end

/-! ## The assignment -/

/-- The value of an expression, with what stops its evaluation attached to the text. -/
def Evaluation.ofTree (engine : Engine) (text : Text) (e : Expr) : Run Value :=
  Run.mapFault (Fault.leaving text) (engine.evaluateNode text e)

section

variable {limits : Limits} {levels : Nat} {x r : Text} {op : BinaryOp}

/-- The right side is evaluated as what it is parsed to. -/
theorem Engine.evaluate_below {text : Text} {e : Expr} (hparse : Expr.parse (levels - 6) text = .ok e)
    (hlevels : 3 ≤ levels) : ((room limits levels).below 2).evaluate text =
      Evaluation.ofTree (tower limits (levels - 3) 0) text.trim e := by
  obtain ⟨n, rfl⟩ : ∃ n, levels = n + 3 := ⟨levels - 3, by omega⟩
  have hread : Evaluation.read n text.trim = .ok e := by
    rw [Evaluation.read_ok_iff, Expr.parse, Text.trim_trim]
    exact hparse
  show (tower limits (n + 3) 2).evaluate text = _
  rw [tower_below]
  show Evaluation.evaluate (room limits n) text = _
  unfold Evaluation.evaluate
  show Run.mapFault _ (liftM (Evaluation.read n text.trim) >>= _) = _
  rw [hread]
  rfl

theorem IsTarget.sides (hx : IsTarget x) (hr : r ≠ []) : (x.isEmpty || r.isEmpty) = false := by
  rw [List.isEmpty_eq_false_iff.mpr hx.nonempty, List.isEmpty_eq_false_iff.mpr hr]
  rfl

/-- An augmented assignment evaluates the new text and binds the target to its value. -/
theorem Execution.assignment_augmented (hx : IsTarget x) (hr : r ≠ []) (hlevels : 13 ≤ levels) :
    assignment (room limits levels) x op.assigner r = (do
      let v ← ((room limits levels).below 2).evaluate (augmented x op.assigner r)
      Run.bind x v) := by
  have htarget : ∀ v, bindTarget (room limits levels) x v (op.assigner != "=") = Run.bind x v := by
    obtain ⟨span, hread⟩ := hx.read hlevels
    intro v
    unfold bindTarget
    rw [show (room limits levels).levels = levels from rfl, hread]
    rfl
  rw [assignment_eq (hx.sides hr), assignedText, if_neg (BinaryOp.assigner_ne op)]
  simp only [htarget]

/-- If the new text is too deep, that is reported and nothing is done. -/
theorem Execution.assignment_augmented_tooDeep (hx : IsTarget x) (hr : r ≠ [])
    (hparse : Expr.parse (levels - 6) (augmented x op.assigner r) = .error .tooDeep) (s : State) :
    ∃ fault : Fault, assignment (room limits levels) x op.assigner r s = .error fault s ∧
      fault.IsTooDeep := by
  obtain ⟨fault, hdeep, hfails⟩ := Engine.evaluate_below_refused limits levels hparse
  rw [assignment_eq (hx.sides hr), assignedText, if_neg (BinaryOp.assigner_ne op)]
  exact ⟨fault, Run.bind_of_error (hfails s) _, hdeep rfl⟩

/-- If an integer is too long, the failure to read it is not reported, and nothing is done. -/
theorem Execution.assignment_augmented_long (hx : IsTarget x) (hr : r ≠ []) (hlevels : 3 ≤ levels)
    {digits : Nat}
    (hparse : Expr.parse (levels - 6) (augmented x op.assigner r) = .error (.longInteger digits))
    (s : State) :
    assignment (room limits levels) x op.assigner r s =
      .error (.of .badValue (longDigitsText digits)) s := by
  obtain ⟨n, rfl⟩ : ∃ n, levels = n + 3 := ⟨levels - 3, by omega⟩
  have hread : Evaluation.read n (augmented x op.assigner r).trim =
      .error (.of .badValue (longDigitsText digits)) := by
    rw [Text.trim_augmented, Evaluation.read, show n - Evaluation.readingLevels = n + 3 - 6 from rfl, hparse]
  have hfails : ((room limits (n + 3)).below 2).evaluate (augmented x op.assigner r) s =
      .error (.of .badValue (longDigitsText digits)) s := by
    show (tower limits (n + 3) 2).evaluate _ s = _
    rw [Engine.tower_below]
    show Run.mapFault _ (liftM (Evaluation.read n _) >>= _) s = _
    rw [hread]
    rfl
  rw [assignment_eq (hx.sides hr), assignedText, if_neg (BinaryOp.assigner_ne op)]
  exact Run.bind_of_error hfails _

/-- If the new text is no expression, that is reported and nothing is done. -/
theorem Execution.assignment_augmented_error (hx : IsTarget x) (hr : r ≠ [])
    (hlevels : 3 ≤ levels) {fault : ParseFault} {message : Text}
    (hparse : Expr.parse (levels - 6) (augmented x op.assigner r) = .error fault)
    (hmessage : fault.message? = some message) (s : State) :
    ∃ e : ScriptError, assignment (room limits levels) x op.assigner r s = .error (.error e) s ∧
      e.kind = .badSyntax := by
  have htext : (assignedText x op.assigner r).trim = augmented x op.assigner r := by
    rw [assignedText, if_neg (BinaryOp.assigner_ne op), Text.trim_augmented]
  have hread : Evaluation.read (levels - 3) (assignedText x op.assigner r).trim =
      .error (.error ⟨.badSyntax, message, augmented x op.assigner r⟩) := by
    have hroom : levels - 3 - Evaluation.readingLevels = levels - 6 := by
      show levels - 3 - 3 = levels - 6
      omega
    rw [htext, Evaluation.read, hroom, hparse]
    cases fault with
    | longInteger digits | tooDeep => cases hmessage
    | scan fault | empty | unexpected expected found =>
      simp only [hmessage, Text.trim_augmented]
  have hfails : Program.right limits levels x op.assigner r = _ := Program.right_error (by omega) hread
  rw [assignment_eq (hx.sides hr)]
  exact ⟨_, Run.bind_of_error (congrFun hfails s) _, rfl⟩

end

/-- A text that is parsed, in whatever room, has no integer that is too long, and it is parsed to what the
grammar derives from its words. -/
theorem Expr.derives_of_parse {room : Nat} {r : Text} {tree : Expr} {tokens : List Token}
    (h : parse room r = .ok tree) (hscan : Token.scan r.trim = .ok tokens) :
    (∀ token ∈ tokens, token.word.isLong = false) ∧ Derives (tokens.map Token.word) tree.bare := by
  rw [parse] at h
  rcases parseWhole_outcomes hscan room with
    ⟨-, hfails⟩ | ⟨_, -, -, hfails⟩ | ⟨e, hparse, hall⟩ | ⟨_, -, hfails, -⟩
  · rw [hfails] at h
    cases h
  · rw [hfails] at h
    cases h
  · rw [hparse] at h
    cases h
    exact hall
  · rw [hfails] at h
    cases h

/-! ## One expression -/

/-- The line evaluates the tree, as if it had been read from any text, and binds the name to the value. -/
def BindsTree (limits : Limits) (levels : Nat) (x : Text) (tree : Expr) (line : Text) : Prop :=
  ∀ text, Run.Alike (sequence limits (room limits levels) [line]) (do
    let v ← Evaluation.ofTree (tower limits (levels - 3) 0) text tree
    Run.bind x v)

/-- The line is refused as a syntax error, and nothing changes. -/
def IsRefused (limits : Limits) (levels : Nat) (line : Text) : Prop :=
  ∀ s, ∃ e : ScriptError, sequence limits (room limits levels) [line] s = .error (.error e) s ∧
    e.kind = .badSyntax

/-- The line is found to nest too deep, and nothing changes. -/
def FindsTooDeep (limits : Limits) (levels : Nat) (line : Text) : Prop :=
  ∀ s, ∃ fault : Fault, sequence limits (room limits levels) [line] s = .error fault s ∧ fault.IsTooDeep

/-- An integer of the line is too long, and the failure to read it is not reported as a refusal; nothing
changes. -/
def FindsTooLong (limits : Limits) (levels : Nat) (line : Text) : Prop :=
  ∃ digits, NumberText.maxDigits < digits ∧ ∀ s, sequence limits (room limits levels) [line] s =
    .error (.of .badValue (longDigitsText digits)) s

/-- If the right side is an expression, the line binds the name to what the operator gives for the name and
that expression; and if it is none, the line is refused. -/
def TakesOneExpression (limits : Limits) (levels : Nat) (x : Text) (op : BinaryOp) (r line : Text) : Prop :=
  (∀ n tree, Expr.parse n r = .ok tree → ∀ span place,
    BindsTree limits levels x (.binary span op (.name place x) tree) line) ∧
  ((∀ n tree, Expr.parse n r ≠ .ok tree) → IsRefused limits levels line)

section

variable {x lead pad r : Text} {op : BinaryOp} {tokens : List Token}

/-- Behind a name and an operator that assigns, a right side that is cut into tokens is executed without the
blanks at its ends. -/
theorem Execution.sequence_augmented (limits : Limits) (levels : Nat) (hx : IsTarget x)
    (hfirst : x ∉ statementWords) (hop : op ≠ .pow) (hlead : ∀ c ∈ lead, c.isBlank = true)
    (hpad : ∀ c ∈ pad, c.isBlank = true) (hscan : Token.scan r.trim = .ok tokens) :
    sequence limits (room limits levels) [lead ++ (x ++ (pad ++ (op.assigner ++ r)))] =
      assignment (room limits levels) x op.assigner r.trim := by
  have hside := Text.Lists.last.isLeftSide (List.forall_mem_singleton.mpr hx) hfirst
  funext s
  have hline := hside.sequence_apply (e := r) limits levels s hlead hpad (BinaryOp.assigner_mem hop)
    fun h => absurd h (BinaryOp.assigner_ne op)
  rw [hscan] at hline
  exact hline

variable {limits : Limits} {levels : Nat} {line : Text} (hx : IsTarget x)
  (hline : sequence limits (room limits levels) [line] = assignment (room limits levels) x op.assigner r)
  (hscan : Token.scan r = .ok tokens) (hne : tokens ≠ [])
  (hroom : Expr.parse (levels - 6) (augmented x op.assigner r) ≠ .error .tooDeep)

include hx hline hscan hne hroom

theorem bindsTree_of_derives {tree : Expr} (hshort : ∀ token ∈ tokens, token.word.isLong = false)
    (htree : Derives (Word.operands op x (tokens.map Token.word)) tree.bare) :
    BindsTree limits levels x tree line := by
  have hr : r ≠ [] := Token.ne_nil_of_scan hscan hne
  rcases Expr.parse_augmented hx hscan op (levels - 6) with
    ⟨-, hdeep⟩ | ⟨token, htoken, hlong, -⟩ | ⟨e, hparse, -, p, hp, hmeaning⟩ | ⟨-, -, -, -, -, hno⟩
  · exact absurd hdeep hroom
  · exact absurd hlong (Bool.eq_false_iff.mp (hshort token htoken))
  · have hlevels : 10 ≤ levels - 6 := Expr.le_of_parseWhole hparse
    obtain ⟨q, hq, hmeans⟩ := htree
    obtain rfl : p = q := Phrase.words_injective (hp.trans hq.symm)
    have hbare : e.bare = tree.bare := hmeaning.symm.trans hmeans
    intro text
    rw [hline, assignment_augmented hx hr (by omega), Engine.evaluate_below hparse (by omega)]
    refine Run.Alike.bind ?_ fun v => .refl _
    exact (Engine.evaluateNode_alike _ _ _ _ hbare).attached
      (k := fun fault => (fault.leaving []).detached) (Fault.detached_leaving _) (Fault.detached_leaving _)
  · exact absurd htree (hno _)

theorem isRefused_of_not_derives (hshort : ∀ token ∈ tokens, token.word.isLong = false)
    (hno : ∀ tree, ¬ Derives (Word.operands op x (tokens.map Token.word)) tree) :
    IsRefused limits levels line := by
  have hr : r ≠ [] := Token.ne_nil_of_scan hscan hne
  rcases Expr.parse_augmented hx hscan op (levels - 6) with
    ⟨-, hdeep⟩ | ⟨token, htoken, hlong, -⟩ | ⟨e, -, -, hderives⟩ | ⟨fault, message, hparse, hmessage, hpos, -⟩
  · exact absurd hdeep hroom
  · exact absurd hlong (Bool.eq_false_iff.mp (hshort token htoken))
  · exact absurd hderives (hno _)
  · intro s
    rw [hline]
    exact assignment_augmented_error hx hr (by omega) hparse hmessage s

/-- Where an integer is too long, the line is refused for what stands before it, or the failure to read it
is not reported. -/
theorem isRefused_or_findsTooLong (hlong : ∃ token ∈ tokens, token.word.isLong = true) :
    (IsRefused limits levels line ∧
      ∀ tree, ¬ Derives (Word.operands op x (tokens.map Token.word)) tree) ∨
    FindsTooLong limits levels line := by
  have hr : r ≠ [] := Token.ne_nil_of_scan hscan hne
  obtain ⟨token, htoken, htoolong⟩ := hlong
  rcases Expr.parse_augmented hx hscan op (levels - 6) with
    ⟨-, hdeep⟩ | ⟨read, -, hreadlong, hparse⟩ | ⟨e, -, hshort, -⟩ |
    ⟨fault, message, hparse, hmessage, hpos, hno⟩
  · exact absurd hdeep hroom
  · have hpos : 3 ≤ levels := by
      by_contra hfew
      rw [Nat.sub_eq_zero_of_le (show levels ≤ 6 by omega), Expr.parse_augmented_zero hx hscan] at hparse
      cases hparse
    refine .inr ⟨read.text.length, (Token.isLong_iff.mp hreadlong).2, fun s => ?_⟩
    rw [hline]
    exact assignment_augmented_long hx hr hpos hparse s
  · exact absurd htoolong (Bool.eq_false_iff.mp (hshort token htoken))
  · refine .inl ⟨fun s => ?_, hno⟩
    rw [hline]
    exact assignment_augmented_error hx hr (by omega) hparse hmessage s

end

/-- There is no room to parse the new text of a right side that is not blank. -/
def LacksRoom (levels : Nat) (x : Text) (op : BinaryOp) (r : Text) : Prop :=
  r.trim ≠ [] ∧ Expr.parse (levels - 6) (augmented x op.assigner r.trim) = .error .tooDeep

theorem LacksRoom.parse_ne {levels : Nat} {x r : Text} {op : BinaryOp} (hroom : ¬ LacksRoom levels x op r)
    (hne : r.trim ≠ []) :
    Expr.parse (levels - 6) (augmented x op.assigner r.trim) ≠ .error .tooDeep :=
  fun hdeep => hroom ⟨hne, hdeep⟩

/-- A right side of few tokens has room, whatever it is. -/
theorem not_lacksRoom {levels : Nat} {x r : Text} {op : BinaryOp} {tokens : List Token} (hx : IsTarget x)
    (hscan : Token.scan r = .ok tokens) (hlevels : 10 * tokens.length + 76 ≤ levels) :
    ¬ LacksRoom levels x op r := by
  rintro ⟨-, hdeep⟩
  obtain ⟨found, hfound, hsame⟩ := Token.scan_trim hscan
  have hlength : found.length = tokens.length := by simpa using congrArg List.length hsame
  rcases Expr.parse_augmented hx hfound op (levels - 6) with
    ⟨hroom, -⟩ | ⟨_, -, -, hparse⟩ | ⟨_, hparse, -⟩ | ⟨fault, _, hparse, hmessage, -⟩
  · omega
  · rw [hdeep] at hparse
    cases hparse
  · rw [hdeep] at hparse
    cases hparse
  · rw [hdeep] at hparse
    cases hparse
    cases hmessage

section

variable {limits : Limits} {levels : Nat} {line x r : Text} {op : BinaryOp} {found : List Token}
  (hline : sequence limits (room limits levels) [line] =
    assignment (room limits levels) x op.assigner r.trim)
  (hfound : Token.scan r.trim = .ok found)

include hline hfound

/-- A blank right side is refused for itself. -/
theorem takesOneExpression_of_blank (hnil : found = []) : TakesOneExpression limits levels x op r line := by
  subst hnil
  refine ⟨fun n tree hparse => ?_, fun _ s => ?_⟩
  · obtain ⟨p, hp, -⟩ := (Expr.derives_of_parse hparse hfound).2
    exact absurd hp (Parse.words_ne_nil p)
  · rw [hline, Token.trim_eq_nil_of_scan hfound]
    exact assignment_blank _ x op.assigner s

variable (hx : IsTarget x) (hne : found ≠ []) (hroom : ¬ LacksRoom levels x op r)

include hx hne hroom

theorem takesOneExpression_of_lexed (hop : op ≠ .pow) (hlexed : Lexed (found.map Token.word))
    (hcase : OpensFirst (found.map Token.word) ∨
      ∀ tree, ¬ Derives (Word.operands op x (found.map Token.word)) tree) :
    TakesOneExpression limits levels x op r line := by
  have hnotDeep := LacksRoom.parse_ne hroom (Token.ne_nil_of_scan hfound hne)
  have hshort : ∀ token ∈ found, token.word.isLong = false :=
    fun token htoken => (hlexed _ (List.mem_map_of_mem htoken)).isLong_eq_false
  have hiff : ∀ tree, OpensFirst (found.map Token.word) →
      (Derives (Word.operands op x (found.map Token.word)) tree ↔ _) :=
    fun tree h => derives_operands_iff hop hx.notKeyword h (by simpa using hne)
  refine ⟨fun n tree hparse span place => ?_, fun hnone => ?_⟩
  · have htree := (Expr.derives_of_parse hparse hfound).2
    exact bindsTree_of_derives hx hline hfound hne hnotDeep hshort
      ((hiff _ htree.opensFirst).mpr ⟨tree.bare, htree, rfl⟩)
  · refine isRefused_of_not_derives hx hline hfound hne hnotDeep hshort ?_
    rcases hcase with hopen | hno
    · rintro tree htree
      obtain ⟨e, he, -⟩ := (hiff _ hopen).mp htree
      obtain ⟨whole, hparse, -⟩ := Expr.exists_parseWhole hfound hlexed he (Nat.le_refl _)
      exact hnone _ _ hparse
    · exact hno

/-- A right side that closes what it has not opened is no expression, and the new text is evaluated if it is
one. -/
theorem bindsTree_of_closes (hlexed : Lexed (found.map Token.word))
    (hcloses : ¬ OpensFirst (found.map Token.word)) :
    (∀ n tree, Expr.parse n r ≠ .ok tree) ∧
    ∀ tree : Expr, Derives (Word.operands op x (found.map Token.word)) tree.bare →
      BindsTree limits levels x tree line := by
  refine ⟨fun n tree hparse => hcloses (Expr.derives_of_parse hparse hfound).2.opensFirst, fun tree => ?_⟩
  exact bindsTree_of_derives hx hline hfound hne
    (LacksRoom.parse_ne hroom (Token.ne_nil_of_scan hfound hne))
    fun token htoken => (hlexed _ (List.mem_map_of_mem htoken)).isLong_eq_false

theorem findsTooLong_of_isLong {token : Token} (htoken : token ∈ found) (hlong : token.word.isLong = true) :
    (∀ n tree, Expr.parse n r ≠ .ok tree) ∧
    (IsRefused limits levels line ∨ FindsTooLong limits levels line) ∧
    ((∃ tree, Derives (Word.operands op x (found.map Token.word)) tree) →
      FindsTooLong limits levels line) := by
  have hends := isRefused_or_findsTooLong hx hline hfound hne
    (LacksRoom.parse_ne hroom (Token.ne_nil_of_scan hfound hne)) ⟨token, htoken, hlong⟩
  refine ⟨fun n tree hparse => ?_, hends.imp_left And.left, fun ⟨tree, htree⟩ => ?_⟩
  · exact absurd hlong (Bool.eq_false_iff.mp ((Expr.derives_of_parse hparse hfound).1 token htoken))
  · exact hends.resolve_left fun hrefused => hrefused.2 tree htree

end

/-- If there is no room for the new text, an augmented assignment is refused as too deep. If there is, and no
integer is too long, it takes one expression if its right side closes no bracket that it has not opened, or
if the new text is no expression either. In the other case the right side is no expression, but the new text
is one, and the line evaluates that. If an integer is too long, the right side is no expression, and the line
is refused or the failure to read the integer is not reported; that is so whenever the new text is an
expression but for the length. -/
theorem augmented_assigns (limits : Limits) (levels : Nat) {x lead pad r : Text} {op : BinaryOp}
    {tokens : List Token} (hx : IsTarget x) (hfirst : x ∉ statementWords) (hop : op ≠ .pow)
    (hlead : ∀ c ∈ lead, c.isBlank = true) (hpad : ∀ c ∈ pad, c.isBlank = true)
    (hscan : Token.scan r = .ok tokens) :
    (LacksRoom levels x op r →
      FindsTooDeep limits levels (lead ++ (x ++ (pad ++ (op.assigner ++ r))))) ∧
    (¬ LacksRoom levels x op r →
      ((∀ token ∈ tokens, token.IsInteger → token.text.length ≤ NumberText.maxDigits) →
        ((OpensFirst (tokens.map Token.word) ∨
            ∀ tree, ¬ Derives (Word.operands op x (tokens.map Token.word)) tree) →
          TakesOneExpression limits levels x op r (lead ++ (x ++ (pad ++ (op.assigner ++ r))))) ∧
        (¬ OpensFirst (tokens.map Token.word) → (∀ n tree, Expr.parse n r ≠ .ok tree) ∧
          ∀ tree : Expr, Derives (Word.operands op x (tokens.map Token.word)) tree.bare →
            BindsTree limits levels x tree (lead ++ (x ++ (pad ++ (op.assigner ++ r)))))) ∧
      ((∃ token ∈ tokens, token.IsInteger ∧ NumberText.maxDigits < token.text.length) →
        (∀ n tree, Expr.parse n r ≠ .ok tree) ∧
        (IsRefused limits levels (lead ++ (x ++ (pad ++ (op.assigner ++ r)))) ∨
          FindsTooLong limits levels (lead ++ (x ++ (pad ++ (op.assigner ++ r))))) ∧
        ((∃ tree, Derives (Word.operands op x (tokens.map Token.word)) tree) →
          FindsTooLong limits levels (lead ++ (x ++ (pad ++ (op.assigner ++ r))))))) := by
  obtain ⟨found, hfound, hsame⟩ := Token.scan_trim hscan
  have hline := sequence_augmented limits levels hx hfirst hop hlead hpad hfound
  refine ⟨fun hlacks s => ?_, fun hroom => ⟨fun hdigits => ?_, fun hlong => ?_⟩⟩
  · rw [hline]
    exact assignment_augmented_tooDeep hx hlacks.1 hlacks.2 s
  · have hlexed : Lexed (found.map Token.word) := hsame ▸ Token.scan_lexed hscan hdigits
    rw [← hsame]
    by_cases hne : found = []
    · refine ⟨fun _ => takesOneExpression_of_blank hline hfound hne, fun hcloses => ?_⟩
      subst hne
      exact absurd (by decide) hcloses
    · exact ⟨takesOneExpression_of_lexed hline hfound hx hne hroom hop hlexed,
        bindsTree_of_closes hline hfound hx hne hroom hlexed⟩
  · obtain ⟨token, htoken, hinteger⟩ := hlong
    obtain ⟨same, hmem, hword⟩ := List.mem_map.mp
      (show token.word ∈ found.map Token.word from hsame ▸ List.mem_map_of_mem htoken)
    rw [← hsame]
    exact findsTooLong_of_isLong hline hfound hx (List.ne_nil_of_mem hmem) hroom hmem
      (hword ▸ Token.isLong_iff.mpr hinteger)

/-- The tokens of a right side that closes a parenthesis and opens another one. -/
def Token.closing : List Token :=
  [⟨.number, "1", 1, 2⟩, ⟨.operator, ")", 2, 3⟩, ⟨.operator, "+", 4, 5⟩, ⟨.operator, "(", 6, 7⟩,
    ⟨.number, "2", 7, 8⟩]

theorem Token.scan_closing : scan " 1) + (2" = .ok closing :=
  scan_eq_ok (by decide +kernel)

/-- The token of an integer that is too long, by one digit. -/
def Token.ones : List Token := [⟨.number, List.replicate 4301 (CodePoint.ofChar '1'), 0, 4301⟩]

/-- However often a digit is repeated, that is one integer. -/
theorem Token.scan_replicate {c : CodePoint} (hc : c.isAsciiDigit = true) (n : Nat) :
    scan (List.replicate (n + 1) c) = .ok [⟨.number, List.replicate (n + 1) c, 0, n + 1⟩] := by
  have hdigits : ∀ d ∈ List.replicate n c, d.isAsciiDigit = true :=
    fun d hd => List.eq_of_mem_replicate hd ▸ hc
  have hlexeme : lexeme c (List.replicate n c ++ []) = _ :=
    lexeme_number hc hdigits fun d hd => by cases hd
  rw [List.append_nil, List.length_replicate] at hlexeme
  rw [scan, List.replicate_succ, scanFrom.eq_def]
  simp only [hlexeme]
  rw [scanFrom.eq_def]
  simp

theorem Token.scan_ones : scan (List.replicate 4301 (CodePoint.ofChar '1')) = .ok ones :=
  scan_replicate (by decide) 4300

theorem Token.ones_long : ∃ token ∈ ones, token.IsInteger ∧ NumberText.maxDigits < token.text.length := by
  refine ⟨_, List.mem_singleton_self _, ⟨rfl, List.any_eq_false.mpr fun d hd => ?_⟩, ?_⟩
  · rw [List.eq_of_mem_replicate hd]
    decide
  · rw [List.length_replicate]
    decide

/-- A number is an expression, however long it is. -/
theorem Derives.number (text : Text) : ∃ tree, Derives [⟨.number, text⟩] tree := by
  let p := (Phrase.chain (t := .sum) (.chain (t := .product) (Phrase.number text).asFactor .tailEnd)
    .tailEnd).asList
  exact ⟨p.meaning, p, rfl, rfl⟩

/-- Tokens of one code point are no integers that are too long. -/
theorem Token.short_of_single {tokens : List Token} (h : ∀ token ∈ tokens, token.text.length ≤ 1) :
    ∀ token ∈ tokens, token.IsInteger → token.text.length ≤ NumberText.maxDigits :=
  fun token htoken _ => (h token htoken).trans (by decide)

/-- A product with a sum as its right side, without enough room and with it, a right side that is no
expression, and one that is an integer of 4301 digits. -/
theorem augmented_assigns_product :
    FindsTooDeep .standard 6 "a *= b + 1" ∧
      TakesOneExpression .standard 959 "a" .mul " b + 1" "a *= b + 1" ∧
      Ending.hasPair 3 2 (sequence .standard (room .standard 959) ["a *= b + 1"] .ofPair) = true ∧
      (∀ n tree, Expr.parse n " 1) + (2" ≠ .ok tree) ∧
      FindsTooLong .standard 959 ("a *=" ++ List.replicate 4301 (CodePoint.ofChar '1')) := by
  have hx : IsTarget "a" := by decide
  have hfirst : Text.ofString "a" ∉ statementWords := by decide
  have hblank : ∀ c ∈ Text.ofString " ", c.isBlank = true := by decide
  have hsum : Token.scan " b + 1" = .ok
      [⟨.name, "b", 1, 2⟩, ⟨.operator, "+", 3, 4⟩, ⟨.number, "1", 5, 6⟩] :=
    Token.scan_eq_ok (by decide +kernel)
  have hdigits := Token.short_of_single
    (show ∀ token ∈ ([⟨.name, "b", 1, 2⟩, ⟨.operator, "+", 3, 4⟩, ⟨.number, "1", 5, 6⟩] : List Token),
      token.text.length ≤ 1 by decide)
  have htrimmed : Token.scan (Text.trim " b + 1") = .ok
      [⟨.name, "b", 0, 1⟩, ⟨.operator, "+", 2, 3⟩, ⟨.number, "1", 4, 5⟩] :=
    Token.scan_eq_ok (by decide +kernel)
  have hlacks : LacksRoom 6 "a" .mul " b + 1" := ⟨by decide, Expr.parse_augmented_zero hx htrimmed .mul⟩
  have hdeep := (augmented_assigns .standard 6 hx hfirst (show BinaryOp.mul ≠ .pow by decide)
    (List.forall_mem_nil _) hblank hsum).1 hlacks
  have hproduct := (((augmented_assigns .standard 959 hx hfirst (show BinaryOp.mul ≠ .pow by decide)
    (List.forall_mem_nil _) hblank hsum).2
      (not_lacksRoom hx hsum (by decide))).1 hdigits).1 (.inl (by decide +kernel))
  have hclosing := Token.short_of_single (show ∀ token ∈ Token.closing, token.text.length ≤ 1 by decide)
  have hrefused := (((augmented_assigns .standard 959 hx hfirst (show BinaryOp.add ≠ .pow by decide)
    (List.forall_mem_nil _) hblank Token.scan_closing).2
      (not_lacksRoom hx Token.scan_closing (by decide))).1 hclosing).2 (by decide +kernel)
  have hline : ([] : Text) ++ ("a" ++ (" " ++ (BinaryOp.mul.assigner ++ " b + 1"))) = "a *= b + 1" := by
    decide
  rw [hline] at hdeep hproduct
  obtain ⟨number, hnumber⟩ := Derives.number (List.replicate 4301 (CodePoint.ofChar '1'))
  have htree := (derives_operands_iff (show BinaryOp.mul ≠ .pow by decide) hx.notKeyword hnumber.opensFirst
    (List.cons_ne_nil _ _)).mpr ⟨number, hnumber, rfl⟩
  have hlong := (((augmented_assigns .standard 959 hx hfirst (show BinaryOp.mul ≠ .pow by decide)
    (List.forall_mem_nil _) hblank Token.scan_ones).2
      (not_lacksRoom hx Token.scan_ones (by decide))).2 Token.ones_long).2.2 ⟨_, htree⟩
  exact ⟨hdeep, hproduct, by decide +kernel, hrefused.1, hlong⟩

/-- A right side that ends the parentheses that it is put in and begins new ones is no expression, but it
is taken for one. -/
theorem not_augmented_assigns :
    ¬ ∀ (limits : Limits) (levels : Nat) (x lead pad r : Text) (op : BinaryOp) (tokens : List Token),
      IsTarget x → x ∉ statementWords → op ≠ .pow → (∀ c ∈ lead, c.isBlank = true) →
      (∀ c ∈ pad, c.isBlank = true) → Token.scan r = .ok tokens →
      (∀ token ∈ tokens, token.IsInteger → token.text.length ≤ NumberText.maxDigits) →
      ¬ LacksRoom levels x op r →
      TakesOneExpression limits levels x op r (lead ++ (x ++ (pad ++ (op.assigner ++ r)))) := by
  intro hclaim
  have hnone : ∀ n tree, Expr.parse n " 1) + (2" ≠ .ok tree := by
    intro n tree hparse
    obtain ⟨found, hfound, us, hclosed, -⟩ := Expr.assigns_nothing_of_parse hparse
    obtain rfl : Token.closing = found := Except.ok.inj (Token.scan_closing.symm.trans hfound)
    have hcloses : Word.outside 0 (Token.closing.map Token.word) = none := by decide +kernel
    rw [Closed, hcloses] at hclosed
    cases hclosed
  have hdigits := Token.short_of_single (show ∀ token ∈ Token.closing, token.text.length ≤ 1 by decide)
  have hline := hclaim .standard 959 "a" [] " " " 1) + (2" .add Token.closing (by decide) (by decide)
    (by decide) (by decide) (by decide) Token.scan_closing hdigits
    (not_lacksRoom (by decide) Token.scan_closing (by decide))
  obtain ⟨e, hfails, -⟩ := hline.2 hnone .ofPair
  have hvalue : Ending.hasPair 4 2 (sequence .standard (room .standard 959)
      [([] : Text) ++ ("a" ++ (" " ++ (BinaryOp.add.assigner ++ " 1) + (2")))] .ofPair) = true := by
    decide +kernel
  rw [hfails] at hvalue
  cases hvalue

end Scriptlet
