import Scriptlet.Proofs.Parse.Whole
import Scriptlet.Proofs.Printing.Scanning

/-
  Names with commas between them, in little room.

  Each rule of the grammar takes a bit of room from the rules it uses, and a name by itself goes through
  all ten of them. Between commas each name begins anew, so ten are enough for any number of names; and
  with less than ten nothing is parsed at all.

  What is proved:
    1. `expression_name` — a name in front of a comma or at the end is read in room for ten rules.
    2. `expressionList_names` — so is a list of names.
    3. `le_of_parseWhole` — with less room there is no expression.
-/

namespace Scriptlet

theorem Word.isLexed_operator {text : Text} (h : text ∈ Token.operators) : (Word.of text).IsLexed := by
  rw [of_operator h]
  exact ⟨fun _ => h, fun hkind => (by cases hkind), fun hkind => (by cases hkind)⟩

theorem Word.isLexed_name {name : Text} (h : name.isIdentifier = true) : (⟨.name, name⟩ : Word).IsLexed := by
  cases name with
  | nil => cases h
  | cons c rest =>
    rw [Text.isIdentifier, Bool.and_eq_true] at h
    exact ⟨fun hkind => (by cases hkind), fun _ => Token.not_mem_operators h.1 rest,
      fun hkind => (by cases hkind)⟩

/-- The words of names, each with a comma in front of it. -/
def Word.behindCommas (names : List Text) : List Word := names.flatMap fun name => [.of ",", ⟨.name, name⟩]

/-- The words of names with commas between them. -/
def Word.row (first : Text) (others : List Text) : List Word := ⟨.name, first⟩ :: behindCommas others

namespace Parse

variable {c : Cursor} {ws : List Word} {e : Expr} {name : Text}

/-! ## In front of a comma -/

/-- What is left begins with a comma, or nothing is left. -/
structure AtComma (c : Cursor) : Prop where
  lexed : Lexed c.words
  comma : ∀ w ∈ c.words.head?, w = .of ","

namespace AtComma

theorem accept (h : AtComma c) (text : Text) (hne : text ≠ ",") : accept text c = .ok (false, c) := by
  rcases accept_cases h.lexed text with ⟨c', -, hwords⟩ | ⟨haccept, -⟩
  · exact absurd (Word.of_inj.mp (h.comma (.of text) (by rw [hwords]; rfl))) hne
  · exact haccept

theorem acceptOperator {α : Type} (h : AtComma c) {table : List (Text × α)}
    (htable : ∀ entry ∈ table, entry.1 ∈ Token.operators ∧ entry.1 ≠ ",") :
    acceptOperator table c = .ok (none, c) := by
  rcases acceptOperator_cases h.lexed (fun entry hentry => (htable entry hentry).1) with
    ⟨entry, hentry, c', -, hwords⟩ | ⟨haccept, -⟩
  · exact absurd (Word.of_inj.mp (h.comma (.of entry.1) (by rw [hwords]; rfl))) (htable entry hentry).2
  · exact haccept

theorem compareOperator (h : AtComma c) : compareOperator c = .ok (none, c) := by
  rcases compareOperator_cases h.lexed with ⟨op, c', -, hwords, -⟩ | ⟨hnone, -⟩
  · cases op <;> exact absurd (h.comma _ (by rw [hwords]; rfl)) (by simp)
  · exact hnone

/-- A chain goes no further. -/
theorem chain {α : Type} {operator : Parse (Option α)} {operand : Parse Expr}
    {build : Span → α → Expr → Expr → Expr} {c' : Cursor} (hoperand : operand c' = .ok (e, c))
    (hoperator : operator c = .ok (none, c)) : chain operator operand build c' = .ok (e, c) := by
  simp only [Parse.chain, bind_apply, position_apply, hoperand, get_apply]
  cases c.rest.length with
  | zero => rfl
  | succ steps => simp only [leftChain, bind_apply, hoperator, pure_apply]

theorem word (h : AtComma c) {text : Text} (op : BoolOp) (hne : text ≠ ",") :
    word text op c = .ok (none, c) := by
  simp only [Parse.word, bind_apply, h.accept text hne, pure_apply, Bool.false_eq_true, if_false]

theorem suffixes (h : AtComma c) (item : Parse Expr) (start steps : Nat) (e : Expr) :
    suffixes item start steps e c = .ok (e, c) := by
  cases steps with
  | zero => rfl
  | succ steps =>
    simp only [Parse.suffixes, bind_apply, h.accept "(" (by decide),
      h.accept "." (by decide), h.accept "[" (by decide), Bool.false_eq_true,
      if_false, pure_apply]

theorem comparisons (h : AtComma c) (operand : Parse Expr) (steps : Nat) :
    comparisons operand steps [] c = .ok ([], c) := by
  cases steps with
  | zero => rfl
  | succ steps => simp only [Parse.comparisons, bind_apply, h.compareOperator, pure_apply]; rfl

end AtComma

/-! ## A name -/

theorem atom_name (hc : c.words = ⟨.name, name⟩ :: ws) (hname : name ∉ Token.keywords)
    (item : Parse Expr) : ∃ span c', atom item c = .ok (.name span name, c') ∧ c'.words = ws := by
  obtain ⟨rest, lastStop⟩ := c
  cases rest with
  | nil => cases hc
  | cons token rest =>
    obtain ⟨hword, hrest⟩ := List.cons.inj hc
    obtain ⟨hkind, rfl⟩ := Word.mk.inj hword
    have hconstant : constant? token.text = none := by
      cases hvalue : constant? token.text with
      | none => rfl
      | some value => exact absurd (Phrase.mem_keywords_of_constant? hvalue) hname
    have hpass : advance ⟨token :: rest, lastStop⟩ = .ok ((), ⟨rest, token.stop⟩) := rfl
    refine ⟨⟨token.start, token.stop⟩, ⟨rest, token.stop⟩, ?_, hrest⟩
    simp only [atom, bind_apply, position_apply, peek_apply, List.head?_cons, hkind, hconstant,
      List.contains_eq_mem, hname, decide_false, Bool.false_eq_true, if_false, hpass, spanFrom_apply,
      pure_apply]
    rfl

/-- A name is read through all rules, if a comma or nothing follows. -/
theorem expression_name (hlexed : Lexed c.words) (hc : c.words = ⟨.name, name⟩ :: ws)
    (hname : name ∉ Token.keywords) (hws : ∀ w ∈ ws.head?, w = .of ",") (room : Nat) :
    ∃ span c', expression (room + 10) c = .ok (.name span name, c') ∧ c'.words = ws := by
  obtain ⟨span, c', hatom, rfl⟩ := atom_name hc hname (expression room)
  refine ⟨span, c', ?_, rfl⟩
  have hcomma : AtComma c' := ⟨(hc ▸ hlexed).tail, hws⟩
  have hnot : accept "not" c = .ok (false, c) := by
    rcases accept_cases hlexed "not" with ⟨c₁, -, hwords⟩ | ⟨haccept, -⟩
    · rw [hc, Word.of_name (by decide)] at hwords
      obtain ⟨hhead, -⟩ := List.cons.inj hwords
      obtain rfl : name = Text.ofString "not" := congrArg Word.text hhead
      exact absurd (by decide) hname
    · exact haccept
  have hsign : acceptOperator signOperators c = .ok (none, c) := by
    rcases acceptSign_cases hlexed with ⟨op, c₁, hop, -, hwords⟩ | ⟨haccept, -⟩
    · have hoperator : Text.ofString op.symbol ∈ Token.operators := by
        cases op with
        | not => exact absurd rfl hop
        | negative | positive => simp [UnaryOp.symbol, Token.operators]
      rw [hc, Word.of_operator hoperator] at hwords
      cases (List.cons.inj hwords).1
    · exact haccept
  have hprimary : primary (room + 1) c = .ok (.name span name, c') := by
    simp only [primary, bind_apply, position_apply, hatom, get_apply, hcomma.suffixes]
  have hpower : power (room + 2) c = .ok (.name span name, c') := by
    simp only [power, bind_apply, position_apply, hprimary, hcomma.accept "**" (by decide),
      Bool.false_eq_true, if_false, pure_apply]
  have hfactor : factor (room + 3) c = .ok (.name span name, c') := by
    simp only [factor, bind_apply, position_apply, hsign, hpower]
  have hproduct : product (room + 4) c = .ok (.name span name, c') :=
    AtComma.chain hfactor (hcomma.acceptOperator (by decide))
  have hsum : sum (room + 5) c = .ok (.name span name, c') :=
    AtComma.chain hproduct (hcomma.acceptOperator (by decide))
  have hcomparison : comparison (room + 6) c = .ok (.name span name, c') := by
    simp only [comparison, bind_apply, position_apply, hsum, get_apply, hcomma.comparisons,
      List.isEmpty_nil, if_true, pure_apply]
  have hnegation : negation (room + 7) c = .ok (.name span name, c') := by
    simp only [negation, bind_apply, position_apply, hnot, Bool.false_eq_true, if_false, hcomparison]
  have hconjunction : conjunction (room + 8) c = .ok (.name span name, c') :=
    AtComma.chain hnegation (hcomma.word .and (by decide))
  have hdisjunction : disjunction (room + 9) c = .ok (.name span name, c') :=
    AtComma.chain hconjunction (hcomma.word .or (by decide))
  exact hdisjunction

/-! ## Names with commas -/

/-- The expressions are these names. -/
abbrev AreNames (es : List Expr) (names : List Text) : Prop :=
  List.Forall₂ (fun e name => ∃ span, e = .name span name) es names

theorem head_behindCommas (names : List Text) : ∀ w ∈ (Word.behindCommas names).head?, w = .of "," := by
  cases names with
  | nil => exact fun w hw => nomatch hw
  | cons name names => exact fun w hw => (Option.some.inj hw).symm

theorem lexed_behindCommas {others : List Text} (hothers : ∀ name ∈ others, name.isIdentifier = true) :
    Lexed (Word.behindCommas others) := by
  intro w hw
  obtain ⟨name, hname, hw⟩ := List.mem_flatMap.mp hw
  rw [List.mem_cons, List.mem_singleton] at hw
  rcases hw with rfl | rfl
  · exact Word.isLexed_operator (by decide)
  · exact Word.isLexed_name (hothers _ hname)

theorem listTail_names {others : List Text} (hid : ∀ name ∈ others, name.isIdentifier = true)
    (hkeyword : ∀ name ∈ others, name ∉ Token.keywords) (room steps : Nat) (done : List Expr)
    (hc : c.words = Word.behindCommas others)
    (hsteps : others.length ≤ steps) :
    ∃ es c', listTail (expression (room + 10)) steps done c = .ok (done.reverse ++ es, c') ∧
      c'.words = [] ∧ AreNames es others := by
  induction others generalizing c steps done with
  | nil =>
    refine ⟨[], c, ?_, hc, .nil⟩
    have hcomma : accept "," c = .ok (false, c) := by
      rcases accept_cases (c := c) (by rw [hc]; exact fun w hw => nomatch hw) "," with
        ⟨c', -, hwords⟩ | ⟨haccept, -⟩
      · rw [hc] at hwords
        cases hwords
      · exact haccept
    cases steps with
    | zero => simp only [listTail, pure_apply, List.append_nil]
    | succ steps =>
      simp only [listTail, bind_apply, hcomma, Bool.false_eq_true, if_false, pure_apply, List.append_nil]
  | cons name others ih =>
    obtain ⟨hname, hrest⟩ := List.forall_mem_cons.mp hkeyword
    have hlexed := lexed_behindCommas hid
    rw [← hc] at hlexed
    obtain ⟨steps, rfl⟩ : ∃ k, steps = k + 1 := ⟨steps - 1, by rw [List.length_cons] at hsteps; omega⟩
    have hwords : c.words = .of "," :: ⟨.name, name⟩ ::
        others.flatMap fun name => [.of ",", ⟨.name, name⟩] := hc
    obtain ⟨c₁, haccept, hc₁⟩ : ∃ c₁, accept "," c = .ok (true, c₁) ∧
        c₁.words = ⟨.name, name⟩ :: others.flatMap fun name => [.of ",", ⟨.name, name⟩] := by
      rcases accept_cases hlexed "," with ⟨c₁, haccept, hsplit⟩ | ⟨-, hno⟩
      · exact ⟨c₁, haccept, (List.cons.inj (hsplit.symm.trans hwords)).2⟩
      · exact absurd (congrArg List.head? hwords) hno
    have hstarts : startsExpression c₁ = .ok (true, c₁) := by
      rcases startsExpression_cases c₁ with ⟨hstarts, -⟩ | ⟨-, hnone⟩
      · exact hstarts
      · cases (hnone _ (by rw [hc₁]; rfl)).1
    obtain ⟨span, c₂, hitem, hc₂⟩ :=
      expression_name (hc₁ ▸ (hwords ▸ hlexed).tail) hc₁ hname (head_behindCommas others) room
    obtain ⟨es, c₃, htail, hnil, hnames⟩ := ih (fun n hn => hid n (List.mem_cons_of_mem _ hn)) hrest steps
      (.name span name :: done) hc₂ (Nat.le_of_succ_le_succ hsteps)
    refine ⟨.name span name :: es, c₃, ?_, hnil, .cons ⟨span, rfl⟩ hnames⟩
    simp only [listTail, bind_apply, haccept, if_true, hstarts, hitem, htail, List.reverse_cons,
      List.append_assoc]
    rfl

/-- A name by itself is read as the name. -/
theorem expressionList_name (hid : name.isIdentifier = true) (hkeyword : name ∉ Token.keywords)
    (room : Nat) (hc : c.words = [⟨.name, name⟩]) :
    ∃ span c', expressionList (expression (room + 10)) c = .ok (.name span name, c') ∧ c'.words = [] := by
  have hlexed : Lexed c.words := by
    rw [hc]
    exact List.forall_mem_singleton.mpr (Word.isLexed_name hid)
  obtain ⟨span, c', hfirst, hc'⟩ :=
    expression_name hlexed hc hkeyword (fun w hw => absurd hw (by simp)) room
  have hlexed' : Lexed c'.words := hc' ▸ fun w hw => absurd hw (by simp)
  refine ⟨span, c', ?_, hc'⟩
  simp only [expressionList, bind_apply, position_apply, hfirst, at?_apply hlexed', hc', List.head?_nil,
    reduceCtorEq, decide_false, Bool.false_eq_true, if_false, pure_apply]

/-- Names with commas between them are read as a tuple. -/
theorem expressionList_names {first second : Text} {others : List Text}
    (hid : ∀ name ∈ first :: second :: others, name.isIdentifier = true)
    (hkeyword : ∀ name ∈ first :: second :: others, name ∉ Token.keywords) (room : Nat)
    (hc : c.words = Word.row first (second :: others)) :
    ∃ span es c', expressionList (expression (room + 10)) c = .ok (.tuple span es, c') ∧
      c'.words = [] ∧ AreNames es (first :: second :: others) := by
  have hlexed : Lexed c.words := by
    have hall := lexed_behindCommas hid
    rw [hc]
    exact hall.tail
  obtain ⟨span, c₁, hfirst, hc₁⟩ :=
    expression_name hlexed hc (hkeyword first List.mem_cons_self) (head_behindCommas _) room
  have hlexed₁ : Lexed c₁.words := hc₁ ▸ (hc ▸ hlexed).tail
  have hcomma : c₁.words.head? = some (.of ",") := congrArg List.head? hc₁
  have hsteps : (second :: others).length ≤ c₁.rest.length := by
    have hwords : ∀ names : List Text, names.length ≤ (Word.behindCommas names).length := by
      intro names
      have htwo : (Word.behindCommas names).length = names.length * 2 := by
        simp [Word.behindCommas, List.length_flatMap]
      omega
    rw [← c₁.length_words, hc₁]
    exact hwords _
  obtain ⟨es, c₂, htail, hnil, hnames⟩ := listTail_names (fun n hn => hid n (List.mem_cons_of_mem _ hn))
    (fun n hn => hkeyword n (List.mem_cons_of_mem _ hn)) room c₁.rest.length [.name span first] hc₁ hsteps
  refine ⟨⟨place c, c₂.lastStop⟩, .name span first :: es, c₂, ?_, hnil, .cons ⟨span, rfl⟩ hnames⟩
  simp only [expressionList, bind_apply, position_apply, hfirst, at?_apply hlexed₁, hcomma, decide_true,
    if_true, get_apply, htail, spanFrom_apply, pure_apply]
  rfl

/-! ## Less room -/

/-- The parser gives nothing. -/
def Never (p : Parse Expr) : Prop := ∀ c result, p c ≠ .ok result

theorem Never.bind {α : Type} {p : Parse Expr} (h : Never p) (f : Expr → Parse α) (c : Cursor)
    (result : α × Cursor) : (p >>= f) c ≠ .ok result := by
  rw [bind_apply]
  cases hp : p c with
  | ok found => exact absurd hp (h c found)
  | error fault => exact nofun

theorem Never.behind {α : Type} {first : Parse α} {f : α → Parse Expr} (h : ∀ a, Never (f a)) :
    Never (first >>= f) := by
  intro c result
  rw [bind_apply]
  cases first c with
  | ok found => exact h found.1 found.2 result
  | error fault => exact nofun

theorem Never.chain {α : Type} {operator : Parse (Option α)} {operand : Parse Expr}
    {build : Span → α → Expr → Expr → Expr} (h : Never operand) : Never (chain operator operand build) :=
  .behind fun _ => h.bind _

/-- Each rule needs the room that is left for the rules it uses, and one more. -/
theorem never_expression {room : Nat} (h : room < 10) : Never (expression room) := by
  have hthrow : Never (throw .tooDeep) := fun _ _ => nofun
  have hprimary : ∀ k < 1, Never (primary k) := by
    intro k hk
    obtain rfl : k = 0 := by omega
    exact hthrow
  have hpower : ∀ k < 2, Never (power k) := by
    rintro (_ | k) hk
    · exact hthrow
    · exact .behind fun _ => (hprimary k (by omega)).bind _
  have hfactor : ∀ k < 3, Never (factor k) := by
    intro k hk
    induction k with
    | zero => exact hthrow
    | succ k ih =>
      refine .behind fun start => .behind fun op => ?_
      cases op with
      | some op => exact (ih (by omega)).bind _
      | none => exact hpower k (by omega)
  have hproduct : ∀ k < 4, Never (product k) := by
    rintro (_ | k) hk
    · exact hthrow
    · exact (hfactor k (by omega)).chain
  have hsum : ∀ k < 5, Never (sum k) := by
    rintro (_ | k) hk
    · exact hthrow
    · exact (hproduct k (by omega)).chain
  have hcomparison : ∀ k < 6, Never (comparison k) := by
    rintro (_ | k) hk
    · exact hthrow
    · exact .behind fun _ => (hsum k (by omega)).bind _
  have hnegation : ∀ k < 7, Never (negation k) := by
    intro k hk
    induction k with
    | zero => exact hthrow
    | succ k ih =>
      refine .behind fun start => .behind fun found => ?_
      cases found with
      | true => exact (ih (by omega)).bind _
      | false => exact hcomparison k (by omega)
  have hconjunction : ∀ k < 8, Never (conjunction k) := by
    rintro (_ | k) hk
    · exact hthrow
    · exact (hnegation k (by omega)).chain
  have hdisjunction : ∀ k < 9, Never (disjunction k) := by
    rintro (_ | k) hk
    · exact hthrow
    · exact (hconjunction k (by omega)).chain
  cases room with
  | zero => exact hthrow
  | succ room => exact hdisjunction room (by omega)

end Parse

namespace Expr

/-- What is parsed has had room for all rules. -/
theorem le_of_parseWhole {room : Nat} {text : Text} {e : Expr} (h : parseWhole room text = .ok e) :
    10 ≤ room := by
  by_contra hroom
  have hnever := Parse.never_expression (show room < 10 by omega)
  unfold parseWhole at h
  split at h
  · cases h
  · cases h
  · rename_i tokens hscan _
    cases hlist : (Parse.expressionList (Parse.expression room)).run ⟨tokens, 0⟩ with
    | error fault =>
      rw [hlist] at h
      cases h
    | ok result =>
      have hfails : Parse.Never (Parse.expressionList (Parse.expression room)) :=
        .behind fun _ => hnever.bind _
      exact absurd hlist (hfails _ result)

/-- A text of which nothing is left is parsed to what has been read. -/
theorem parseWhole_of_expressionList {room : Nat} {text : Text} {tokens : List Token} {e : Expr}
    {c : Cursor} (hscan : Token.scan text = .ok tokens) (hne : tokens ≠ [])
    (hlist : Parse.expressionList (Parse.expression room) ⟨tokens, 0⟩ = .ok (e, c)) (hc : c.words = []) :
    parseWhole room text = .ok e := by
  obtain ⟨rest, lastStop⟩ := c
  obtain rfl : rest = [] := List.map_eq_nil_iff.mp hc
  rw [parseWhole, hscan]
  cases tokens with
  | nil => exact absurd rfl hne
  | cons token tokens =>
    dsimp only [StateT.run]
    rw [hlist]

/-- A name is parsed in room for all rules. -/
theorem parseWhole_name {text name : Text} {tokens : List Token} (hscan : Token.scan text = .ok tokens)
    (hwords : tokens.map Token.word = [⟨.name, name⟩]) (hid : name.isIdentifier = true)
    (hkeyword : name ∉ Token.keywords) {room : Nat} (hroom : 10 ≤ room) :
    ∃ span, parseWhole room text = .ok (.name span name) := by
  obtain ⟨k, rfl⟩ : ∃ k, room = k + 10 := ⟨room - 10, by omega⟩
  obtain ⟨span, c, hlist, hc⟩ := Parse.expressionList_name (c := ⟨tokens, 0⟩) hid hkeyword k hwords
  refine ⟨span, parseWhole_of_expressionList hscan ?_ hlist hc⟩
  rintro rfl
  cases hwords

/-- Names with commas between them are parsed in room for one name. -/
theorem parseWhole_names {text first second : Text} {others : List Text} {tokens : List Token}
    (hscan : Token.scan text = .ok tokens)
    (hwords : tokens.map Token.word = Word.row first (second :: others))
    (hid : ∀ name ∈ first :: second :: others, name.isIdentifier = true)
    (hkeyword : ∀ name ∈ first :: second :: others, name ∉ Token.keywords) {room : Nat}
    (hroom : 10 ≤ room) :
    ∃ span es, parseWhole room text = .ok (.tuple span es) ∧
      Parse.AreNames es (first :: second :: others) := by
  obtain ⟨k, rfl⟩ : ∃ k, room = k + 10 := ⟨room - 10, by omega⟩
  obtain ⟨span, es, c, hlist, hc, hnames⟩ :=
    Parse.expressionList_names (c := ⟨tokens, 0⟩) hid hkeyword k hwords
  refine ⟨span, es, parseWhole_of_expressionList hscan ?_ hlist hc, hnames⟩
  rintro rfl
  cases hwords

end Expr

end Scriptlet
