import Scriptlet.Proofs.Spans.Standing

/-
  The parser gives what it reads the spans where it stands: operators and operands.

  A rule finds phrases of a level when it gives only what such phrases mean at the places where they
  stand. The rules for chains, comparisons, signs and powers do, if the rules that they use do.
-/

namespace Scriptlet

namespace Parse

/-- What is given is what a phrase of the symbol means that stands from `i` to `j`. -/
def Places (tokens : List Token) (s : Symbol) (i j : Nat) (m : s.Meaning) : Prop :=
  ∃ p : Phrase s, Stands tokens i p.words ∧ j = i + p.count ∧ m = p.located (spanAt tokens) i i

/-- The parser gives only what phrases of the level mean where they stand. -/
def Finds (tokens : List Token) (l : Level) (parser : Parse Expr) : Prop :=
  ∀ i, Yields tokens parser i (Places tokens (.level l) i)

variable {tokens : List Token} {i j : Nat}

theorem Fills.places {s : Symbol} {p : Phrase s} (h : Fills tokens i j p.words) :
    Places tokens s i j (p.located (spanAt tokens) i i) := ⟨p, h.stands, h.stop, rfl⟩

/-! ## Chains -/

section Chain

variable {α : Type} {t : Tier} {operator : Parse (Option α)} {operand : Parse Expr}
  {build : Span → α → Expr → Expr → Expr} {joint : α → Joint}

/-- The parser gives only operators of the tier. -/
def FindsOperators (tokens : List Token) (t : Tier) (joint : α → Joint)
    (operator : Parse (Option α)) : Prop :=
  ∀ i, Yields tokens operator i fun j op => (op = none ∧ j = i) ∨
    ∃ op', op = some op' ∧ (joint op').tier = some t ∧ IsAt tokens i (joint op').word ∧ j = i + 1

theorem leftChain_yields (hoperator : FindsOperators tokens t joint operator)
    (hoperand : Finds tokens t.operand operand)
    (hbuild : ∀ span op, build span op = (joint op).build span) (origin steps : Nat) (left : Expr) :
    Yields tokens (leftChain operator operand build (place (behind tokens origin)) steps left) i
      fun j e => ∃ rest : Phrase (.tail t), Fills tokens i j rest.words ∧
        e = rest.located (spanAt tokens) origin i left := by
  induction steps generalizing i left with
  | zero => exact .pure ⟨.tailEnd, .nil, rfl⟩
  | succ steps ih =>
    refine (hoperator i).bind fun j op hop => ?_
    rcases hop with ⟨rfl, rfl⟩ | ⟨op, rfl, htier, hat, rfl⟩
    · exact .pure ⟨.tailEnd, .nil, rfl⟩
    · refine (hoperand (i + 1)).bind fun j right hright => ?_
      obtain ⟨e, he, rfl, rfl⟩ := hright
      refine .spanFrom ((ih _).mono fun j whole hwhole => ?_)
      obtain ⟨rest, hrest, rfl⟩ := hwhole
      refine ⟨.tailMore (joint op) htier e rest, .cons hat (he.fills.append hrest), ?_⟩
      rw [hbuild]
      rfl

theorem chain_finds (hoperator : FindsOperators tokens t joint operator)
    (hoperand : Finds tokens t.operand operand)
    (hbuild : ∀ span op, build span op = (joint op).build span) :
    Finds tokens (.chain t) (chain operator operand build) := by
  intro i
  refine .position ((hoperand i).bind fun j first hfirst => .get ?_)
  obtain ⟨e, he, rfl, rfl⟩ := hfirst
  refine (leftChain_yields hoperator hoperand hbuild i _ _).mono fun j whole hwhole => ?_
  obtain ⟨rest, hrest, rfl⟩ := hwhole
  exact Fills.places (p := .chain e rest) (he.fills.append hrest)

end Chain

/-! ## Operators -/

section Operators

variable {t : Tier} (hfits : Fitting tokens)

include hfits

theorem word_finds {text : Text} {op : BoolOp} (htext : (Joint.boolean op).word = .of text)
    (htier : (Joint.boolean op).tier = some t) :
    FindsOperators tokens t Joint.boolean (word text op) := by
  refine fun i => (Yields.accept hfits).bind fun j b hb => ?_
  rcases hb with ⟨rfl, hat, rfl⟩ | ⟨rfl, -, rfl⟩
  · exact .pure (.inr ⟨op, rfl, htier, htext ▸ hat, rfl⟩)
  · exact .pure (.inl ⟨rfl, rfl⟩)

theorem acceptOperator_finds {table : List (Text × BinaryOp)} (htable : IsTable t table) :
    FindsOperators tokens t Joint.binary (acceptOperator table) := by
  refine fun i =>
    (Yields.acceptOperator hfits fun entry hentry => (htable entry hentry).1).mono fun j op hop => ?_
  rcases hop with hnone | ⟨entry, hentry, rfl, hat, rfl⟩
  · exact .inl hnone
  · obtain ⟨-, htext, htier⟩ := htable entry hentry
    rw [htext] at hat
    exact .inr ⟨entry.2, rfl, htier, hat, rfl⟩

theorem compareOperator_yields : Yields tokens compareOperator i fun j op => (op = none ∧ j = i) ∨
    ∃ op', op = some op' ∧ Fills tokens i j op'.words := by
  refine (Yields.acceptOperator hfits fun entry hentry => (of_mem_orderOperators hentry).1).bind
    fun j op hop => ?_
  rcases hop with ⟨rfl, rfl⟩ | ⟨entry, hentry, rfl, hat, rfl⟩
  · refine .ite_accept hfits (fun hin => .pure (.inr ⟨.isIn, rfl, .single hin⟩)) fun _ => ?_
    obtain ⟨first, hfirst, hnot⟩ := at?_behind hfits j "not"
    obtain ⟨second, hsecond, hin⟩ := secondIs_behind hfits j "in"
    refine .look hfirst (.look hsecond ?_)
    split
    · rename_i hboth
      rw [Bool.and_eq_true, hnot, hin] at hboth
      exact .advance hboth.1.lt (.advance hboth.2.lt
        (.pure (.inr ⟨.notIn, rfl, .cons hboth.1 (.single hboth.2)⟩)))
    · refine .ite_accept hfits (fun his => ?_) fun _ => .pure (.inl ⟨rfl, rfl⟩)
      exact .ite_accept hfits
        (fun hnot => .pure (.inr ⟨.isNotSame, rfl, .cons his (.single hnot)⟩))
        fun _ => .pure (.inr ⟨.isSame, rfl, .single his⟩)
  · obtain ⟨-, hwords, -⟩ := of_mem_orderOperators hentry
    exact .pure (.inr ⟨entry.2, rfl, by rw [hwords]; exact .single hat⟩)

/-! ## Comparisons, signs and powers -/

theorem comparisons_yields {operand : Parse Expr} (hoperand : Finds tokens (.chain .sum) operand)
    (steps : Nat) (done : List (CompareOp × Expr)) :
    Yields tokens (comparisons operand steps done) i fun j all => ∃ rest : Phrase .comparisons,
      Fills tokens i j rest.words ∧ all = done.reverse ++ rest.located (spanAt tokens) i i := by
  induction steps generalizing i done with
  | zero => exact .pure ⟨.comparisonsEnd, .nil, (List.append_nil _).symm⟩
  | succ steps ih =>
    refine (compareOperator_yields hfits).bind fun j op hop => ?_
    rcases hop with ⟨rfl, rfl⟩ | ⟨op, rfl, hop, rfl⟩
    · exact .pure ⟨.comparisonsEnd, .nil, (List.append_nil _).symm⟩
    · refine (hoperand _).bind fun j right hright => ?_
      obtain ⟨e, he, rfl, rfl⟩ := hright
      refine (ih _).mono fun j all hall => ?_
      obtain ⟨rest, hrest, rfl⟩ := hall
      refine ⟨.comparisonsMore op e rest, hop.fills.append (he.fills.append hrest), ?_⟩
      rw [List.reverse_cons, List.append_assoc]
      rfl

theorem comparison_finds {room : Nat} (hsum : Finds tokens (.chain .sum) (sum room)) :
    Finds tokens .comparison (comparison (room + 1)) := by
  intro i
  refine .position ((hsum i).bind fun j first hfirst => .get ?_)
  obtain ⟨e, he, rfl, rfl⟩ := hfirst
  refine (comparisons_yields hfits hsum _ _).bind fun j all hall => ?_
  obtain ⟨rest, ⟨hrest, rfl⟩, rfl⟩ := hall
  have hplaces := Fills.places (p := .comparison e rest) (he.fills.append hrest.fills)
  simp only [Phrase.located] at hplaces
  cases hoperands : rest.located (spanAt tokens) (i + e.count) (i + e.count) with
  | nil =>
    -- Without operands the rule gives what it has read first, with the span of that.
    rw [hoperands] at hplaces
    exact .pure hplaces
  | cons operand operands =>
    rw [hoperands] at hplaces
    exact .spanFrom (.pure hplaces)

theorem negation_finds {room : Nat} (hself : Finds tokens .negation (negation room))
    (hcomparison : Finds tokens .comparison (comparison room)) :
    Finds tokens .negation (negation (room + 1)) := by
  intro i
  refine .position (.ite_accept hfits (fun hat => ?_) fun _ => ?_)
  · refine (hself _).bind fun j operand hoperand => .spanFrom (.pure ?_)
    obtain ⟨e, he, rfl, rfl⟩ := hoperand
    exact Fills.places (p := .not e) (.cons hat he.fills)
  · refine (hcomparison i).mono fun j operand hoperand => ?_
    obtain ⟨e, he, rfl, rfl⟩ := hoperand
    exact ⟨.compared e, he, rfl, rfl⟩

theorem factor_finds {room : Nat} (hself : Finds tokens .factor (factor room))
    (hpower : Finds tokens .power (power room)) : Finds tokens .factor (factor (room + 1)) := by
  intro i
  have htable : ∀ entry ∈ signOperators, entry.1 ∈ Token.operators ∧
      entry.1 = .ofString entry.2.symbol ∧ entry.2 ≠ .not := by
    intro entry hentry
    simp only [signOperators, List.mem_cons, List.not_mem_nil, or_false] at hentry
    rcases hentry with rfl | rfl <;>
      exact ⟨by simp [Token.operators], by simp [UnaryOp.symbol], by decide⟩
  refine .position ((Yields.acceptOperator hfits fun entry hentry => (htable entry hentry).1).bind
    fun j op hop => ?_)
  rcases hop with ⟨rfl, rfl⟩ | ⟨entry, hentry, rfl, hat, rfl⟩
  · refine (hpower j).mono fun j operand hoperand => ?_
    obtain ⟨e, he, rfl, rfl⟩ := hoperand
    exact ⟨.unsigned e, he, rfl, rfl⟩
  · obtain ⟨-, htext, hne⟩ := htable entry hentry
    refine (hself _).bind fun j operand hoperand => .spanFrom (.pure ?_)
    obtain ⟨e, he, rfl, rfl⟩ := hoperand
    exact Fills.places (p := .signed entry.2 hne e) (.cons (htext ▸ hat) he.fills)

theorem power_finds {room : Nat} (hprimary : Finds tokens .primary (primary room))
    (hfactor : Finds tokens .factor (factor room)) : Finds tokens .power (power (room + 1)) := by
  intro i
  refine .position ((hprimary i).bind fun j base hbase => ?_)
  obtain ⟨e, he, rfl, rfl⟩ := hbase
  refine .ite_accept hfits (fun hat => ?_) fun _ => .pure ⟨.base e, he, rfl, rfl⟩
  refine (hfactor _).bind fun j exponent hexponent => .spanFrom (.pure ?_)
  obtain ⟨x, hx, rfl, rfl⟩ := hexponent
  exact Fills.places (p := .power e x) (he.fills.append_cons hat hx.fills)

end Operators

end Parse

end Scriptlet
