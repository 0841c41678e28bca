import Scriptlet.Proofs.Spans.Brackets

/-
  The parser gives what it reads the spans where it stands: atoms, and whole texts.

  What is proved:
    1. `rules_find` — every rule finds phrases of its level, whatever room it has.
    2. `Expr.exists_located` — a text that is parsed has the words of a phrase, and the expression is
       what the phrase means in its tokens.
-/

namespace Scriptlet

namespace Parse

variable {tokens : List Token} {i : Nat} {item : Parse Expr}

section Atoms

variable (hfits : Fitting tokens) (hitem : Finds tokens .expression item)

include hfits hitem

/-! ## Atoms -/

theorem parentheses_yields (hopen : IsAt tokens i (.of "(")) :
    Yields tokens (parentheses item (place (behind tokens i))) (i + 1)
      (Places tokens (.level .atom) i) := by
  refine .ite_accept hfits
    (fun hclose => .spanFrom (.pure (Fills.places (p := .unit) (.cons hopen (.single hclose)))))
    fun _ => ?_
  refine (hitem _).bind fun j first hfirst => ?_
  obtain ⟨e, he, rfl, rfl⟩ := hfirst
  refine .ite_accept hfits (fun hclose => .pure ?_) fun _ => .expect hfits fun hcomma => ?_
  · exact Fills.places (p := .group e) (.cons hopen (he.fills.append_single hclose))
  · refine (items_yields hfits hitem _).bind fun j all hall => .spanFrom (.pure ?_)
    obtain ⟨_, _, ⟨rest, hrest, rfl, rfl⟩, hclose, rfl, rfl⟩ := hall
    exact Fills.places (p := .tuple e rest)
      (.cons hopen (he.fills.append_cons hcomma (hrest.fills.append_single hclose)))

theorem braces_yields (hopen : IsAt tokens i (.of "\x7b")) :
    Yields tokens (braces item (place (behind tokens i))) (i + 1) (Places tokens (.level .atom) i) := by
  refine .ite_accept hfits
    (fun hclose => .spanFrom
      (.pure (Fills.places (p := .dict .entriesEnd) (.cons hopen (.single hclose))))) fun _ => ?_
  refine (hitem _).bind fun j first hfirst => ?_
  obtain ⟨e, he, rfl, rfl⟩ := hfirst
  refine .ite_accept hfits (fun hcolon => ?_) fun _ =>
    .ite_accept hfits (fun hcomma => ?_) fun _ => .expect hfits fun hclose => .spanFrom (.pure ?_)
  · refine (hitem _).bind fun j value hvalue => .get ?_
    obtain ⟨v, hv, rfl, rfl⟩ := hvalue
    refine (entries_yields hfits hitem _ _).bind fun j all hall =>
      .expect hfits fun hclose => .spanFrom (.pure ?_)
    obtain ⟨m, hm, rfl⟩ := hall
    obtain ⟨p, hp, rfl, hlocated⟩ := hm.cons he hcolon hv
    have hplaces := Fills.places (p := .dict p) (.cons hopen (hp.fills.append_single hclose))
    rw [Phrase.located, ← hlocated] at hplaces
    exact hplaces
  · refine (items_yields hfits hitem _).bind fun j all hall => .spanFrom (.pure ?_)
    obtain ⟨_, _, ⟨rest, hrest, rfl, rfl⟩, hclose, rfl, rfl⟩ := hall
    exact Fills.places (p := .set e rest)
      (.cons hopen (he.fills.append_cons hcomma (hrest.fills.append_single hclose)))
  · exact Fills.places (p := .singleton e) (.cons hopen (he.fills.append_single hclose))

omit hitem in
/-- A number that can be converted is lexed. -/
theorem number_yields {token : Token} (htoken : tokens[i]? = some token) {j : Nat} :
    Yields tokens (number token.text) j fun k value =>
      IsAt tokens i token.word ∧ k = j ∧ value = .ofNumber token.text := by
  have hfit := hfits token (List.mem_of_getElem? htoken)
  have hlexed : (token.text.any (fun c => c.val == 46 || c.val == 101 || c.val == 69) = false →
      token.text.length ≤ NumberText.maxDigits) → IsAt tokens i token.word := fun hshort =>
    ⟨token, htoken, rfl, hfit.operator, hfit.name, fun _ => hshort⟩
  rw [number, Literal.ofNumber]
  split
  · -- With a point or an exponent a number may have any number of digits.
    rename_i hpoint
    exact .pure ⟨hlexed fun h => absurd (hpoint.symm.trans h) (by decide), rfl, rfl⟩
  · split
    · exact .throw _
    · exact .pure ⟨hlexed fun _ => by omega, rfl, rfl⟩

theorem atom_finds : Finds tokens .atom (atom item) := by
  intro i
  refine .position (.peek ?_)
  cases htoken : tokens[i]? with
  | none => exact .refuse _
  | some token =>
    have hlt := (List.getElem?_eq_some_iff.mp htoken).1
    dsimp only
    cases hkind : token.kind with
    | number =>
      refine .advance hlt (.spanFrom ((number_yields hfits htoken).bind fun j value hvalue => ?_))
      obtain ⟨hat, rfl, rfl⟩ := hvalue
      rw [Token.word, hkind] at hat
      exact .pure (Fills.places (p := .number token.text) (.single hat))
    | string =>
      have hat := isAt_of_kind hfits htoken (by rw [hkind]; decide)
      rw [Token.word, hkind] at hat
      exact .advance hlt (.spanFrom (.pure (Fills.places (p := .string token.text) (.single hat))))
    | name =>
      have hat := isAt_name hfits htoken hkind
      cases hconstant : constant? token.text with
      | some value =>
        exact .advance hlt (.spanFrom
          (.pure (Fills.places (p := .constant token.text value hconstant) (.single hat))))
      | none =>
        dsimp only
        split
        · exact .refuse _
        · rename_i hkeyword
          rw [List.contains_eq_mem, decide_eq_true_eq] at hkeyword
          exact .advance hlt (.spanFrom
            (.pure (Fills.places (p := .name token.text hkeyword) (.single hat))))
    | operator =>
      refine .ite_accept hfits (parentheses_yields hfits hitem) fun _ =>
        .ite_accept hfits (fun hopen => ?_) fun _ =>
          .ite_accept hfits (braces_yields hfits hitem) fun _ => .refuse _
      refine (items_yields hfits hitem _).bind fun j all hall => .spanFrom (.pure ?_)
      obtain ⟨_, _, ⟨rest, hrest, rfl, rfl⟩, hclose, rfl, rfl⟩ := hall
      exact Fills.places (p := .list rest) (.cons hopen (hrest.fills.append_single hclose))

/-! ## Lists -/

theorem listTail_yields (steps : Nat) (done : List Expr) :
    Yields tokens (listTail item steps done) i fun j all =>
      (j = i ∧ all = done.reverse ∧ (IsAt tokens i (.of ",") → steps = 0)) ∨
        ∃ m, IsAt tokens i (.of ",") ∧ Places tokens .items (i + 1) j m ∧ all = done.reverse ++ m := by
  induction steps generalizing i done with
  | zero => exact .pure (.inl ⟨rfl, rfl, fun _ => rfl⟩)
  | succ steps ih =>
    refine .ite_accept hfits (fun hcomma => ?_)
      fun hno => .pure (.inl ⟨rfl, rfl, fun hcomma => absurd hcomma hno⟩)
    rcases startsExpression_cases (behind tokens (i + 1)) with ⟨hstarts, -⟩ | ⟨hstarts, -⟩
    · refine .look hstarts ((hitem _).bind fun j next hnext => (ih _).mono fun j all hall => .inr ?_)
      obtain ⟨e, he, rfl, rfl⟩ := hnext
      rcases hall with ⟨rfl, rfl, -⟩ | ⟨m, hcomma', ⟨rest, hrest, rfl, rfl⟩, rfl⟩
      · exact ⟨_, hcomma, Fills.places (p := .item e) he.fills, List.reverse_cons ..⟩
      · refine ⟨_, hcomma,
          Fills.places (p := .itemMore e rest) (he.fills.append_cons hcomma' hrest.fills), ?_⟩
        rw [List.reverse_cons, List.append_assoc]
        rfl
    · exact .look hstarts
        (.pure (.inr ⟨_, hcomma, Fills.places (p := .itemsEnd) .nil, (List.append_nil _).symm⟩))

theorem expressionList_finds : Finds tokens .list (expressionList item) := by
  intro i
  refine .position ((hitem i).bind fun j first hfirst => ?_)
  obtain ⟨e, he, rfl, rfl⟩ := hfirst
  refine .ite_at? hfits (fun hcomma => .get ?_) fun _ =>
    .pure (Fills.places (p := .single e) he.fills)
  refine (listTail_yields hfits hitem _ _).bind fun j all hall => .spanFrom (.pure ?_)
  rcases hall with ⟨-, -, hnone⟩ | ⟨m, -, ⟨rest, hrest, rfl, rfl⟩, rfl⟩
  · -- A step is left, as the comma is.
    have hsteps : (tokens.drop (i + e.count)).length = 0 := hnone hcomma
    have hlt := hcomma.lt
    rw [List.length_drop] at hsteps
    omega
  · exact Fills.places (p := .commas e rest) (he.fills.append_cons hcomma hrest.fills)

omit hitem in
theorem primary_finds {room : Nat} (hexpression : Finds tokens .expression (expression room)) :
    Finds tokens .primary (primary (room + 1)) := by
  intro i
  refine .position ((atom_finds hfits hexpression i).bind fun j target htarget => .get ?_)
  obtain ⟨e, he, rfl, rfl⟩ := htarget
  refine (suffixes_yields hfits hexpression i _ _).mono fun j whole hwhole => ?_
  obtain ⟨rest, hrest, rfl⟩ := hwhole
  exact Fills.places (p := .primary e rest) (he.fills.append hrest)

end Atoms

/-! ## The rules together -/

/-- The rules find phrases of their levels. -/
structure RulesFind (tokens : List Token) (room : Nat) : Prop where
  expression : Finds tokens .expression (expression room)
  disjunction : Finds tokens (.chain .or) (disjunction room)
  conjunction : Finds tokens (.chain .and) (conjunction room)
  negation : Finds tokens .negation (negation room)
  comparison : Finds tokens .comparison (comparison room)
  sum : Finds tokens (.chain .sum) (sum room)
  product : Finds tokens (.chain .product) (product room)
  factor : Finds tokens .factor (factor room)
  power : Finds tokens .power (power room)
  primary : Finds tokens .primary (primary room)

theorem rules_find (hfits : Fitting tokens) (room : Nat) : RulesFind tokens room := by
  induction room with
  | zero => constructor <;> exact fun _ => .throw _
  | succ room ih =>
    exact {
      expression := fun i => ih.disjunction i
      disjunction := chain_finds (word_finds hfits rfl rfl) ih.conjunction fun _ _ => rfl
      conjunction := chain_finds (word_finds hfits rfl rfl) ih.negation fun _ _ => rfl
      negation := negation_finds hfits ih.negation ih.comparison
      comparison := comparison_finds hfits ih.sum
      sum := chain_finds (acceptOperator_finds hfits sumOperators_isTable) ih.product fun _ _ => rfl
      product := chain_finds (acceptOperator_finds hfits productOperators_isTable) ih.factor fun _ _ => rfl
      factor := factor_finds hfits ih.factor ih.power
      power := power_finds hfits ih.primary ih.factor
      primary := primary_finds hfits ih.expression }

end Parse

/-! ## Whole texts -/

/-- What is parsed from a text is what a phrase means in its tokens, which have its words. -/
theorem Expr.exists_located {room : Nat} {text : Text} {e : Expr}
    (hparse : parseWhole room text = .ok e) :
    ∃ (tokens : List Token) (p : Phrase (.level .list)), Token.scan text = .ok tokens ∧
      Parse.Stands tokens 0 p.words ∧ tokens.map Token.word = p.words ∧
        e = p.located (Parse.spanAt tokens) 0 0 := by
  unfold parseWhole at hparse
  cases hscan : Token.scan text with
  | error fault =>
    rw [hscan] at hparse
    cases hparse
  | ok tokens =>
    have hfits : Parse.Fitting tokens := Token.scanFrom_fits 0 [] text (by simp) hscan
    have hfinds := Parse.expressionList_finds hfits (Parse.rules_find hfits room).expression 0
    rw [hscan] at hparse
    cases tokens with
    | nil => cases hparse
    | cons token rest =>
      dsimp only [StateT.run] at hparse
      cases hresult : Parse.expressionList (Parse.expression room) ⟨token :: rest, 0⟩ with
      | error fault =>
        rw [hresult] at hparse
        cases hparse
      | ok result =>
        obtain ⟨found, c⟩ := result
        obtain ⟨j, rfl, p, hp, rfl, rfl⟩ := hfinds found c hresult
        rw [hresult] at hparse
        cases hleft : (token :: rest).drop (0 + p.count) with
        | cons next left =>
          simp only [Parse.behind, hleft] at hparse
          cases hparse
        | nil =>
          simp only [Parse.behind, hleft] at hparse
          have hcount : (token :: rest).length ≤ p.words.length := by
            rw [Nat.zero_add] at hleft
            exact List.drop_eq_nil_iff.mp hleft
          have hwords := hp.words_eq
          rw [List.drop_zero, List.take_of_length_le hcount] at hwords
          exact ⟨token :: rest, p, rfl, hp, hwords, (Except.ok.inj hparse).symm⟩

end Scriptlet
