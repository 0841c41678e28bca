import Scriptlet.Proofs.Spans.Rules

/-
  The parser gives what it reads the spans where it stands: what is in brackets, and what is behind an
  atom.

  What is between brackets is read with the closing one, but for entries and subscripts, which stop in
  front of it. Items and arguments do not run out of steps before their bracket, since each of them has a
  word.
-/

namespace Scriptlet

namespace Parse

variable {tokens : List Token} {i : Nat} {item : Parse Expr}

section Brackets

variable (hfits : Fitting tokens) (hitem : Finds tokens .expression item)

include hfits hitem

/-! ## Items and entries -/

theorem itemsUpTo_yields {closing : Text} (steps : Nat) (done : List Expr) (hsome : 0 < steps)
    (hsteps : tokens.length < i + steps) :
    Yields tokens (itemsUpTo item closing steps done) i fun j all => ∃ m k,
      Places tokens .items i k m ∧ IsAt tokens k (.of closing) ∧ j = k + 1 ∧
        all = done.reverse ++ m := by
  induction steps generalizing i done with
  | zero => exact absurd hsome (Nat.lt_irrefl 0)
  | succ steps ih =>
    refine .ite_accept hfits (fun hclose => .pure ⟨_, i, Fills.places (p := .itemsEnd) .nil, hclose,
      rfl, (List.append_nil _).symm⟩) fun _ => ?_
    refine (hitem i).bind fun j next hnext => ?_
    obtain ⟨e, he, rfl, rfl⟩ := hnext
    refine .ite_accept hfits (fun hcomma => ?_) fun _ => .expect hfits fun hclose => .pure
      ⟨_, _, Fills.places (p := .item e) he.fills, hclose, rfl, List.reverse_cons ..⟩
    -- An item has a word, so that the steps left still reach to the end of the tokens.
    have hlt := hcomma.lt
    have hpos := e.count_pos
    refine (ih _ (by omega) (by omega)).mono fun j all hall => ?_
    obtain ⟨m, k, ⟨rest, hrest, rfl, rfl⟩, hclose, rfl, rfl⟩ := hall
    refine ⟨_, _, Fills.places (p := .itemMore e rest) (he.fills.append_cons hcomma hrest.fills),
      hclose, rfl, ?_⟩
    rw [List.reverse_cons, List.append_assoc]
    rfl

theorem items_yields {closing : Text} (done : List Expr) :
    Yields tokens (items item closing done) i fun j all => ∃ m k,
      Places tokens .items i k m ∧ IsAt tokens k (.of closing) ∧ j = k + 1 ∧
        all = done.reverse ++ m := by
  refine .get (itemsUpTo_yields hfits hitem _ _ (Nat.succ_pos _) ?_)
  rw [behind, List.length_drop]
  omega

end Brackets

/-- Nothing more of the display comes, or a comma and more entries. -/
def EntriesBehind (tokens : List Token) (i j : Nat) (m : List (Expr × Expr)) : Prop :=
  (j = i ∧ m = []) ∨ ∃ p : Phrase .entries, IsAt tokens i (.of ",") ∧
    Stands tokens (i + 1) p.words ∧ j = i + 1 + p.count ∧
      m = p.located (spanAt tokens) (i + 1) (i + 1)

theorem EntriesBehind.cons {key value : Phrase (.level .expression)} {j : Nat}
    {m : List (Expr × Expr)} (hkey : Stands tokens i key.words)
    (hcolon : IsAt tokens (i + key.count) (.of ":"))
    (hvalue : Stands tokens (i + key.count + 1) value.words)
    (h : EntriesBehind tokens (i + key.count + 1 + value.count) j m) :
    Places tokens .entries i j ((key.located (spanAt tokens) i i,
      value.located (spanAt tokens) (i + key.count + 1) (i + key.count + 1)) :: m) := by
  rcases h with ⟨rfl, rfl⟩ | ⟨p, hcomma, hp, rfl, rfl⟩
  · exact Fills.places (p := .entry key value) (hkey.fills.append_cons hcolon hvalue.fills)
  · exact Fills.places (p := .entryMore key value p)
      (hkey.fills.append_cons hcolon (hvalue.fills.append_cons hcomma hp.fills))

section Entries

variable (hfits : Fitting tokens)

include hfits

theorem entries_yields (hitem : Finds tokens .expression item) (steps : Nat) (done : List (Expr × Expr)) :
    Yields tokens (entries item steps done) i fun j all => ∃ m,
      EntriesBehind tokens i j m ∧ all = done.reverse ++ m := by
  induction steps generalizing i done with
  | zero => exact .pure ⟨[], .inl ⟨rfl, rfl⟩, (List.append_nil _).symm⟩
  | succ steps ih =>
    refine .ite_accept hfits (fun hcomma => ?_)
      fun _ => .pure ⟨[], .inl ⟨rfl, rfl⟩, (List.append_nil _).symm⟩
    refine .ite_at? hfits (fun _ => .pure ⟨[], .inr ⟨.entriesEnd, hcomma, stands_nil, rfl, rfl⟩,
      (List.append_nil _).symm⟩) fun _ => ?_
    refine (hitem _).bind fun j key hkey => .expect hfits fun hcolon => ?_
    obtain ⟨k, hk, rfl, rfl⟩ := hkey
    refine (hitem _).bind fun j value hvalue => ?_
    obtain ⟨v, hv, rfl, rfl⟩ := hvalue
    refine (ih _).mono fun j all hall => ?_
    obtain ⟨m, hm, rfl⟩ := hall
    obtain ⟨p, hp, hj, hm⟩ := hm.cons hk hcolon hv
    exact ⟨_, .inr ⟨p, hcomma, hp, hj, hm⟩, by rw [List.reverse_cons, List.append_assoc]; rfl⟩

/-! ## Arguments -/

/-- What has been read with one more argument, which stands from `i` to `j`. -/
inductive ArgumentAt (tokens : List Token) (args : List Expr) (keywords : List (Span × Text × Expr))
    (i : Nat) : Nat → List Expr × List (Span × Text × Expr) → Prop
  | keyword (label : Text) (e : Phrase (.level .expression)) : IsAt tokens i ⟨.name, label⟩ →
      IsAt tokens (i + 1) (.of "=") → Stands tokens (i + 2) e.words →
      ArgumentAt tokens args keywords i (i + 2 + e.count) (args,
        (spanAt tokens i (i + 2 + e.count), label, e.located (spanAt tokens) (i + 2) (i + 2)) ::
          keywords)
  | positional (e : Phrase (.level .expression)) : keywords = [] → Stands tokens i e.words →
      ArgumentAt tokens args keywords i (i + e.count)
        (e.located (spanAt tokens) i i :: args, keywords)

/-- What the arguments that begin at `i` are, behind those that have been read. -/
def ArgumentsAt (tokens : List Token) (named : Bool) (args : List Expr)
    (keywords : List (Span × Text × Expr)) (i j : Nat)
    (all : List Expr × List (Span × Text × Expr)) : Prop :=
  ∃ p : Phrase (.arguments named), Stands tokens i (p.words ++ [.of ")"]) ∧ j = i + p.count + 1 ∧
    all = (args.reverse ++ (p.located (spanAt tokens) i i).1,
      keywords.reverse ++ (p.located (spanAt tokens) i i).2)

omit hfits in
theorem ArgumentsAt.of {named : Bool} {args : List Expr} {keywords : List (Span × Text × Expr)}
    {p : Phrase (.arguments named)} {j : Nat} {all : List Expr × List (Span × Text × Expr)}
    (hp : Fills tokens i j p.words) (hclose : IsAt tokens j (.of ")"))
    (hall : all = (args.reverse ++ (p.located (spanAt tokens) i i).1,
      keywords.reverse ++ (p.located (spanAt tokens) i i).2)) :
    ArgumentsAt tokens named args keywords i (j + 1) all :=
  ⟨p, (hp.append_single hclose).stands, congrArg (· + 1) hp.stop, hall⟩

/-- Behind an argument stands the closing bracket, or a comma and more arguments. -/
theorem restOfArguments_yields {named : Bool} {steps : Nat} {args : List Expr}
    {keywords : List (Span × Text × Expr)} {j : Nat} {read : List Expr × List (Span × Text × Expr)}
    (hnamed : keywords = [] → named = false) (hread : ArgumentAt tokens args keywords i j read)
    (hmore : j < tokens.length → ∀ named, (read.2 = [] → named = false) →
      Yields tokens (argumentsUpTo item steps read.1 read.2) (j + 1)
        (ArgumentsAt tokens named read.1 read.2 (j + 1))) :
    Yields tokens (restOfArguments item steps read.1 read.2) j
      (ArgumentsAt tokens named args keywords i) := by
  refine .ite_accept hfits (fun hcomma => ?_) fun _ => .expect hfits fun hclose => .pure ?_
  · cases hread with
    | keyword label e hlabel hequals he =>
      refine (hmore hcomma.lt true nofun).mono fun j all hall => ?_
      obtain ⟨rest, hrest, rfl, rfl⟩ := hall
      obtain ⟨hrest, hclose, -⟩ := stands_append.mp hrest
      refine .of (p := .keywordMore label e rest)
        (.cons hlabel (.cons hequals (he.fills.append_cons hcomma hrest.fills))) hclose ?_
      simp only [Phrase.located, List.reverse_cons, List.append_assoc, List.singleton_append]
    | positional e hnone he =>
      obtain rfl := hnamed hnone
      refine (hmore hcomma.lt false fun _ => rfl).mono fun j all hall => ?_
      obtain ⟨rest, hrest, rfl, rfl⟩ := hall
      obtain ⟨hrest, hclose, -⟩ := stands_append.mp hrest
      refine .of (p := .positionalMore e rest) (he.fills.append_cons hcomma hrest.fills) hclose ?_
      simp only [Phrase.located, List.reverse_cons, List.append_assoc, List.singleton_append]
  · cases hread with
    | keyword label e hlabel hequals he =>
      refine .of (p := .keyword label e) (.cons hlabel (.cons hequals he.fills)) hclose ?_
      simp only [Phrase.located, List.reverse_cons, List.append_nil]
    | positional e hnone he =>
      obtain rfl := hnamed hnone
      refine .of (p := .positional e) he.fills hclose ?_
      simp only [Phrase.located, List.reverse_cons, List.append_nil]

theorem argumentsUpTo_yields (hitem : Finds tokens .expression item) (named : Bool) (steps : Nat)
    (args : List Expr) (keywords : List (Span × Text × Expr)) (hnamed : keywords = [] → named = false)
    (hsome : 0 < steps) (hsteps : tokens.length < i + steps) :
    Yields tokens (argumentsUpTo item steps args keywords) i
      (ArgumentsAt tokens named args keywords i) := by
  induction steps generalizing named i args keywords with
  | zero => exact absurd hsome (Nat.lt_irrefl 0)
  | succ steps ih =>
    refine .ite_accept hfits
      (fun hclose => .pure (.of (p := .argumentsEnd) .nil hclose ?_)) fun _ => ?_
    · simp only [Phrase.located, List.append_nil]
    -- An argument has a word, so that the steps left still reach to the end of the tokens.
    have hrest : ∀ {j read}, i < j → ArgumentAt tokens args keywords i j read →
        Yields tokens (restOfArguments item steps read.1 read.2) j
          (ArgumentsAt tokens named args keywords i) := fun hlt hread =>
      restOfArguments_yields hfits hnamed hread fun hj named' hnamed' =>
        ih _ _ _ hnamed' (by omega) (by omega)
    obtain ⟨second, hsecond, hequals⟩ := secondIs_behind hfits i "="
    refine .position (.peek (.look hsecond ?_))
    dsimp only
    split
    · rename_i _ _ token hname
      obtain ⟨htoken, hkind⟩ := Option.filter_eq_some_iff.mp hname
      have hlabel := isAt_name hfits htoken (beq_iff_eq.mp hkind)
      have hequals := hequals.mp rfl
      refine .advance hlabel.lt (.advance hequals.lt ((hitem _).bind fun j value hvalue => ?_))
      obtain ⟨e, he, rfl, rfl⟩ := hvalue
      exact .spanFrom (hrest (by omega) (.keyword token.text e hlabel hequals he))
    · split
      · rename_i hempty
        refine (hitem _).bind fun j value hvalue => ?_
        obtain ⟨e, he, rfl, rfl⟩ := hvalue
        have hpos := e.count_pos
        exact hrest (by omega) (.positional e (List.isEmpty_iff.mp hempty) he)
      · exact .refuse_bind _

end Entries

/-! ## Subscripts -/

/-- Behind the part `part` of a subscript nothing more comes, or a colon and more parts. What comes
goes to the parts `before`, which are backwards. -/
def PartsBehind (tokens : List Token) (before : List (Option Expr)) (part : Option Expr) (i j : Nat)
    (all : List (Option Expr) × Option Expr) : Prop :=
  (j = i ∧ all = (before, part)) ∨ before.length < 2 ∧ IsAt tokens i (.of ":") ∧
    ∃ p : Phrase (.bounds (1 - before.length)), Stands tokens (i + 1) p.words ∧
      j = i + 1 + p.count ∧
        all.1.reverse ++ [all.2] = before.reverse ++ part :: p.located (spanAt tokens) (i + 1) (i + 1)

/-- Where a part may begin: the part, if there was none, and what is behind it. -/
def PartsAt (tokens : List Token) (before : List (Option Expr)) (part : Option Expr) (i j : Nat)
    (all : List (Option Expr) × Option Expr) : Prop :=
  ∃ more : Phrase .part, Stands tokens i more.words ∧ (part = none ∨ more = .absent) ∧
    PartsBehind tokens before (part.or (more.located (spanAt tokens) i i)) (i + more.count) j all

section Parts

variable {before : List (Option Expr)} {part : Option Expr} {j : Nat}
  {all : List (Option Expr) × Option Expr}

theorem PartsBehind.partsAt (h : PartsBehind tokens before part i j all) :
    PartsAt tokens before part i j all :=
  ⟨.absent, stands_nil, .inr rfl, by
    rw [Phrase.located, Option.or_none]
    exact h⟩

/-- A part and what is behind it are the parts behind the colon before them. -/
theorem PartsAt.bounds (h : PartsAt tokens (part :: before) none i j all) :
    ∃ p : Phrase (.bounds (1 - before.length)), Fills tokens i j p.words ∧
      all.1.reverse ++ [all.2] = before.reverse ++ part :: p.located (spanAt tokens) i i := by
  obtain ⟨more, hmore, -, h⟩ := h
  rw [Option.none_or] at h
  rcases h with ⟨rfl, rfl⟩ | ⟨hlength, hcolon, p, hp, rfl, hall⟩
  · exact ⟨.bound more, hmore.fills, by simp [Phrase.located]⟩
  · obtain rfl : before = [] := by
      rw [List.length_cons] at hlength
      exact List.length_eq_zero_iff.mp (by omega)
    refine ⟨.boundMore more p, hmore.fills.append_cons hcolon hp.fills, ?_⟩
    rw [hall]
    simp [Phrase.located]

end Parts

section Suffixes

variable (hfits : Fitting tokens) (hitem : Finds tokens .expression item)

include hfits hitem

theorem subscriptParts_yields (steps : Nat) (before : List (Option Expr)) (part : Option Expr) :
    Yields tokens (subscriptParts item steps before part) i (PartsAt tokens before part i) := by
  induction steps generalizing i before part with
  | zero => exact .pure (PartsBehind.partsAt (.inl ⟨rfl, rfl⟩))
  | succ steps ih =>
    refine .ite_at? hfits (fun hcolon => .advance hcolon.lt ?_) fun _ => ?_
    · split
      · exact .refuse _
      · rename_i hlength
        refine (ih _ _).mono fun j all hparts => ?_
        obtain ⟨p, hp, hall⟩ := hparts.bounds
        exact PartsBehind.partsAt (.inr ⟨by omega, hcolon, p, hp.stands, hp.stop, hall⟩)
    · refine .ite_at? hfits (fun _ => .pure (PartsBehind.partsAt (.inl ⟨rfl, rfl⟩))) fun _ => ?_
      cases part with
      | some e => exact .refuse _
      | none =>
        refine (hitem i).bind fun j next hnext => ?_
        obtain ⟨e, he, rfl, rfl⟩ := hnext
        refine (ih _ _).mono fun j all hall => ?_
        obtain ⟨more, -, hmore, hall⟩ := hall
        obtain rfl := hmore.resolve_left nofun
        exact ⟨.present e, he, .inl rfl, hall⟩

theorem subscript_yields : Yields tokens (subscript item) i (Places tokens .index i) := by
  refine .position (.get ((subscriptParts_yields hfits hitem _ _ _).bind fun j all hall => ?_))
  obtain ⟨before, part⟩ := all
  obtain ⟨more, hmore, -, hall⟩ := hall
  rw [Option.none_or] at hall
  rcases hall with ⟨rfl, hall⟩ | ⟨-, hcolon, p, hp, rfl, hall⟩
  · obtain ⟨rfl, rfl⟩ := Prod.mk.inj hall
    cases more with
    | absent => exact .refuse _
    | present e => exact .pure ⟨.index e, hmore, rfl, rfl⟩
  · have hplaces := Fills.places (p := .slice more p) (hmore.fills.append_cons hcolon hp.fills)
    simp only [Phrase.located] at hplaces
    have hback : ∀ (parts : List (Option Expr)) (last : Option Expr),
        before.reverse ++ [part] = parts ++ [last] → before = parts.reverse ∧ part = last := by
      intro parts last heq
      obtain ⟨hparts, hlast⟩ := List.append_inj' heq rfl
      exact ⟨List.reverse_eq_iff.mp hparts, List.singleton_inj.mp hlast⟩
    -- One or two parts stand behind the first colon.
    cases p with
    | bound upper =>
      obtain ⟨rfl, rfl⟩ := hback [_] _ hall
      exact .spanFrom (.pure hplaces)
    | boundMore upper rest =>
      cases rest with
      | bound step =>
        obtain ⟨rfl, rfl⟩ := hback [_, _] _ hall
        exact .spanFrom (.pure hplaces)

/-! ## What stands behind an atom -/

theorem suffixes_yields (origin steps : Nat) (target : Expr) :
    Yields tokens (suffixes item (place (behind tokens origin)) steps target) i fun j e =>
      ∃ rest : Phrase .suffixes, Fills tokens i j rest.words ∧
        e = rest.located (spanAt tokens) origin i target := by
  induction steps generalizing i target with
  | zero => exact .pure ⟨.suffixesEnd, .nil, rfl⟩
  | succ steps ih =>
    refine .ite_accept hfits (fun hopen => .get ?_) fun _ =>
      .ite_accept hfits (fun hdot => .peek ?_) fun _ =>
        .ite_accept hfits (fun hopen => ?_) fun _ => .pure ⟨.suffixesEnd, .nil, rfl⟩
    · refine (argumentsUpTo_yields hfits hitem false _ [] [] (fun _ => rfl) (Nat.succ_pos _) ?_).bind
        fun j all hall => .spanFrom ?_
      · rw [behind, List.length_drop]
        omega
      obtain ⟨args, hargs, rfl, rfl⟩ := hall
      obtain ⟨hargs, hclose, -⟩ := stands_append.mp hargs
      refine (ih _).mono fun j whole hwhole => ?_
      obtain ⟨rest, hrest, rfl⟩ := hwhole
      exact ⟨.call args rest, .cons hopen (hargs.fills.append_cons hclose hrest), rfl⟩
    · split
      · rename_i token hname
        obtain ⟨htoken, hkind⟩ := Option.filter_eq_some_iff.mp hname
        simp only [Bool.and_eq_true, beq_iff_eq, Bool.not_eq_true', List.contains_eq_mem,
          decide_eq_false_iff_not] at hkind
        have hlabel := isAt_name hfits htoken hkind.1
        refine .advance hlabel.lt (.spanFrom ((ih _).mono fun j whole hwhole => ?_))
        obtain ⟨rest, hrest, rfl⟩ := hwhole
        exact ⟨.attr token.text hkind.2 rest, .cons hdot (.cons hlabel hrest), rfl⟩
      · exact .refuse _
    · refine (subscript_yields hfits hitem).bind fun j inner hinner =>
        .expect hfits fun hclose => .spanFrom ((ih _).mono fun j whole hwhole => ?_)
      obtain ⟨p, hp, rfl, rfl⟩ := hinner
      obtain ⟨rest, hrest, rfl⟩ := hwhole
      refine ⟨.subscript p rest, .cons hopen (hp.fills.append_cons hclose hrest), ?_⟩
      rw [Phrase.located]
      cases p.located (spanAt tokens) (i + 1) (i + 1) <;> rfl

end Suffixes

end Parse

end Scriptlet
