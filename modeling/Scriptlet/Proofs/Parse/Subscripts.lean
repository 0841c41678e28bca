import Scriptlet.Proofs.Parse.Brackets

/-
  What the parser reads is what the grammar derives: subscripts.

  The parts of a subscript are read in one loop, whether they turn out to be an index or a slice. Its
  state is a list of parts, each behind a colon, and whether the current part has been read.
-/

namespace Scriptlet

namespace Parse

variable {n : Nat} {item : Parse Expr}

/-- What follows a part, up to the closing bracket and the words `r` behind it: at most so many
colons, with a part behind each. -/
def FollowsPart (colons : Nat) (ws r : List Word) (m : List (Option Expr)) : Prop :=
  (ws = .of "]" :: r ∧ m = []) ∨
    ∃ less, colons = less + 1 ∧ ∃ p : Phrase (.bounds less),
      ws = .of ":" :: (p.words ++ .of "]" :: r) ∧ p.meaning = m

/-- A part, and what follows it. -/
def PartsUpTo (colons : Nat) (ws r : List Word) (m : List (Option Expr)) : Prop :=
  ∃ p : Phrase (.bounds colons), ws = p.words ++ .of "]" :: r ∧ p.meaning = m

theorem FollowsPart.stops {colons : Nat} {ws r : List Word} {m : List (Option Expr)}
    (h : FollowsPart colons ws r m) : Symbol.part.Stops ws := by
  rcases h with ⟨rfl, -⟩ | ⟨less, -, p, rfl, -⟩
  · exact Phrase.stops_part (closes_cons square_mem_closers r)
  · exact Phrase.stops_part_colon _

theorem PartsUpTo.exists_part {colons : Nat} {ws r : List Word} {m : List (Option Expr)}
    (h : PartsUpTo colons ws r m) : ∃ (part : Phrase .part) (x : List Word)
      (m' : List (Option Expr)), ws = part.words ++ x ∧ FollowsPart colons x r m' ∧
        m = part.meaning :: m' := by
  obtain ⟨p, rfl, rfl⟩ := h
  cases p with
  | bound part => exact ⟨part, _, [], rfl, .inl ⟨rfl, rfl⟩, rfl⟩
  | @boundMore less part rest =>
    refine ⟨part, _, rest.meaning, ?_, .inr ⟨less, rfl, rest, rfl, rfl⟩, rfl⟩
    simp only [Phrase.words, List.append_assoc, List.cons_append]

theorem FollowsPart.parts {colons : Nat} {x r : List Word} {m : List (Option Expr)}
    (h : FollowsPart colons x r m) (part : Phrase .part) :
    PartsUpTo colons (part.words ++ x) r (part.meaning :: m) := by
  rcases h with ⟨rfl, rfl⟩ | ⟨less, rfl, p, rfl, rfl⟩
  · exact ⟨.bound part, rfl, rfl⟩
  · refine ⟨.boundMore part p, ?_, rfl⟩
    simp only [Phrase.words, List.append_assoc, List.cons_append]

/-- Where a colon or the closing bracket comes next, the part is absent. -/
theorem PartsUpTo.follows {colons : Nat} {ws r : List Word} {m : List (Option Expr)}
    (h : PartsUpTo colons ws r m) (hstops : Symbol.part.Stops ws) :
    ∃ m', FollowsPart colons ws r m' := by
  obtain ⟨part, x, m', rfl, hx, -⟩ := h.exists_part
  cases part with
  | absent => exact ⟨m', hx⟩
  | present e => exact absurd hstops (Phrase.not_stops_part e x)

/-- What is to be read in a state of the loop. -/
def PartsFrom (colons : Nat) : Option Expr → List Word → List Word → List (Option Expr) → Prop
  | none => PartsUpTo colons
  | some _ => FollowsPart colons

/-- The parts that a state of the loop has read. -/
def partsRead (before : List (Option Expr)) : Option Expr → List (Option Expr)
  | none => before.reverse.map Expr.barePart
  | some e => before.reverse.map Expr.barePart ++ [some e.bare]

/-- In both states a colon is followed by one part more, and one colon less is left. -/
theorem PartsFrom.behind_colon {colons : Nat} {part : Option Expr} {ws r : List Word}
    {m : List (Option Expr)} (h : PartsFrom colons part (.of ":" :: ws) r m) :
    ∃ less, colons = less + 1 ∧ ∃ m', PartsUpTo less ws r m' := by
  have hfollows : ∃ m', FollowsPart colons (.of ":" :: ws) r m' := by
    cases part with
    | none => exact h.follows (Phrase.stops_part_colon _)
    | some e => exact ⟨m, h⟩
  obtain ⟨m', ⟨hclose, -⟩ | ⟨less, hless, p, hp, -⟩⟩ := hfollows
  · exact absurd (List.cons.inj hclose).1 (by simp)
  · exact ⟨less, hless, p.meaning, p, (List.cons.inj hp).2, rfl⟩

/-- Where a part is followed next, it is absent or has been read. -/
theorem FollowsPart.partsFrom {colons : Nat} {ws r : List Word} {m : List (Option Expr)}
    (h : FollowsPart colons ws r m) (before : List (Option Expr)) (part : Option Expr) :
    ∃ m', PartsFrom colons part ws r m' ∧
      (part :: before).reverse.map Expr.barePart ++ m = partsRead before part ++ m' := by
  cases part with
  | none => exact ⟨none :: m, h.parts .absent, by simp [partsRead, Expr.barePart]⟩
  | some e => exact ⟨m, h, by simp [partsRead, Expr.barePart]⟩

theorem not_followsPart {colons : Nat} {ws r : List Word} {m : List (Option Expr)}
    (hcolon : ws.head? ≠ some (.of ":")) (hclose : ws.head? ≠ some (.of "]")) :
    ¬ FollowsPart colons ws r m := by
  rintro (⟨h, -⟩ | ⟨less, -, p, h, -⟩)
  · exact hclose (congrArg List.head? h)
  · exact hcolon (congrArg List.head? h)

/-- Where neither a colon nor the closing bracket comes next, the part is not absent. -/
theorem PartsUpTo.exists_present {colons : Nat} {ws r : List Word} {m : List (Option Expr)}
    (h : PartsUpTo colons ws r m) (hcolon : ws.head? ≠ some (.of ":"))
    (hclose : ws.head? ≠ some (.of "]")) :
    ∃ (e : Phrase (.level .expression)) (x : List Word) (m' : List (Option Expr)),
      ws = e.words ++ x ∧ FollowsPart colons x r m' := by
  obtain ⟨part, x, m', rfl, hx, -⟩ := h.exists_part
  cases part with
  | absent => exact absurd hx (not_followsPart hcolon hclose)
  | present e => exact ⟨e, x, m', rfl, hx⟩

/-- The outcome agrees with the grammar: it stands before the closing bracket. -/
def SettlesParts (colons : Nat) (before : List (Option Expr)) (part : Option Expr) (ws : List Word) :
    Except ParseFault ((List (Option Expr) × Option Expr) × Cursor) → Prop
  | .ok ((before', part'), c) => ∃ r m, c.words = .of "]" :: r ∧ PartsFrom colons part ws r m ∧
      (part' :: before').reverse.map Expr.barePart = partsRead before part ++ m
  | .error fault => fault.IsRefusal ∧ ∀ r m, ¬ PartsFrom colons part ws r m

/-- The parts settle within so many steps, whatever has been read. -/
def SettlesLoop (item : Parse Expr) (n steps : Nat) : Prop :=
  ∀ (before : List (Option Expr)) (part : Option Expr) (c : Cursor), Lexed c.words →
    c.words.length ≤ n → c.words.length < steps → before.length ≤ 2 →
    SettlesParts (2 - before.length) before part c.words (subscriptParts item steps before part c)

/-- Behind a colon comes one part more, unless there are three already. -/
theorem colon_settles {steps : Nat} (ih : SettlesLoop item n steps) (before : List (Option Expr))
    (part : Option Expr) (c : Cursor) (hc : Lexed c.words) (hn : c.words.length ≤ n)
    (hsteps : c.words.length < steps) :
    SettlesParts (2 - before.length) before part (.of ":" :: c.words)
      ((if before.length ≥ 2 then refuse .anything
        else subscriptParts item steps (part :: before) none) c) := by
  by_cases hfull : before.length ≥ 2
  · rw [if_pos hfull]
    obtain ⟨fault, hrefuse, hfault⟩ := refuse_isRefusal
      (α := List (Option Expr) × Option Expr) .anything c
    rw [hrefuse]
    refine ⟨hfault, fun r m h => ?_⟩
    obtain ⟨less, hless, -⟩ := h.behind_colon
    omega
  rw [if_neg hfull]
  have hrest := ih (part :: before) none c hc hn hsteps (by rw [List.length_cons]; omega)
  have hcolons : 2 - before.length = 2 - (part :: before).length + 1 := by
    rw [List.length_cons]
    omega
  match hresult : subscriptParts item steps (part :: before) none c, hrest with
  | .ok ((before', part'), c₁), ⟨r, m, hr, ⟨p, hp, hm⟩, hall⟩ =>
    have hmore : FollowsPart (2 - before.length) (.of ":" :: c.words) r m :=
      .inr ⟨_, hcolons, p, by rw [hp], hm⟩
    obtain ⟨m', hfrom, hread⟩ := hmore.partsFrom before part
    exact ⟨r, m', hr, hfrom, hall.trans hread⟩
  | .error fault, ⟨hfault, hno⟩ =>
    refine ⟨hfault, fun r m h => ?_⟩
    obtain ⟨less, hless, m', hparts⟩ := h.behind_colon
    obtain rfl : less = 2 - (part :: before).length := by omega
    exact hno r m' hparts

/-- What neither a colon nor the closing bracket ends is a part, which something follows. -/
theorem part_settles (hitem : Reads .expression item n) {steps : Nat} (ih : SettlesLoop item n steps)
    {before : List (Option Expr)} (hbefore : before.length ≤ 2) (c : Cursor) (hc : Lexed c.words)
    (hn : c.words.length ≤ n) (hsteps : c.words.length ≤ steps)
    (hcolon : c.words.head? ≠ some (.of ":")) (hclose : c.words.head? ≠ some (.of "]")) :
    SettlesParts (2 - before.length) before none c.words
      ((item >>= fun next => subscriptParts item steps before (some next)) c) := by
  refine hitem.bind_elim hc hn (fun next c₁ e hc₁ hlt hsplit hstop hview honly => ?_)
    fun fault hfault hno => ⟨hfault, fun r m h => ?_⟩
  · have hrest := ih before (some next) c₁ hc₁ (by omega) (by omega) hbefore
    match hresult : subscriptParts item steps before (some next) c₁, hrest with
    | .ok ((before', part'), c₂), ⟨r, m, hr, hfollows, hall⟩ =>
      refine ⟨r, some e.meaning :: m, hr, ?_, ?_⟩
      · rw [hsplit]
        exact FollowsPart.parts hfollows (.present e)
      · rw [hall, ← hview]
        simp [partsRead]
    | .error fault, ⟨hfault, hno⟩ =>
      refine ⟨hfault, fun r m h => ?_⟩
      obtain ⟨e', x, m', heq, hx⟩ := PartsUpTo.exists_present h hcolon hclose
      exact hno r m' (honly e' x (Phrase.stops_of_stops_part hx.stops) heq ▸ hx)
  · obtain ⟨e, x, m', heq, hx⟩ := PartsUpTo.exists_present h hcolon hclose
    exact hno e x (Phrase.stops_of_stops_part hx.stops) heq

theorem subscriptParts_settles (hitem : Reads .expression item n) (steps : Nat) :
    SettlesLoop item n steps := by
  induction steps with
  | zero => exact fun _ _ _ _ _ hsteps _ => absurd hsteps (Nat.not_lt_zero _)
  | succ steps ih =>
    intro before part c hc hn hsteps hbefore
    unfold subscriptParts
    refine ite_at?_elim hc (fun hcolon => ?_) fun hcolon => ?_
    · obtain ⟨ws, hws⟩ := List.head?_eq_some_iff.mp hcolon
      obtain ⟨c₁, hadvance, rfl⟩ := advance_apply hws
      have hlength : c.words.length = c₁.words.length + 1 := by rw [hws, List.length_cons]
      rw [bind_of_ok hadvance, hws]
      exact colon_settles ih before part c₁ (hws ▸ hc).tail (by omega) (by omega)
    refine ite_at?_elim hc (fun hclose => ?_) fun hclose => ?_
    · obtain ⟨r, hr⟩ := List.head?_eq_some_iff.mp hclose
      have hend : FollowsPart (2 - before.length) c.words r [] := .inl ⟨hr, rfl⟩
      obtain ⟨m', hfrom, hread⟩ := hend.partsFrom before part
      exact ⟨r, m', hr, hfrom, (List.append_nil _).symm.trans hread⟩
    cases part with
    | some e =>
      -- Behind a part nothing else may stand.
      obtain ⟨fault, hrefuse, hfault⟩ := refuse_isRefusal
        (α := List (Option Expr) × Option Expr) .anything c
      simp only [hrefuse]
      exact ⟨hfault, fun r m => not_followsPart hcolon hclose⟩
    | none => exact part_settles hitem ih hbefore c hc hn (by omega) hcolon hclose

/-- An index or a slice is its parts, if it is not an empty part alone. -/
theorem parts_of_index (p : Phrase .index) :
    ∃ q : Phrase (.bounds 2), q.words = p.words ∧ q ≠ .bound .absent := by
  cases p with
  | index e => exact ⟨.bound (.present e), rfl, by simp⟩
  | slice lower rest => exact ⟨.boundMore lower rest, rfl, by simp⟩

/-- The outcome agrees with the grammar: it stands before the closing bracket. -/
def SettlesIndex (ws : List Word) : Except ParseFault (Index × Cursor) → Prop
  | .ok (i, c) => ∃ (p : Phrase .index) (r : List Word), c.words = .of "]" :: r ∧
      ws = p.words ++ c.words ∧ i.bare = p.meaning
  | .error fault => fault.IsRefusal ∧ ∀ (p : Phrase .index) (r : List Word),
      ws ≠ p.words ++ .of "]" :: r

/-- What is made of the parts between the brackets. -/
def indexOfParts (start : Nat) (before : List (Option Expr)) (part : Option Expr) : Parse Index := do
  match before with
  | [] =>
    match part with
    | some index => return .single index
    | none => refuse .subscript
  | [lower] => return .slice (← spanFrom start) lower part none
  | upper :: lower :: _ => return .slice (← spanFrom start) lower upper part

theorem subscript_eq : subscript item = (do
    let start ← position
    let (before, part) ← subscriptParts item ((← get).rest.length + 1) [] none
    indexOfParts start before part) := rfl

/-- Parts with a colon among them are made a slice. -/
theorem indexOfParts_slice {before : List (Option Expr)} {part : Option Expr} {lower : Phrase .part}
    {rest : Phrase (.bounds 1)}
    (hall : (part :: before).reverse.map Expr.barePart = lower.meaning :: rest.meaning) (start : Nat)
    (c : Cursor) :
    ∃ i, indexOfParts start before part c = .ok (i, c) ∧ i.bare = (Phrase.slice lower rest).meaning := by
  cases rest with
  | bound upper =>
    have hall : (part :: before).reverse.map Expr.barePart = [lower.meaning, upper.meaning] := hall
    obtain ⟨first, rfl⟩ : ∃ first, before = [first] :=
      List.length_eq_one_iff.mp (by simpa using congrArg List.length hall)
    obtain ⟨hfirst, hpart⟩ : Expr.barePart first = lower.meaning ∧
        Expr.barePart part = upper.meaning := by simpa using hall
    refine ⟨_, rfl, ?_⟩
    show Index.slice _ (Expr.barePart first) (Expr.barePart part) none =
      Index.slice _ lower.meaning upper.meaning none
    rw [hfirst, hpart]
  | boundMore upper rest =>
    cases rest with
    | bound step =>
      have hall : (part :: before).reverse.map Expr.barePart =
        [lower.meaning, upper.meaning, step.meaning] := hall
      have hlength : before.length = 1 + 1 := by simpa using congrArg List.length hall
      obtain ⟨second, others, rfl⟩ := List.exists_cons_of_length_eq_add_one hlength
      obtain ⟨first, rfl⟩ := List.length_eq_one_iff.mp (by simpa using hlength)
      obtain ⟨hfirst, hsecond, hpart⟩ : Expr.barePart first = lower.meaning ∧
          Expr.barePart second = upper.meaning ∧ Expr.barePart part = step.meaning := by
        simpa using hall
      refine ⟨_, rfl, ?_⟩
      show Index.slice _ (Expr.barePart first) (Expr.barePart second) (Expr.barePart part) =
        Index.slice _ lower.meaning upper.meaning step.meaning
      rw [hfirst, hsecond, hpart]

theorem subscript_settles (hitem : Reads .expression item n) (c : Cursor) (hc : Lexed c.words)
    (hn : c.words.length ≤ n) : SettlesIndex c.words (subscript item c) := by
  rw [subscript_eq, bind_of_ok (position_apply c), bind_of_ok (get_apply c)]
  have hparts := subscriptParts_settles hitem (c.rest.length + 1) [] none c hc hn
    (by rw [Cursor.length_words]; exact Nat.lt_succ_self _) (Nat.zero_le _)
  match hresult : subscriptParts item (c.rest.length + 1) [] none c, hparts with
  | .error fault, ⟨hfault, hno⟩ =>
    rw [bind_of_error hresult]
    refine ⟨hfault, fun p r heq => ?_⟩
    obtain ⟨q, hq, -⟩ := parts_of_index p
    exact hno r q.meaning ⟨q, by rw [heq, hq], rfl⟩
  | .ok ((before, part), c₁), ⟨r, m, hr, ⟨q, hwords, hm⟩, hall⟩ =>
    rw [bind_of_ok hresult]
    have hall : (part :: before).reverse.map Expr.barePart = q.meaning := by
      simpa [partsRead, hm] using hall
    have hq : c.words = q.words ++ c₁.words := by rw [hwords, hr]
    cases q with
    | boundMore lower rest =>
      obtain ⟨i, hi, hmeaning⟩ := indexOfParts_slice hall (place c) c₁
      simp only [hi]
      exact ⟨.slice lower rest, r, hr, hq, hmeaning⟩
    | bound q =>
      have hall : (part :: before).reverse.map Expr.barePart = [q.meaning] := hall
      obtain rfl : before = [] := by simpa using congrArg List.length hall
      have hpart : Expr.barePart part = q.meaning := by simpa using hall
      cases q with
      | absent =>
        cases part with
        | some e => cases hpart
        | none =>
          -- No index is read as no parts, for those are read in one way only.
          obtain ⟨fault, hrefuse, hfault⟩ := refuse_isRefusal (α := Index) .subscript c₁
          simp only [indexOfParts, hrefuse]
          refine ⟨hfault, fun p r' heq => ?_⟩
          obtain ⟨q, hq', hne⟩ := parts_of_index p
          have hcloses : ∀ r, Closes (.of "]" :: r) := closes_cons square_mem_closers
          exact hne (q.decodes (.bound .absent) _ _ (hcloses r') (hcloses r)
            (by rw [hq', ← heq, hwords])).1
      | present e =>
        cases part with
        | none => cases hpart
        | some index =>
          refine ⟨.index e, r, hr, hq, ?_⟩
          show Index.single index.bare = Index.single e.meaning
          rw [Option.some.inj hpart]

end Parse

end Scriptlet
