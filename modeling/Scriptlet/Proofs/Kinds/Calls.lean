import Scriptlet.Proofs.Kinds.Functions

/-
  Calls that keep kinds.

  Calls come back to the run that they are made in, so what they do is compared under two stacks of
  engines that are compared already.

  What is proved:
    1. `Signature.bind_holds` — the arguments that a signature puts to its parameters are those of the call.
    2. `tracks_function` — a function gives a value with a kind for arguments with kinds, unless it is
       the built-in power.
-/

namespace Scriptlet

open Run

/-! ## Arguments -/

/-- All arguments have kinds. -/
structure Arguments.HaveKinds (arguments : Arguments) : Prop where
  positional : ∀ v ∈ arguments.positional, v.HasKind
  keywords : ∀ p ∈ arguments.keywords, p.2.HasKind

theorem Arguments.HaveKinds.ofPositional {values : List Value} (hvalues : ∀ v ∈ values, v.HasKind) :
    Arguments.HaveKinds ⟨values, []⟩ := ⟨hvalues, fun _ hp => absurd hp List.not_mem_nil⟩

/-- The arguments that are there have kinds. -/
structure Bound.HaveKinds (bound : Bound) : Prop where
  values : ∀ slot ∈ bound.values, ∀ v, slot = some v → v.HasKind
  rest : ∀ v ∈ bound.rest, v.HasKind
  named : ∀ slot ∈ bound.named, ∀ v, slot = some v → v.HasKind

namespace Bound.HaveKinds

variable {bound : Bound} {v : Value} (hb : bound.HaveKinds)

include hb

theorem value? (i : Nat) (hv : bound.value? i = some v) : v.HasKind := by
  have hslot := List.mem_of_getElem? (Option.join_eq_some_iff.mp hv)
  exact hb.values _ hslot v rfl

theorem value (i : Nat) : (bound.value i).HasKind := by
  unfold Bound.value
  cases hv : bound.value? i with
  | none => rfl
  | some v => exact hb.value? i hv

theorem valueOr (i : Nat) {standIn : Value} (hstandIn : standIn.HasKind) :
    ((bound.value? i).getD standIn).HasKind := by
  cases hv : bound.value? i with
  | none => exact hstandIn
  | some v => exact hb.value? i hv

end Bound.HaveKinds

namespace Signature

variable {good : Value → Prop}

theorem bindKeyword_holds {s : Signature} {slots : List (Text × Option Value)} {keyword : Text × Value}
    (hslots : ∀ slot ∈ slots, ∀ v, slot.2 = some v → good v) (hkeyword : good keyword.2) :
    Gives (s.bindKeyword slots keyword) fun slots => ∀ slot ∈ slots, ∀ v, slot.2 = some v → good v := by
  obtain ⟨name, value⟩ := keyword
  unfold bindKeyword
  simp only
  split
  · exact .throw
  · exact .throw
  · refine .pure fun slot hslot v hv => ?_
    obtain ⟨old, hold, rfl⟩ := List.mem_map.mp hslot
    split at hv
    · cases hv
      exact hkeyword
    · exact hslots old hold v hv

/-- What is true of all arguments of a call is true of those that a signature puts to its parameters, and of
the rest, which are no more than the positional ones. -/
theorem bind_holds {s : Signature} {arguments : Arguments}
    (hpositional : ∀ v ∈ arguments.positional, good v) (hkeywords : ∀ p ∈ arguments.keywords, good p.2) :
    Gives (s.bind arguments) fun b => (∀ slot ∈ b.values, ∀ v, slot = some v → good v) ∧
      (∀ v ∈ b.rest, good v) ∧ (∀ slot ∈ b.named, ∀ v, slot = some v → good v) ∧
        b.rest.length ≤ arguments.positional.length := by
  have hplaced : ∀ slot ∈ (s.parameters.mapIdx fun i p => (p.name, arguments.positional[i]?)) ++
      s.named.map fun name => (name, none), ∀ v, slot.2 = some v → good v := by
    intro slot hslot v hv
    rcases List.mem_append.mp hslot with hslot | hslot
    · obtain ⟨i, hi, rfl⟩ := List.mem_mapIdx.mp hslot
      exact hpositional v (List.mem_of_getElem? hv)
    · obtain ⟨name, -, rfl⟩ := List.mem_map.mp hslot
      cases hv
  unfold bind
  refine .ite (fun _ => .throwBind) fun _ => ?_
  refine (Gives.foldlM hplaced fun keyword hkeyword slots hslots =>
    bindKeyword_holds hslots (hkeywords keyword hkeyword)).bind fun slots hslots => ?_
  have hbound : (∀ slot ∈ (slots.take s.parameters.length).map (·.2), ∀ v, slot = some v → good v) ∧
      (∀ v ∈ arguments.positional.drop s.parameters.length, good v) ∧
      (∀ slot ∈ (slots.drop s.parameters.length).map (·.2), ∀ v, slot = some v → good v) ∧
        (arguments.positional.drop s.parameters.length).length ≤ arguments.positional.length := by
    refine ⟨fun slot hslot v hv => ?_, fun v hv => ?_, fun slot hslot v hv => ?_, ?_⟩
    · obtain ⟨old, hold, rfl⟩ := List.mem_map.mp hslot
      exact hslots old (List.mem_of_mem_take hold) v hv
    · exact hpositional v (List.mem_of_mem_drop hv)
    · obtain ⟨old, hold, rfl⟩ := List.mem_map.mp hslot
      exact hslots old (List.mem_of_mem_drop hold) v hv
    · rw [List.length_drop]
      exact Nat.sub_le _ _
  refine .ite (fun _ => Gives.any.bind fun _ _ => ?_) fun _ => ?_
  · exact .ite (fun _ => Gives.any.bind fun _ _ => .pure hbound) fun _ => .pure hbound
  · exact .ite (fun _ => Gives.any.bind fun _ _ => .pure hbound) fun _ => .pure hbound

theorem gives_bind {s : Signature} {arguments : Arguments} (harguments : arguments.HaveKinds) :
    Gives (s.bind arguments) Bound.HaveKinds :=
  (bind_holds harguments.positional harguments.keywords).mono
    fun _ ⟨hvalues, hrest, hnamed, _⟩ => ⟨hvalues, hrest, hnamed⟩

end Signature

/-! ## Engines -/

variable {text : Text}

/-- The engines do the same for values with kinds, until the first one stops with the alarm. -/
structure Engine.Tracks (text : Text) (engine other : Engine) : Prop where
  evaluate : ∀ source,
    Run.Tracks text (engine.evaluate source) (other.evaluate source) Value.HasKind
  evaluateNode : ∀ source e,
    Run.Tracks text (engine.evaluateNode source e) (other.evaluateNode source e) Value.HasKind
  runLines : ∀ ls, Run.Tracks text (engine.runLines ls) (other.runLines ls) fun _ => True
  call : ∀ f {arguments}, arguments.HaveKinds →
    Run.Tracks text (engine.call f arguments) (other.call f arguments) Value.HasKind

section

/-! What is run below two places of the same level is compared already. -/

variable {below other : Nat → Engine} {n : Nat} {v w : Value}
  (hbelow : ∀ k, Engine.Tracks text (below k) (other k))

/-! ## Collections -/

namespace Traversal

theorem keeps_enumerate : Keeps text (enumerate v w) Value.HasKind := by
  refine Tracks.liftAny.bind fun offset _ => ?_
  refine (Tracks.look fun h hh => hh.iterate "enumerate()").bind fun values hvalues => ?_
  refine (Tracks.mapIdxM fun i u hu => ?_).bind fun pairs hpairs => keeps_newList hpairs
  exact keeps_newTuple (List.forall_mem_cons.mpr ⟨rfl, List.forall_mem_singleton.mpr (hvalues u hu)⟩)

/-- The first elements of columns are elements of them, as many as there are columns. -/
theorem heads_hold {good : Value → Prop} {columns : List (List Value)} {row : List Value}
    (hcolumns : ∀ column ∈ columns, ∀ u ∈ column, good u)
    (hrow : columns.mapM List.head? = some row) : row.length = columns.length ∧ ∀ u ∈ row, good u := by
  induction columns generalizing row with
  | nil =>
    cases hrow
    exact ⟨rfl, fun u hu => absurd hu List.not_mem_nil⟩
  | cons column columns ih =>
    obtain ⟨hcolumn, hrest⟩ := List.forall_mem_cons.mp hcolumns
    rw [List.mapM_cons] at hrow
    obtain ⟨first, hfirst, hrow⟩ := Option.bind_eq_some_iff.mp hrow
    obtain ⟨others, hothers, hrow⟩ := Option.bind_eq_some_iff.mp hrow
    cases hrow
    obtain ⟨hlength, hgood⟩ := ih hrest hothers
    exact ⟨congrArg (· + 1) hlength,
      List.forall_mem_cons.mpr ⟨hcolumn first (List.mem_of_head? hfirst), hgood⟩⟩

theorem rows_hold {good : Value → Prop} {count : Nat} {columns : List (List Value)}
    (hcolumns : ∀ column ∈ columns, ∀ u ∈ column, good u) :
    ∀ row ∈ rows count columns, row.length = columns.length ∧ ∀ u ∈ row, good u := by
  induction count generalizing columns with
  | zero => exact fun row hrow => absurd hrow List.not_mem_nil
  | succ count ih =>
    intro row hrow
    unfold rows at hrow
    split at hrow
    · exact absurd hrow List.not_mem_nil
    · rename_i first hfirst
      split at hrow
      · exact absurd hrow List.not_mem_nil
      · rcases List.mem_cons.mp hrow with rfl | hrow
        · exact heads_hold hcolumns hfirst
        · have htails : ∀ column ∈ columns.map List.tail, ∀ u ∈ column, good u := by
            intro column hcolumn u hu
            obtain ⟨whole, hwhole, rfl⟩ := List.mem_map.mp hcolumn
            exact hcolumns whole hwhole u (List.mem_of_mem_tail hu)
          obtain ⟨hlength, hgood⟩ := ih htails row hrow
          exact ⟨hlength.trans (List.length_map _), hgood⟩

theorem keeps_columnsOf {values : List Value} {context : Text} :
    Keeps text (columnsOf values context) fun columns => ∀ column ∈ columns, ∀ u ∈ column, u.HasKind :=
  .look fun _ hh => Gives.mapM fun _ _ => hh.iterate context

theorem keeps_zip {values : List Value} : Keeps text (zip values) Value.HasKind := by
  refine keeps_columnsOf.bind fun columns hcolumns => ?_
  refine (Tracks.mapM fun row hrow => ?_).bind fun tuples htuples => keeps_newList htuples
  exact keeps_newTuple (rows_hold hcolumns row hrow).2

theorem keeps_reversed : Keeps text (reversed v) Value.HasKind := by
  refine (Tracks.look fun h hh => hh.iterate "reversed()").bind fun values hvalues => ?_
  exact keeps_newList fun u hu => hvalues u (List.mem_reverse.mp hu)

theorem gives_sortedPairs {less : Value × Value → Value × Value → Except Fault Bool}
    {backwards : Bool} {keyed : List (Value × Value)} (hkeyed : ∀ pair ∈ keyed, pair.2.HasKind) :
    Gives (if backwards then do return (← Sorting.sort less keyed.reverse).reverse
      else Sorting.sort less keyed) fun pairs => ∀ pair ∈ pairs, pair.2.HasKind := by
  refine .ite (fun _ => ?_) fun _ => Sorting.gives_sort hkeyed
  have hreverse : ∀ pair ∈ keyed.reverse, pair.2.HasKind :=
    fun pair hpair => hkeyed pair (List.mem_reverse.mp hpair)
  refine (Sorting.gives_sort hreverse).bind fun sorted hsorted => .pure fun pair hpair => ?_
  exact hsorted pair (List.mem_reverse.mp hpair)

include hbelow

theorem tracks_sortedBy (chosen : Option Function) :
    Run.Tracks text (sortedBy (below 1) n v w chosen) (sortedBy (other 1) n v w chosen)
      Value.HasKind := by
  unfold sortedBy
  refine (Tracks.look fun h hh => hh.iterate "sorted()").bind fun values hvalues => ?_
  refine Tracks.lookAny.bind fun backwards _ => ?_
  refine (Tracks.mapM fun u hu => ?_).bind fun keyed (hkeyed : ∀ pair ∈ keyed, pair.2.HasKind) => ?_
  · cases chosen with
    | none => exact .pure (hvalues u hu)
    | some f =>
      have hone : ∀ w ∈ [u], w.HasKind := List.forall_mem_singleton.mpr (hvalues u hu)
      exact ((hbelow 1).call f (.ofPositional hone)).bind fun _ _ => .pure (hvalues u hu)
  refine (Tracks.look fun h _ => gives_sortedPairs hkeyed).bind fun pairs hpairs => ?_
  refine keeps_newList fun u hu => ?_
  obtain ⟨pair, hpair, rfl⟩ := List.mem_map.mp hu
  exact hpairs pair hpair

theorem tracks_sorted {key : Value} :
    Run.Tracks text (sorted ⟨below, n⟩ v w key) (sorted ⟨other, n⟩ v w key) Value.HasKind := by
  by_cases hkey : key = .none
  · rw [hkey, sorted_none, sorted_none]
    exact tracks_sortedBy hbelow none
  · rw [sorted_keyed hkey, sorted_keyed hkey]
    exact Tracks.liftAny.bind fun f _ => tracks_sortedBy hbelow (some f)

theorem tracks_filter :
    Run.Tracks text (filter ⟨below, n⟩ v w) (filter ⟨other, n⟩ v w) Value.HasKind := by
  unfold filter
  refine (Tracks.look fun h hh => hh.iterate "filter()").bind fun values hvalues => ?_
  have hkept : ∀ kept : List Value, (∀ u ∈ kept, u ∈ values) →
      Keeps text (Run.newList kept) Value.HasKind :=
    fun kept hkept => keeps_newList fun u hu => hvalues u (hkept u hu)
  cases v with
  | none => exact (Tracks.filterM fun u _ => Tracks.lookAny).bind hkept
  | _ =>
    refine Tracks.liftAny.bind fun f _ => ?_
    refine (Tracks.filterM fun u hu => ?_).bind hkept
    have hone : ∀ w ∈ [u], w.HasKind := List.forall_mem_singleton.mpr (hvalues u hu)
    exact ((hbelow 2).call f (.ofPositional hone)).bind fun _ _ => .lookAny

theorem tracks_map {collections : List Value} :
    Run.Tracks text (map ⟨below, n⟩ v collections) (map ⟨other, n⟩ v collections) Value.HasKind := by
  unfold map
  refine Tracks.liftAny.bind fun f _ => .ite (fun _ => .throwBind) fun _ => ?_
  refine keeps_columnsOf.bind fun columns hcolumns => ?_
  refine (Tracks.mapM fun row hrow => ?_).bind fun results hresults => keeps_newList hresults
  exact (hbelow 2).call f (.ofPositional (rows_hold hcolumns row hrow).2)

end Traversal

/-! ## Functions -/

namespace Call

theorem keeps_texts (ts : List Text) : Keeps text (texts ts) Value.HasKind :=
  keeps_newList fun v hv => by
    obtain ⟨t, -, rfl⟩ := List.mem_map.mp hv
    rfl

theorem keeps_names {levels : Nat} (o : Option Value) : Keeps text (names levels o) Value.HasKind := by
  cases o with
  | none => exact Tracks.get.bind fun _ _ => keeps_texts _
  | some v => exact Tracks.lookAny.bind fun _ _ => keeps_texts _

variable {limits : Limits} {b : Bound}

theorem keeps_nothing {items : List Value} (h : items = []) : ∀ v ∈ items, v.HasKind := by
  subst h
  exact fun v hv => absurd hv List.not_mem_nil

/-- A value that is made of the argument of a call, if it has one. -/
theorem keeps_optional {o : Option Value} {x : Run Value} {f : Value → Run Value}
    (hx : Keeps text x Value.HasKind) (hf : ∀ v, Keeps text (f v) Value.HasKind) :
    Keeps text (match o with
      | none => x
      | some v => f v) Value.HasKind := by
  cases o with
  | none => exact hx
  | some v => exact hf v

include hbelow

theorem tracks_builtin {f : Builtin} (hf : f ≠ .pow) (hb : b.HaveKinds) :
    Run.Tracks text (builtin limits ⟨below, n⟩ f b) (builtin limits ⟨other, n⟩ f b)
      Value.HasKind := by
  cases f with
  | print => exact Surroundings.keeps_print.bind fun _ _ => .pure rfl
  | input => exact Surroundings.keeps_input
  | len | isinstance | hasattr | id | hash | str | bool | any | all | ord | ascii | repr =>
    exact Tracks.lookAny.bind fun _ _ => .pure rfl
  | type | int | chr => exact Tracks.liftAny.bind fun _ _ => .pure rfl
  | getattr => exact .look fun h hh => Inspection.gives_attributeOr hh fun u hu => hb.value? 2 hu
  | setattr =>
    exact (Inspection.keeps_setAttribute (hb.value 1) (hb.value 2)).bind fun _ _ => .pure rfl
  | dir => exact keeps_names _
  | float => exact Building.keeps_float
  | list => exact keeps_optional (keeps_newList (keeps_nothing rfl)) fun _ => Building.keeps_list
  | dict => exact keeps_optional (.make fun _ hh => hh.newDict .empty) fun _ => Building.keeps_dict
  | set => exact keeps_optional (.make fun _ hh => hh.newSet .empty) fun _ => Building.keeps_set
  | tuple => exact keeps_optional (keeps_newTuple (keeps_nothing rfl)) fun _ => Building.keeps_tuple
  | abs => exact Reckoning.keeps_absolute
  | max => exact Reckoning.keeps_extreme .gt hb.rest
  | min => exact Reckoning.keeps_extreme .lt hb.rest
  | sum => exact Reckoning.keeps_sum (hb.valueOr 1 rfl)
  | round => exact Reckoning.keeps_round
  | pow => exact absurd rfl hf
  | divmod => exact Reckoning.keeps_quotientAndRest
  | range => exact Reckoning.keeps_range
  | enumerate => exact Traversal.keeps_enumerate
  | zip => exact Traversal.keeps_zip
  | sorted => exact Traversal.tracks_sorted hbelow
  | reversed => exact Traversal.keeps_reversed
  | filter => exact Traversal.tracks_filter hbelow
  | map => exact Traversal.tracks_map hbelow
  | «open» => exact Surroundings.keeps_openFile
  | eval => exact Tracks.liftAny.bind fun _ _ => (hbelow 2).evaluate _
  | exec =>
    exact Tracks.liftAny.bind fun _ _ => ((hbelow 3).runLines _).bind fun _ _ => .pure rfl

omit hbelow in
theorem keeps_positional {f : LibraryFunction} {arguments : Arguments} :
    Keeps text (positional f arguments) Value.HasKind := by
  cases f with
  | sqrt | sin | cos | tan | asin | acos | atan =>
    exact Tracks.liftAny.bind fun _ _ => Mathematics.keeps_real _
  | log10 =>
    exact Tracks.liftAny.bind fun _ _ => Tracks.liftAny.bind fun _ _ => keeps_newFloat _
  | exp => exact Tracks.liftAny.bind fun _ _ => Mathematics.keeps_exponential
  | ceil | floor => exact Tracks.liftAny.bind fun _ _ => Tracks.liftAny.bind fun _ _ => .pure rfl
  | degrees | radians => exact Tracks.liftAny.bind fun _ _ => Mathematics.keeps_scaled _
  | random => exact Tracks.liftAny.bind fun _ _ => Chance.keeps_unit
  | _ => exact .pure rfl

omit hbelow in
theorem keeps_library {room : Room} {f : LibraryFunction} :
    Keeps text (library room f b) Value.HasKind := by
  cases f with
  | log => exact Mathematics.keeps_logarithmTo
  | factorial => exact Tracks.liftAny.bind fun _ _ => .pure rfl
  | randint => exact Chance.keeps_between
  | choice => exact Chance.keeps_choice
  | shuffle => exact Chance.keeps_shuffle.bind fun _ _ => .pure rfl
  | sample => exact Chance.keeps_sample
  | time => exact Clock.keeps_seconds
  | now => exact Clock.keeps_now
  | today => exact Clock.keeps_today
  | loads => exact Notation.keeps_loads
  | dumps | join | isfile | isdir => exact Tracks.lookAny.bind fun _ _ => .pure rfl
  | search => exact Searching.keeps_search
  | matchStart => exact Searching.keeps_matchStart
  | findall => exact Searching.keeps_findAll
  | substitute => exact Searching.keeps_substitute
  | listdir => exact keeps_texts _
  | exit => exact .lifted fun v hv => absurd hv Surroundings.exit_ne_ok
  | _ => exact .pure rfl

omit hbelow in
theorem keeps_positionalMethod {record : Record} {m : Method} {arguments : Arguments} :
    Keeps text (positionalMethod record m arguments) Value.HasKind := by
  unfold positionalMethod
  split
  · exact Tracks.liftAny.bind fun _ _ => Tracks.lookAny.bind fun _ _ => .pure rfl
  · exact Tracks.liftAny.bind fun _ _ => Tracks.lookAny.bind fun _ _ => .pure rfl
  · exact Tracks.liftAny.bind fun _ _ => .pure rfl
  · exact .pure rfl

omit hbelow in
theorem keeps_method {room : Room} {record : Record} {m : Method} :
    Keeps text (method room record m b) Value.HasKind := by
  unfold method
  split
  · exact .pure rfl
  · exact Tracks.lookAny.bind fun _ _ => .pure rfl
  · exact .pure rfl
  · exact .lift Searching.gives_group
  · refine keeps_newTuple fun v hv => ?_
    obtain ⟨group, -, rfl⟩ := List.mem_map.mp hv
    exact Searching.groupText_hasKind _ group
  · exact .pure rfl

/-- A function gives a value with a kind, unless it is the power. -/
theorem tracks_function {f : Function} {arguments : Arguments} (harguments : arguments.HaveKinds) :
    Run.Tracks text (function limits ⟨below, n⟩ f arguments) (function limits ⟨other, n⟩ f arguments)
      fun v => f ≠ .builtin .pow → v.HasKind := by
  unfold function
  cases f with
  | builtin f =>
    refine (Tracks.lift (Signature.gives_bind harguments)).bind fun b hb => ?_
    by_cases hf : f = .pow
    · subst hf
      exact Reckoning.keeps_power.mono fun _ _ h => absurd rfl h
    · exact (tracks_builtin hbelow hf hb).mono fun _ hv _ => hv
  | library f =>
    -- What a library does goes by the levels that are left, and these are the same.
    have hlibrary : library ⟨other, n⟩ f = library ⟨below, n⟩ f := rfl
    simp only [hlibrary]
    cases f.signature? with
    | some signature =>
      exact Tracks.liftAny.bind fun b _ => keeps_library.mono fun _ hv _ => hv
    | none => exact keeps_positional.mono fun _ hv _ => hv
  | method owner m =>
    have hmethod : method ⟨other, n⟩ = method ⟨below, n⟩ := rfl
    simp only [hmethod]
    refine Tracks.get.bind fun s _ => ?_
    cases s.heap.record? owner with
    | none => exact .pure fun _ => rfl
    | some record =>
      simp only
      cases m.signature? with
      | some signature => exact Tracks.liftAny.bind fun b _ => keeps_method.mono fun _ hv _ => hv
      | none => exact keeps_positionalMethod.mono fun _ hv _ => hv

end Call

end

end Scriptlet
