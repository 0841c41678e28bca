import Scriptlet.Proofs.Caps.Functions
import Scriptlet.Proofs.Kinds.Calls
import Scriptlet.Proofs.Sorting

/-
  Calls within a cap.

  Calls come back to the run that they are made in, so what they do is compared under two stacks of
  engines that are compared already. A function that the cap leaves open never comes back.

  What is proved:
    1. `Signature.bind_fit` — the arguments that a signature puts to its parameters fit if those of the call
       do.
    2. `follows_function` — a function that the cap does not leave open gives a value that fits for
       arguments that fit.
    3. `function_same` — a function that the cap leaves open does not go by the engines below it.
-/

namespace Scriptlet

open Run

variable {cap : Cap} {strict : Bool} {limits : Limits} {text : Text}

/-! ## Arguments -/

/-- All arguments fit the cap. -/
structure Arguments.Fit (cap : Cap) (arguments : Arguments) : Prop where
  positional : ∀ v ∈ arguments.positional, v.Fits cap
  keywords : ∀ p ∈ arguments.keywords, p.2.Fits cap

theorem Arguments.Fit.ofPositional {values : List Value} (hvalues : ∀ v ∈ values, v.Fits cap) :
    Arguments.Fit cap ⟨values, []⟩ := ⟨hvalues, fun _ hp => absurd hp List.not_mem_nil⟩

/-- The arguments that are there fit the cap. -/
structure Bound.Fit (cap : Cap) (bound : Bound) : Prop where
  values : ∀ slot ∈ bound.values, ∀ v, slot = some v → v.Fits cap
  rest : ∀ v ∈ bound.rest, v.Fits cap

namespace Bound.Fit

variable {bound : Bound} {v : Value} (hb : bound.Fit cap)

include hb

theorem value? (i : Nat) (hv : bound.value? i = some v) : v.Fits cap := by
  have hslot := List.mem_of_getElem? (Option.join_eq_some_iff.mp hv)
  exact hb.values _ hslot v rfl

theorem value (i : Nat) : (bound.value i).Fits cap := by
  unfold Bound.value
  cases hv : bound.value? i with
  | none => trivial
  | some v => exact hb.value? i hv

theorem valueOr (i : Nat) {standIn : Value} (hstandIn : standIn.Fits cap) :
    ((bound.value? i).getD standIn).Fits cap := by
  cases hv : bound.value? i with
  | none => exact hstandIn
  | some v => exact hb.value? i hv

end Bound.Fit

namespace Signature

/-- What goes to the parameters and to the rest are arguments of the call. -/
theorem bind_fit {s : Signature} {arguments : Arguments} (harguments : arguments.Fit cap) :
    Gives (s.bind arguments) fun b =>
      b.Fit cap ∧ b.rest.length ≤ arguments.positional.length :=
  (bind_holds harguments.positional harguments.keywords).mono
    fun _ ⟨hvalues, hrest, _, hlength⟩ => ⟨⟨hvalues, hrest⟩, hlength⟩

end Signature

/-! ## Engines -/

/-- The engines do the same where all fits the cap, until the first one stops with the alarm; what they
leave fits strictly. -/
structure Engine.Follows (cap : Cap) (text : Text) (engine other : Engine) : Prop where
  evaluate : ∀ source,
    Run.Settles cap text (engine.evaluate source) (other.evaluate source) (Value.Fits cap)
  evaluateNode : ∀ source e,
    Run.Settles cap text (engine.evaluateNode source e) (other.evaluateNode source e) (Value.Fits cap)
  runLines : ∀ ls, Run.Settles cap text (engine.runLines ls) (other.runLines ls) fun _ => True
  call : ∀ f {arguments}, arguments.Fit cap →
    Run.Settles cap text (engine.call f arguments) (other.call f arguments) (Value.Fits cap)

section

/-! What is run below two places of the same level is compared already. -/

variable {below other : Nat → Engine} {n : Nat} {v w : Value}
  (hbelow : ∀ k, Engine.Follows cap text (below k) (other k))

/-! ## Collections -/

namespace Traversal

theorem stays_enumerate (hcap : cap.IsOf limits) (hint : ∀ n, cap.AdmitsInt n)
    (hpair : cap.AdmitsSize 2) (hv : v.Fits cap) :
    Stays cap true text (enumerate v w) (Value.Fits cap) := by
  refine Follows.liftAny.bind fun offset _ => ?_
  refine (Follows.look fun h hh => hh.iterate hcap hv "enumerate()").bind fun values hvalues => ?_
  refine (Follows.mapIdxM fun i u hu => ?_).bind fun pairs ⟨hlength, hpairs⟩ =>
    stays_newList ⟨hlength ▸ hvalues.size, hpairs⟩
  refine stays_newTuple ⟨hpair, ?_⟩
  exact List.forall_mem_cons.mpr ⟨hint _, List.forall_mem_singleton.mpr (hvalues.each u hu)⟩

theorem length_rows_le (count : Nat) (columns : List (List Value)) :
    (rows count columns).length ≤ count := by
  induction count generalizing columns with
  | zero => exact Nat.le_refl _
  | succ count ih =>
    unfold rows
    split
    · exact Nat.zero_le _
    · split
      · exact Nat.zero_le _
      · exact Nat.succ_le_succ (ih _)

/-- There are no more rows than elements in the first column. -/
theorem rowsOf_size (hcap : cap.IsOf limits) {columns : List (List Value)}
    (hcolumns : ∀ column ∈ columns, Value.AllFit cap column) :
    cap.AdmitsSize (rowsOf columns).length := by
  unfold rowsOf
  cases columns with
  | nil => exact hcap.admitsSize_zero
  | cons column columns =>
    exact (hcolumns column List.mem_cons_self).size.mono (length_rows_le _ _)

theorem stays_columnsOf {values : List Value} {context : Text} (hcap : cap.IsOf limits)
    (hvalues : ∀ v ∈ values, v.Fits cap) :
    Stays cap true text (columnsOf values context) fun columns =>
      columns.length = values.length ∧ ∀ column ∈ columns, Value.AllFit cap column := by
  refine .look fun h hh columns hcolumns => ⟨Gives.mapMLength columns hcolumns, ?_⟩
  exact Gives.mapM (fun v hv => hh.iterate hcap (hvalues v hv) context) columns hcolumns

theorem stays_zip {values : List Value} (hcap : cap.IsOf limits) (hvalues : ∀ v ∈ values, v.Fits cap)
    (hsize : cap.AdmitsSize values.length) :
    Stays cap true text (zip values) (Value.Fits cap) := by
  refine (stays_columnsOf hcap hvalues).bind fun columns ⟨hcount, hcolumns⟩ => ?_
  have heach : ∀ column ∈ columns, ∀ u ∈ column, u.Fits cap := fun c hc => (hcolumns c hc).each
  refine (Follows.mapM fun row hrow => ?_).bind fun tuples ⟨hlength, htuples⟩ =>
    stays_newList ⟨hlength ▸ rowsOf_size hcap hcolumns, htuples⟩
  obtain ⟨hwidth, hrow⟩ := rows_hold heach row hrow
  exact stays_newTuple ⟨by rw [hwidth, hcount]; exact hsize, hrow⟩

theorem stays_reversed (hcap : cap.IsOf limits) (hv : v.Fits cap) :
    Stays cap true text (reversed v) (Value.Fits cap) := by
  refine (Follows.look fun h hh => hh.iterate hcap hv "reversed()").bind fun values hvalues => ?_
  refine stays_newList (hvalues.mono ?_ fun u hu => List.mem_reverse.mp hu)
  exact Nat.le_of_eq List.length_reverse

/-- Pairs in order are not more than before, and all of them among these. -/
theorem sortedPairs_fit {less : Value × Value → Value × Value → Except Fault Bool}
    {backwards : Bool} {keyed : List (Value × Value)} (hkeyed : ∀ pair ∈ keyed, pair.2.Fits cap) :
    Gives (if backwards then do return (← Sorting.sort less keyed.reverse).reverse
      else Sorting.sort less keyed)
      fun pairs => pairs.length ≤ keyed.length ∧ ∀ pair ∈ pairs, pair.2.Fits cap := by
  refine .ite (fun _ => ?_) fun _ pairs hpairs =>
    ⟨Sorting.sort_length pairs hpairs, Sorting.gives_sort hkeyed pairs hpairs⟩
  have hreverse : ∀ pair ∈ keyed.reverse, pair.2.Fits cap :=
    fun pair hpair => hkeyed pair (List.mem_reverse.mp hpair)
  intro pairs hpairs
  obtain ⟨sorted, hsorted, hpairs⟩ := bind_ok hpairs
  cases hpairs
  refine ⟨?_, fun pair hpair => ?_⟩
  · calc sorted.reverse.length = sorted.length := List.length_reverse
      _ ≤ keyed.reverse.length := Sorting.sort_length sorted hsorted
      _ = keyed.length := List.length_reverse
  · exact Sorting.gives_sort hreverse sorted hsorted pair (List.mem_reverse.mp hpair)

include hbelow

theorem follows_sortedBy (hcap : cap.IsOf limits) (hv : v.Fits cap) (chosen : Option Function) :
    Run.Follows cap true text (sortedBy (below 1) n v w chosen) (sortedBy (other 1) n v w chosen)
      (Value.Fits cap) := by
  refine (Follows.look fun h hh => hh.iterate hcap hv "sorted()").bind fun values hvalues => ?_
  refine Follows.lookAny.bind fun backwards _ => ?_
  refine (Follows.mapM fun u hu => ?_).bind
    fun keyed (hkeyed : keyed.length = values.length ∧ ∀ pair ∈ keyed, pair.2.Fits cap) => ?_
  · cases chosen with
    | none => exact .pure (hvalues.each u hu)
    | some f =>
      have hone : ∀ w ∈ [u], w.Fits cap := List.forall_mem_singleton.mpr (hvalues.each u hu)
      exact ((hbelow 1).call f (.ofPositional hone)).follows.bind fun _ _ => .pure (hvalues.each u hu)
  refine (Follows.look fun h _ => sortedPairs_fit hkeyed.2).bind fun pairs ⟨hfewer, hpairs⟩ => ?_
  exact stays_newList (.map (hvalues.size.mono (hkeyed.1 ▸ hfewer)) hpairs)

theorem follows_sorted {key : Value} (hcap : cap.IsOf limits) (hv : v.Fits cap) :
    Run.Follows cap true text (sorted ⟨below, n⟩ v w key) (sorted ⟨other, n⟩ v w key)
      (Value.Fits cap) := by
  by_cases hkey : key = .none
  · rw [hkey, sorted_none, sorted_none]
    exact follows_sortedBy hbelow hcap hv none
  · rw [sorted_keyed hkey, sorted_keyed hkey]
    exact Follows.liftAny.bind fun f _ => follows_sortedBy hbelow hcap hv (some f)

theorem follows_filter (hcap : cap.IsOf limits) (hw : w.Fits cap) :
    Run.Follows cap true text (filter ⟨below, n⟩ v w) (filter ⟨other, n⟩ v w) (Value.Fits cap) := by
  unfold filter
  refine (Follows.look fun h hh => hh.iterate hcap hw "filter()").bind fun values hvalues => ?_
  have hkept : ∀ kept : List Value, kept.Sublist values →
      Stays cap true text (Run.newList kept) (Value.Fits cap) :=
    fun kept hkept => stays_newList (hvalues.mono hkept.length_le fun u hu => hkept.subset hu)
  cases v with
  | none => exact (Follows.filterM fun u _ => Follows.lookAny).bind hkept
  | _ =>
    refine Follows.liftAny.bind fun f _ => ?_
    refine (Follows.filterM fun u hu => ?_).bind hkept
    have hone : ∀ w ∈ [u], w.Fits cap := List.forall_mem_singleton.mpr (hvalues.each u hu)
    exact ((hbelow 2).call f (.ofPositional hone)).follows.bind fun _ _ => .lookAny

theorem follows_map {collections : List Value} (hcap : cap.IsOf limits)
    (hcollections : ∀ v ∈ collections, v.Fits cap) :
    Run.Follows cap true text (map ⟨below, n⟩ v collections) (map ⟨other, n⟩ v collections)
      (Value.Fits cap) := by
  unfold map
  refine Follows.liftAny.bind fun f _ => .ite (fun _ => .throwBind) fun _ => ?_
  refine (stays_columnsOf hcap hcollections).bind fun columns ⟨_, hcolumns⟩ => ?_
  have heach : ∀ column ∈ columns, ∀ u ∈ column, u.Fits cap := fun c hc => (hcolumns c hc).each
  refine (Follows.mapM fun row hrow => ?_).bind fun results ⟨hlength, hresults⟩ =>
    stays_newList ⟨hlength ▸ rowsOf_size hcap hcolumns, hresults⟩
  exact ((hbelow 2).call f (.ofPositional (rows_hold heach row hrow).2)).follows

end Traversal

/-! ## Functions -/

namespace Call

theorem stays_texts (hsize : ∀ k, cap.AdmitsSize k) (ts : List Text) :
    Stays cap strict text (texts ts) (Value.Fits cap) :=
  stays_newList (.map (hsize _) fun _ _ => hsize _)

theorem stays_names {levels : Nat} (hsize : ∀ k, cap.AdmitsSize k) (o : Option Value) :
    Stays cap strict text (names levels o) (Value.Fits cap) := by
  cases o with
  | none => exact Follows.get.bind fun _ _ => stays_texts hsize _
  | some v => exact Follows.lookAny.bind fun _ _ => stays_texts hsize _

variable {b : Bound} {arguments : Arguments}

/-- A value that is made of the argument of a call, if it has one. -/
theorem stays_optional {o : Option Value} {x : Run Value} {f : Value → Run Value}
    (hx : Stays cap strict text x (Value.Fits cap))
    (hf : ∀ v, o = some v → Stays cap strict text (f v) (Value.Fits cap)) :
    Stays cap strict text (match o with
      | none => x
      | some v => f v) (Value.Fits cap) := by
  cases o with
  | none => exact hx
  | some v => exact hf v rfl

include hbelow

/-- A built-in function gives what fits, unless the cap leaves it open. -/
theorem follows_builtin {f : Builtin} (hcap : cap.IsOf limits)
    (hclosed : ¬ Job.IsOpen limits (.call (.builtin f) arguments) cap) (hb : b.Fit cap)
    (hrest : b.rest.length ≤ arguments.positional.length) :
    Run.Follows cap true text (builtin limits ⟨below, n⟩ f b) (builtin limits ⟨other, n⟩ f b)
      (Value.Fits cap) := by
  have hint := fun h n => Job.admitsInt_of_closed (n := n) hclosed fun _ => h
  have hsize := fun h n => Job.admitsSize_of_closed (n := n) hclosed fun _ => h
  have hlimit : ∀ n : Nat, (limits.maxCollectionSize < n →
      Job.MakesSize limits (.call (.builtin f) arguments)) → cap.AdmitsSize n :=
    fun n h => Job.admitsSize_of_closed hclosed fun hn => h (hcap.lt_of_not_admitsSize hn)
  cases f with
  | print => exact Surroundings.stays_print.bind fun _ _ => .pure trivial
  | input => exact Surroundings.stays_input (hsize (by simp [Job.MakesSize]))
  | len | id | hash | ord =>
    exact Follows.lookAny.bind fun _ _ => .pure (hint (by simp [Job.MakesInt]) _)
  | isinstance | hasattr | bool | any | all =>
    exact Follows.lookAny.bind fun _ _ => .pure trivial
  | str | ascii | repr =>
    exact Follows.lookAny.bind fun _ _ => .pure (hsize (by simp [Job.MakesSize]) _)
  | type => exact Follows.liftAny.bind fun _ _ => .pure (hsize (by simp [Job.MakesSize]) _)
  | int => exact Follows.liftAny.bind fun _ _ => .pure (hint (by simp [Job.MakesInt]) _)
  | chr => exact (Follows.lift (Building.codePoint_size hcap)).bind fun _ ht => .pure ht
  | getattr =>
    -- Attributes may be integers as well as texts, so that every cap leaves them open.
    cases cap with
    | bits most => exact absurd (by simp [Job.IsOpen, Job.MakesInt]) hclosed
    | size most => exact absurd (by simp [Job.IsOpen, Job.MakesSize]) hclosed
  | setattr =>
    exact (Inspection.stays_setAttribute (hsize (by simp [Job.MakesSize])) (hb.value 1)
      (hb.value 2)).bind fun _ _ => .pure trivial
  | dir => exact stays_names (hsize (by simp [Job.MakesSize])) _
  | float => exact Building.stays_float
  | list =>
    exact stays_optional (stays_newList (.nil hcap)) fun v hv =>
      Building.stays_list hcap (hb.value? 0 hv)
  | dict =>
    exact stays_optional (.make fun _ hh => hh.newDict .empty hcap.admitsSize_zero) fun v hv =>
      Building.stays_dict hcap (hb.value? 0 hv)
  | set =>
    have hnone : Member.AllFit cap #[] :=
      ⟨hcap.admitsSize_zero, fun m hm => absurd hm (Array.not_mem_empty m)⟩
    exact stays_optional (.make fun _ hh => hh.newSet hnone) fun v hv =>
      Building.stays_set hcap (hb.value? 0 hv)
  | tuple =>
    exact stays_optional (stays_newTuple (.nil hcap)) fun v hv =>
      Building.stays_tuple hcap (hb.value? 0 hv)
  | abs => exact Reckoning.stays_absolute hcap (hb.value 0)
  | max => exact Reckoning.stays_extreme hcap .gt hb.rest
  | min => exact Reckoning.stays_extreme hcap .lt hb.rest
  | sum =>
    exact Reckoning.stays_sum (hint (by simp [Job.MakesInt])) (hb.valueOr 1 hcap.admitsInt_zero)
  | round => exact Reckoning.stays_round (hint (by simp [Job.MakesInt]))
  | pow => exact Reckoning.stays_power hcap (hb.value 0) (hb.value 1) (hb.value 2)
  | divmod =>
    exact Reckoning.stays_quotientAndRest hcap (hb.value 0) (hb.value 1) (hlimit 2 fun h => h)
  | range => exact Reckoning.stays_range hcap hb.rest
  | enumerate =>
    exact Traversal.stays_enumerate hcap (hint (by simp [Job.MakesInt])) (hlimit 2 fun h => h)
      (hb.value 0)
  | zip => exact Traversal.stays_zip hcap hb.rest ((hlimit _ fun h => h).mono hrest)
  | sorted => exact Traversal.follows_sorted hbelow hcap (hb.value 0)
  | reversed => exact Traversal.stays_reversed hcap (hb.value 0)
  | filter => exact Traversal.follows_filter hbelow hcap (hb.value 1)
  | map => exact Traversal.follows_map hbelow hcap hb.rest
  | «open» => exact Surroundings.stays_openFile
  | eval => exact Follows.liftAny.bind fun _ _ => ((hbelow 2).evaluate _).follows
  | exec =>
    exact Follows.liftAny.bind fun _ _ => ((hbelow 3).runLines _).follows.bind fun _ _ => .pure trivial

omit hbelow in
theorem stays_positional {f : LibraryFunction}
    (hclosed : ¬ Job.IsOpen limits (.call (.library f) arguments) cap) :
    Stays cap strict text (positional f arguments) (Value.Fits cap) := by
  have hint := fun h n => Job.admitsInt_of_closed (n := n) hclosed fun _ => h
  cases f with
  | sqrt | sin | cos | tan | asin | acos | atan =>
    exact Follows.liftAny.bind fun _ _ => Mathematics.stays_real _
  | log10 =>
    exact Follows.liftAny.bind fun _ _ => Follows.liftAny.bind fun _ _ => stays_newFloat _
  | exp => exact Follows.liftAny.bind fun _ _ => Mathematics.stays_exponential
  | ceil | floor =>
    exact Follows.liftAny.bind fun _ _ => Follows.liftAny.bind fun _ _ =>
      .pure (hint (by simp [Job.MakesInt]) _)
  | degrees | radians => exact Follows.liftAny.bind fun _ _ => Mathematics.stays_scaled _
  | random => exact Follows.liftAny.bind fun _ _ => Chance.stays_unit
  | _ => exact .pure trivial

omit hbelow in
theorem stays_library {room : Room} {f : LibraryFunction} (hcap : cap.IsOf limits)
    (hclosed : ¬ Job.IsOpen limits (.call (.library f) arguments) cap) (hb : b.Fit cap) :
    Stays cap true text (library room f b) (Value.Fits cap) := by
  have hint := fun h n => Job.admitsInt_of_closed (n := n) hclosed fun _ => h
  have hsize := fun h n => Job.admitsSize_of_closed (n := n) hclosed fun _ => h
  cases f with
  | log => exact Mathematics.stays_logarithmTo
  | factorial => exact Follows.liftAny.bind fun _ _ => .pure (hint (by simp [Job.MakesInt]) _)
  | randint => exact Chance.stays_between (hint (by simp [Job.MakesInt]))
  | choice => exact Chance.stays_choice hcap (hb.value 0)
  | shuffle => exact (Chance.stays_shuffle (hb.value 0)).bind fun _ _ => .pure trivial
  | sample => exact Chance.stays_sample hcap (hb.value 0)
  | time => exact Clock.stays_seconds (hint (by simp [Job.MakesInt]))
  | now => exact Clock.stays_now
  | today => exact Clock.stays_today (hsize (by simp [Job.MakesSize]))
  | loads =>
    -- Documents may hold integers as well as texts, so that every cap leaves them open.
    cases cap with
    | bits most => exact absurd (by simp [Job.IsOpen, Job.MakesInt]) hclosed
    | size most => exact absurd (by simp [Job.IsOpen, Job.MakesSize]) hclosed
  | dumps | join =>
    exact Follows.lookAny.bind fun _ _ => .pure (hsize (by simp [Job.MakesSize]) _)
  | isfile | isdir => exact Follows.lookAny.bind fun _ _ => .pure trivial
  | search => exact Searching.stays_search
  | matchStart => exact Searching.stays_matchStart
  | findall => exact Searching.stays_findAll (hsize (by simp [Job.MakesSize]))
  | substitute => exact Searching.stays_substitute (hsize (by simp [Job.MakesSize]))
  | getcwd => exact .pure (hsize (by simp [Job.MakesSize]) _)
  | listdir => exact stays_texts (hsize (by simp [Job.MakesSize])) _
  | exit => exact .lifted fun v hv => absurd hv Surroundings.exit_ne_ok
  | _ => exact .pure trivial

omit hbelow in
theorem stays_positionalMethod {record : Record} {owner : Ref} {m : Method}
    (hclosed : ¬ Job.IsOpen limits (.call (.method owner m) arguments) cap) :
    Stays cap strict text (positionalMethod record m arguments) (Value.Fits cap) := by
  have hint := fun h n => Job.admitsInt_of_closed (n := n) hclosed fun _ => h
  have hsize := fun h n => Job.admitsSize_of_closed (n := n) hclosed fun _ => h
  unfold positionalMethod
  split
  · exact Follows.liftAny.bind fun _ _ => Follows.lookAny.bind fun _ _ =>
      .pure (hint (by simp [Job.MakesInt]) _)
  · exact Follows.liftAny.bind fun _ _ => Follows.lookAny.bind fun _ _ =>
      .pure (hint (by simp [Job.MakesInt]) _)
  · exact Follows.liftAny.bind fun _ _ => .pure (hsize (by simp [Job.MakesSize]) _)
  · exact .pure trivial

omit hbelow in
theorem stays_method {room : Room} {record : Record} {owner : Ref} {m : Method}
    (hclosed : ¬ Job.IsOpen limits (.call (.method owner m) arguments) cap) :
    Stays cap strict text (method room record m b) (Value.Fits cap) := by
  have hsize := fun h n => Job.admitsSize_of_closed (n := n) hclosed fun _ => h
  unfold method
  split
  · exact .pure (hsize (by simp [Job.MakesSize]) _)
  · exact Follows.lookAny.bind fun _ _ => .pure (hsize (by simp [Job.MakesSize]) _)
  · exact .pure (hsize (by simp [Job.MakesSize]) _)
  · exact .lift (Searching.group_fits (hsize (by simp [Job.MakesSize])))
  · refine stays_newTuple (.map (hsize (by simp [Job.MakesSize]) _) fun group _ => ?_)
    exact Searching.groupText_fits (hsize (by simp [Job.MakesSize])) _ group
  · exact .pure trivial

/-- A function that the cap does not leave open gives what fits for what fits. -/
theorem follows_function {f : Function} (hcap : cap.IsOf limits)
    (hclosed : ¬ Job.IsOpen limits (.call f arguments) cap) (harguments : arguments.Fit cap) :
    Run.Follows cap true text (function limits ⟨below, n⟩ f arguments)
      (function limits ⟨other, n⟩ f arguments) (Value.Fits cap) := by
  unfold function
  cases f with
  | builtin f =>
    refine (Follows.lift (Signature.bind_fit harguments)).bind fun b ⟨hb, hrest⟩ => ?_
    exact follows_builtin hbelow hcap hclosed hb hrest
  | library f =>
    -- What a library does goes by the levels that are left, and these are the same.
    have hlibrary : library ⟨other, n⟩ f = library ⟨below, n⟩ f := rfl
    simp only [hlibrary]
    cases f.signature? with
    | some signature =>
      exact (Follows.lift (Signature.bind_fit harguments)).bind fun b ⟨hb, _⟩ =>
        stays_library hcap hclosed hb
    | none => exact stays_positional hclosed
  | method owner m =>
    have hmethod : method ⟨other, n⟩ = method ⟨below, n⟩ := rfl
    simp only [hmethod]
    refine Follows.get.bind fun s _ => ?_
    cases s.heap.record? owner with
    | none => exact .pure trivial
    | some record =>
      simp only
      cases m.signature? with
      | some signature => exact Follows.liftAny.bind fun b _ => stays_method hclosed
      | none => exact stays_positionalMethod hclosed

omit hbelow in
/-- No function that a cap leaves open comes back to the run. -/
theorem function_same {f : Function} (hopen : Job.IsOpen limits (.call f arguments) cap) :
    function limits ⟨below, n⟩ f arguments = function limits ⟨other, n⟩ f arguments := by
  cases f with
  | library f => rfl
  | method owner m => rfl
  | builtin f =>
    cases f with
    | sorted | filter | map | eval | exec =>
      cases cap
      · simp [Job.IsOpen, Job.MakesInt] at hopen
      · simp [Job.IsOpen, Job.MakesSize] at hopen
    | _ => rfl

end Call

end

end Scriptlet
