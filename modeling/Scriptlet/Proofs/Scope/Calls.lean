import Scriptlet.Proofs.Run
import Scriptlet.Proofs.Scope.Functions
import Scriptlet.Proofs.Sorting

/-
  Calls in a scope.

  Calls come back to the run that they are made in, so what they do is compared under two stacks of
  engines that are compared already.

  What is proved:
    1. `detached_sort` — sorting stops with nothing but what the comparison stops with.
    2. `Call.within_function` — a function stays in the scope, if the list that it shuffles may change.
-/

namespace Scriptlet

open Run

/-! ## Sorting -/

namespace Sorting

variable {α : Type} {less : α → α → Except Fault Bool} (hless : ∀ a b, Detached (less a b))

include hless

theorem detached_runLength {falling : Bool} {previous : α} {items : List α} {length : Nat} :
    Detached (runLength less falling previous items length) := by
  induction items generalizing previous length with
  | nil => exact .pure
  | cons next rest ih => exact (hless next previous).bind fun _ _ => .ite ih .pure

theorem detached_firstRun {items : List α} : Detached (firstRun less items) := by
  unfold firstRun
  split
  · exact (hless _ _).bind fun _ _ => (detached_runLength hless).bind fun _ _ => .pure
  · exact .pure

theorem detached_placeFor {sorted : Array α} {item : α} {steps low high : Nat} :
    Detached (placeFor less sorted item steps low high) := by
  induction steps generalizing low high with
  | zero => exact .pure
  | succ steps ih =>
    refine .ite ?_ .pure
    dsimp only
    split
    · exact .pure
    · exact (hless _ _).bind fun _ _ => .ite ih ih

theorem detached_insertAll {sorted : Array α} {items : List α} :
    Detached (insertAll less sorted items) :=
  .foldlM fun _ _ => (detached_placeFor hless).bind fun _ _ => .pure

theorem detached_runs {least steps : Nat} {items : List α} :
    Detached (runs less least steps items) := by
  induction steps generalizing items with
  | zero => exact .pure
  | succ steps ih =>
    refine .ite .pure ((detached_firstRun hless).bind fun parts _ => ?_)
    exact (detached_insertAll hless).bind fun _ _ => ih.bind fun _ _ => .pure

theorem detached_mergeOnto {done xs ys : List α} : Detached (mergeOnto less done xs ys) := by
  fun_induction mergeOnto less done xs ys with
  | case1 => exact .pure
  | case2 => exact .pure
  | case3 done x xs y ys ihy ihx => exact (hless y x).bind fun _ _ => .ite ihy ihx

theorem detached_mergePairs {all : List (List α)} : Detached (mergePairs less all) := by
  fun_induction mergePairs less all with
  | case1 xs ys rest ih => exact (detached_mergeOnto hless).bind fun _ _ => ih.bind fun _ _ => .pure
  | case2 all => exact .pure

theorem detached_mergeAll {steps : Nat} {all : List (List α)} :
    Detached (mergeAll less steps all) := by
  induction steps generalizing all with
  | zero => exact .pure
  | succ steps ih =>
    unfold mergeAll
    split
    · exact .pure
    · exact .pure
    · exact (detached_mergePairs hless).bind fun _ _ => ih

theorem detached_sort {items : List α} : Detached (sort less items) :=
  (detached_runs hless).bind fun _ _ => detached_mergeAll hless

end Sorting

/-! ## Arguments -/

namespace Signature

theorem detached_bind {s : Signature} {arguments : Arguments} : Detached (s.bind arguments) := by
  have hkeyword : ∀ slots keyword, Detached (s.bindKeyword slots keyword) := by
    intro slots keyword
    unfold bindKeyword
    dsimp only
    split
    · exact .throw rfl
    · exact .throw rfl
    · exact .pure
  have htooMany : ∀ given, Detached (s.tooMany given : Except Fault Unit) := fun _ => .throw rfl
  have hreport : ∀ t, Detached (s.report t : Except Fault Unit) := fun _ => .throw rfl
  unfold bind
  refine .ite (.throwBind rfl) ((Raises.foldlM hkeyword).bind fun slots _ => .ite ?_ ?_)
  · exact (htooMany _).bind fun _ _ => .ite ((hreport _).bind fun _ _ => .pure) .pure
  · exact .ite ((hreport _).bind fun _ _ => .pure) .pure

end Signature

namespace Arguments

variable {arguments : Arguments} {title : Text}

theorem detached_requireNoOwner : Detached arguments.requireNoOwner := .ite (.throw rfl) .pure

theorem detached_requirePositional : Detached (arguments.requirePositional title) :=
  detached_requireNoOwner.bind fun _ _ => .ite (.throw rfl) .pure

theorem detached_single : Detached (arguments.single title) := by
  refine detached_requirePositional.bind fun _ _ => ?_
  split
  · exact .pure
  · exact .throw rfl

theorem detached_requireNone : Detached (arguments.requireNone title) :=
  detached_requirePositional.bind fun _ _ => .ite (.throw rfl) .pure

theorem detached_atMostOne {word : Text} : Detached (arguments.atMostOne title word) := by
  refine detached_requirePositional.bind fun _ _ => ?_
  split
  · exact .pure
  · exact .pure
  · exact .throw rfl

end Arguments

namespace Clock

theorem detached_separatorOf {v : Value} : Detached (separatorOf v) := by
  unfold separatorOf
  split
  · exact .pure
  · exact .throw rfl

theorem detached_precisionOf {v : Value} : Detached (precisionOf v) := by
  unfold precisionOf
  split
  · refine .ite (.throwBind rfl) (.ite (.throwBind rfl) ?_)
    split
    · exact .pure
    · exact .throw rfl
  · exact .throw rfl

theorem detached_requireFew {arguments : Arguments} : Detached (requireFew arguments) :=
  .ite (.throw rfl) .pure

theorem detached_requireKnown {arguments : Arguments} : Detached (requireKnown arguments) := by
  refine Raises.bind (.forIn fun i _ => ?_) fun _ _ => ?_
  · split
    · exact .ite (.throwBind rfl) .pure
    · exact .pure
  · split
    · exact .throw rfl
    · exact .pure

theorem detached_isoText {moment : Moment} {arguments : Arguments} :
    Detached (isoText moment arguments) := by
  have hknown : Detached (requireKnown arguments) := detached_requireKnown
  unfold isoText
  refine Arguments.detached_requireNoOwner.bind fun _ _ => detached_requireFew.bind fun _ _ => ?_
  extract_lets argument? behind
  have hbehind : ∀ separator, Detached (behind separator) := by
    intro separator
    simp -zeta only [behind]
    split
    · refine .ite ?_ ?_
      · exact detached_precisionOf.bind fun _ _ => hknown.bind fun _ _ =>
          detached_precisionOf.bind fun _ _ => .pure
      · exact hknown.bind fun _ _ => detached_precisionOf.bind fun _ _ => .pure
    · exact hknown.bind fun _ _ => .pure
  split
  · exact detached_separatorOf.bind fun separator _ => hbehind separator
  · exact Raises.pure.bind fun separator _ => hbehind separator

end Clock

/-! ## Engines -/

variable {scope : Scope} {text : Text}

/-- The function is one that shuffles the list `r`. -/
def Function.Shuffles (f : Function) (arguments : Arguments) (r : Ref) : Prop :=
  f = .library .shuffle ∧ ∃ signature b, LibraryFunction.shuffle.signature? = some signature ∧
    signature.bind arguments = .ok b ∧ b.value 0 = .list r

/-- Within the scope the engines do the same, until the first one stops with the alarm. -/
structure Engine.Within (scope : Scope) (text : Text) (engine other : Engine) : Prop where
  evaluate : ∀ source,
    Run.Within scope text (engine.evaluate source) (other.evaluate source) fun _ => True
  evaluateNode : ∀ source e,
    Run.Within scope text (engine.evaluateNode source e) (other.evaluateNode source e) scope.found
  runLines : ∀ ls, Run.Within scope text (engine.runLines ls) (other.runLines ls) fun _ => True
  call : ∀ f arguments,
    Run.Within scope text (engine.call f arguments) (other.call f arguments) fun _ => True

section

/-! What is run below two places of the same level is compared already. -/

variable {below other : Nat → Engine} {n : Nat} {v w : Value}
  (hbelow : ∀ k, Engine.Within scope text (below k) (other k))

/-! ## Collections -/

namespace Traversal

theorem detached_requireFunction {context : Text} : Detached (requireFunction v context) := by
  unfold requireFunction
  split
  · exact .pure
  · exact (Value.detached_kind _).bind fun _ _ => .throw rfl

theorem minds_enumerate : Minds scope text (enumerate v w) := by
  refine (Within.computed Value.detached_requireInteger).next fun offset => ?_
  refine (Within.read fun _ => Heap.detached_iterate).next fun values => ?_
  exact (Within.mapIdxM fun i u => minds_newTuple _).next fun pairs => minds_newList _

theorem minds_columnsOf {values : List Value} {context : Text} :
    Minds scope text (columnsOf values context) :=
  .read fun _ => .mapM fun _ => Heap.detached_iterate

theorem minds_zip {values : List Value} : Minds scope text (zip values) :=
  minds_columnsOf.next fun _ => (Within.mapM fun row => minds_newTuple row).any.next fun _ =>
    minds_newList _

theorem minds_reversed : Minds scope text (reversed v) :=
  (Within.read fun _ => Heap.detached_iterate).next fun _ => minds_newList _

theorem detached_any {h : Heap} : Detached (any h v) :=
  Heap.detached_iterate.bind fun _ _ => detached_someHolds fun _ => Heap.detached_truthy

theorem detached_all {h : Heap} : Detached (all h v) :=
  Heap.detached_iterate.bind fun _ _ => detached_allHold fun _ => Heap.detached_truthy

include hbelow

theorem within_sortedBy (chosen : Option Function) :
    Run.Within scope text (sortedBy (below 1) n v w chosen) (sortedBy (other 1) n v w chosen)
      fun _ => True := by
  have hsort : ∀ (heap : Heap) (keyed : List (Value × Value)),
      Detached (Sorting.sort (fun a b => heap.ordered .lt n a.1 b.1) keyed) :=
    fun heap keyed => Sorting.detached_sort fun _ _ => Heap.detached_ordered
  unfold sortedBy
  refine (Within.read fun _ => Heap.detached_iterate).next fun values => ?_
  refine (Within.read fun _ => Heap.detached_truthy).next fun backwards => ?_
  refine Within.next (.any (Within.mapM fun u => (?_ : Run.Within scope text _ _ fun _ => True)))
    fun keyed => ?_
  · cases chosen with
    | none => exact .give
    | some f => exact ((hbelow 1).call f _).next fun _ => .give
  refine (Within.read fun heap => ?_).next fun pairs => minds_newList _
  exact .ite ((hsort heap _).bind fun _ _ => .pure) (hsort heap _)

theorem within_sorted {key : Value} :
    Run.Within scope text (sorted ⟨below, n⟩ v w key) (sorted ⟨other, n⟩ v w key)
      fun _ => True := by
  by_cases hkey : key = .none
  · rw [hkey, sorted_none, sorted_none]
    exact within_sortedBy hbelow none
  · rw [sorted_keyed hkey, sorted_keyed hkey]
    exact (Within.computed detached_requireFunction).next fun f => within_sortedBy hbelow (some f)

theorem within_filter :
    Run.Within scope text (filter ⟨below, n⟩ v w) (filter ⟨other, n⟩ v w) fun _ => True := by
  have htruthy : ∀ u : Value, Minds scope text (Run.look (·.truthy u)) :=
    fun _ => .read fun _ => Heap.detached_truthy
  unfold filter
  refine (Within.read fun _ => Heap.detached_iterate).next fun values => ?_
  cases v with
  | none => exact (Within.filterM htruthy).next fun _ => minds_newList _
  | _ =>
    refine (Within.computed detached_requireFunction).next fun f => ?_
    refine (Within.filterM fun u => ?_).next fun _ => minds_newList _
    exact ((hbelow 2).call f _).next htruthy

theorem within_map {collections : List Value} :
    Run.Within scope text (map ⟨below, n⟩ v collections) (map ⟨other, n⟩ v collections)
      fun _ => True := by
  refine (Within.computed detached_requireFunction).next fun f => ?_
  refine .ite (.throwBind (scope.detached _ rfl)) (minds_columnsOf.next fun columns => ?_)
  exact (Within.mapM fun row => (hbelow 2).call f _).any.next fun _ => minds_newList _

end Traversal

/-! ## Functions -/

namespace Call

variable {limits : Limits} {b : Bound}

theorem detached_scriptText {name : String} : Detached (scriptText v name) := by
  refine v.detached_kind.bind fun _ _ => ?_
  split
  · exact .pure
  · exact .throw rfl

theorem minds_names {levels : Nat} (o : Option Value) : Minds scope text (names levels o) := by
  cases o with
  | none => exact Within.get.next fun _ => minds_newList _
  | some v => exact (Within.read fun _ => Inspection.detached_attributeNames).next fun _ =>
      minds_newList _

/-- A value that is made of the argument of a call, if it has one. -/
theorem minds_optional {o : Option Value} {x : Run Value} {f : Value → Run Value}
    (hx : Minds scope text x) (hf : ∀ v, Minds scope text (f v)) :
    Minds scope text (match o with
      | none => x
      | some v => f v) := by
  cases o with
  | none => exact hx
  | some v => exact hf v

/-- What is read of the objects and given as a value. -/
theorem minds_answer {α : Type} {read : Heap → Except Fault α} {give : α → Value}
    (h : ∀ heap, Detached (read heap)) :
    Minds scope text (do return give (← Run.look read)) := (Within.read h).next fun _ => .give

/-- What is computed and given as a value. -/
theorem minds_result {α : Type} {x : Except Fault α} {give : α → Value} (h : Detached x) :
    Minds scope text (do return give (← x)) := (Within.computed h).next fun _ => .give

include hbelow

theorem within_builtin {f : Builtin} :
    Run.Within scope text (builtin limits ⟨below, n⟩ f b) (builtin limits ⟨other, n⟩ f b)
      fun _ => True := by
  cases f with
  | print => exact Surroundings.minds_print.next fun _ => .give
  | input => exact Surroundings.minds_input
  | len => exact minds_answer fun _ => Inspection.detached_length
  | type => exact minds_result (Value.detached_kind _)
  | isinstance => exact minds_answer fun _ => Inspection.detached_isInstance
  | hasattr => exact minds_answer fun _ => Inspection.detached_attribute?
  | getattr =>
    have hread : Minds scope text (Run.look fun h =>
        Inspection.attributeOr h (n / 2) (b.value 0) (b.value 1) (b.value? 2)) :=
      .read fun _ => Inspection.detached_attributeOr
    exact hread
  | setattr => exact Inspection.minds_setAttribute.next fun _ => .give
  | dir => exact minds_names _
  | id | hash => exact minds_answer fun _ => Inspection.detached_hash
  | str => exact minds_answer fun _ => Heap.detached_format
  | int => exact minds_result Value.detached_toInteger
  | float => exact Building.minds_float
  | bool => exact minds_answer fun _ => Heap.detached_truthy
  | list => exact minds_optional (minds_newList []) fun _ => Building.minds_list
  | dict => exact minds_optional (.make fun _ hh => hh.of_lists rfl) fun _ => Building.minds_dict
  | set => exact minds_optional (.make fun _ hh => hh.of_lists rfl) fun _ => Building.minds_set
  | tuple => exact minds_optional (minds_newTuple []) fun _ => Building.minds_tuple
  | abs => exact Reckoning.minds_absolute
  | max | min => exact Reckoning.minds_extreme
  | sum => exact Reckoning.minds_sum
  | round => exact Reckoning.minds_round
  | pow => exact Reckoning.minds_power
  | divmod => exact Reckoning.minds_quotientAndRest
  | range => exact Reckoning.minds_range
  | enumerate => exact Traversal.minds_enumerate
  | zip => exact Traversal.minds_zip
  | sorted => exact Traversal.within_sorted hbelow
  | reversed => exact Traversal.minds_reversed
  | filter => exact Traversal.within_filter hbelow
  | map => exact Traversal.within_map hbelow
  | any => exact minds_answer fun _ => Traversal.detached_any
  | all => exact minds_answer fun _ => Traversal.detached_all
  | ord => exact minds_answer fun _ => Building.detached_codeOf
  | chr => exact minds_result Building.detached_codePoint
  | ascii | repr => exact minds_answer fun _ => Heap.detached_repr
  | «open» => exact Surroundings.minds_openFile
  | eval => exact (Within.computed detached_scriptText).next fun _ => (hbelow 2).evaluate _
  | exec =>
    refine (Within.computed detached_scriptText).next fun _ => ?_
    exact ((hbelow 3).runLines _).next fun _ => .give

omit hbelow in
theorem minds_positional {f : LibraryFunction} {arguments : Arguments} :
    Minds scope text (positional f arguments) := by
  have hsingle : Minds scope text (liftM (arguments.single f.title) : Run Value) :=
    .computed Arguments.detached_single
  cases f with
  | sqrt | sin | cos | tan | asin | acos | atan =>
    exact hsingle.next fun _ => Mathematics.minds_real _
  | log10 =>
    exact hsingle.next fun _ => (Within.computed (Mathematics.detached_logarithm _)).next fun _ =>
      minds_newFloat _
  | exp => exact hsingle.next fun _ => Mathematics.minds_exponential
  | ceil => exact hsingle.next fun _ => minds_result Mathematics.detached_ceiling
  | floor => exact hsingle.next fun _ => minds_result Mathematics.detached_floor
  | degrees | radians => exact hsingle.next fun _ => Mathematics.minds_scaled _
  | random =>
    exact (Within.computed Arguments.detached_requireNone).next fun _ => Chance.minds_unit
  | _ => exact .give

omit hbelow in
theorem minds_library {room : Room} {f : LibraryFunction}
    (hlists : f = .shuffle → ∀ r, b.value 0 = .list r → scope.lists r) :
    Minds scope text (library room f b) := by
  cases f with
  | log => exact Mathematics.minds_logarithmTo
  | factorial => exact minds_result Mathematics.detached_factorial
  | randint => exact Chance.minds_between
  | choice => exact Chance.minds_choice
  | shuffle => exact (Chance.minds_shuffle (hlists rfl)).next fun _ => .give
  | sample => exact Chance.minds_sample
  | time => exact Clock.minds_seconds
  | now => exact Clock.minds_now
  | today => exact Clock.minds_today
  | loads => exact Notation.minds_loads
  | dumps => exact minds_answer fun _ => Notation.detached_dumps
  | search => exact Searching.minds_search
  | matchStart => exact Searching.minds_matchStart
  | findall => exact Searching.minds_findAll
  | substitute => exact Searching.minds_substitute
  | listdir => exact minds_newList _
  | join => exact minds_answer fun _ => Surroundings.detached_path
  | isfile | isdir => exact minds_answer fun _ => Surroundings.detached_isFile
  | exit => exact .computed Surroundings.detached_exit
  | _ => exact .give

omit hbelow in
theorem minds_positionalMethod {record : Record} {m : Method} {arguments : Arguments} :
    Minds scope text (positionalMethod record m arguments) := by
  have hatMostOne : ∀ title word,
      Minds scope text (liftM (arguments.atMostOne title word) : Run (Option Value)) :=
    fun _ _ => .computed Arguments.detached_atMostOne
  unfold positionalMethod
  split
  · exact (hatMostOne _ _).next fun _ => minds_answer fun _ => Searching.detached_bound
  · exact (hatMostOne _ _).next fun _ => minds_answer fun _ => Searching.detached_bound
  · exact minds_result Clock.detached_isoText
  · exact .give

omit hbelow in
theorem minds_method {room : Room} {record : Record} {m : Method} :
    Minds scope text (method room record m b) := by
  unfold method
  split
  · exact .give
  · exact minds_answer fun _ => Heap.detached_format
  · exact .give
  · exact .computed Searching.detached_group
  · exact minds_newTuple _
  · exact .give

/-- A function stays in the scope, if the list that it shuffles may change. -/
theorem within_function {f : Function} {arguments : Arguments}
    (hlists : ∀ r, f.Shuffles arguments r → scope.lists r) :
    Run.Within scope text (function limits ⟨below, n⟩ f arguments)
      (function limits ⟨other, n⟩ f arguments) fun _ => True := by
  unfold function
  cases f with
  | builtin f => exact (Within.computed Signature.detached_bind).next fun b => within_builtin hbelow
  | library f =>
    -- What a library does goes by the levels that are left, and these are the same.
    have hlibrary : library ⟨other, n⟩ f = library ⟨below, n⟩ f := rfl
    simp only [hlibrary]
    cases hsignature : f.signature? with
    | none => exact minds_positional
    | some signature =>
      have hbound : Run.Within scope text (liftM (signature.bind arguments) : Run Bound)
          (liftM (signature.bind arguments)) fun b => signature.bind arguments = .ok b := by
        refine .of fun s hs => ?_
        rw [liftM_apply]
        cases hbind : signature.bind arguments with
        | ok b => exact ⟨hs, rfl⟩
        | error fault => exact ⟨hs, scope.detached fault (Signature.detached_bind fault hbind)⟩
      refine hbound.bind fun b hb => minds_library fun hf r hr => hlists r ?_
      subst hf
      exact ⟨rfl, signature, b, hsignature, hb, hr⟩
  | method owner m =>
    have hmethod : method ⟨other, n⟩ = method ⟨below, n⟩ := rfl
    simp only [hmethod]
    refine Within.get.next fun s => ?_
    cases s.heap.record? owner with
    | none => exact .give
    | some record =>
      simp only
      cases m.signature? with
      | some signature => exact (Within.computed Signature.detached_bind).next fun b => minds_method
      | none => exact minds_positionalMethod

end Call

end

end Scriptlet
