import Scriptlet.Proofs.Effects.Functions

/-
  The effects of runs.

  Calls, evaluation and execution come back to the run, so their effects are those of the engines below
  them; by induction on the levels every engine only has effects of runs. Names are bound by assignments,
  loops and imports alone, so a property that is asked of the names of these (`Binds`) holds of all names
  that are bound.

  What is proved:
    1. `Engine.step_acts` — an engine on engines that only have effects of runs has only such effects.
    2. `Engine.tower_acts` — so has every engine of a run.
-/

namespace Scriptlet

open Run

variable {limits : Limits} {named : Text → Prop}

/-- All that the engine does to the state are effects of a run that binds only such names. -/
structure Engine.Acts (limits : Limits) (named : Text → Prop) (engine : Engine) : Prop where
  evaluate : ∀ source, Run.Acts limits named (engine.evaluate source)
  evaluateNode : ∀ source e, Run.Acts limits named (engine.evaluateNode source e)
  runLines : ∀ ls, Run.Acts limits named (engine.runLines ls)
  call : ∀ f arguments, Run.Acts limits named (engine.call f arguments)

/-- The names that the value of an assignment is bound to. -/
def Expr.bound : Expr → List Text
  | .name _ id => [id]
  | .tuple _ items => items.flatMap fun
    | .name _ id => [id]
    | _ => []
  | _ => []

/-- The names that the elements of a loop are bound to. -/
def Header.bound : Header → List Text
  | .forEach targets _ => targets
  | .onlyIf _ | .whileTrue _ => []

/-- The names that statements bind. -/
inductive Text.IsBound : Text → Prop
  | header {line : Text} {h : Header} {name : Text} : Line.read line = .ok (.header h) →
    name ∈ h.bound → IsBound name
  | target {levels : Nat} {text : Text} {e : Expr} {name : Text} :
    Evaluation.read levels text = .ok e → name ∈ e.bound → IsBound name
  | module {name : Text} {l : Library} : Library.ofName? name = some l → IsBound name
  | member {l : Library} {name : Text} {v : Value} : l.toModule.find? name = some v → IsBound name

/-- All that statements bind are such names. -/
def Binds (named : Text → Prop) : Prop := ∀ name : Text, name.IsBound → named name

theorem binds_anyName : Binds anyName := fun _ _ => trivial

section

variable {room : Room} {v w : Value} (hbelow : ∀ k, Engine.Acts limits named (room.below k))

/-! ## Collections -/

namespace Traversal

theorem acts_enumerate : Run.Acts limits named (enumerate v w) := by
  refine Acts.lift.bind fun _ => Acts.look.bind fun _ => ?_
  exact (Acts.mapIdxM fun i u => .newTuple).bind fun _ => .newList

theorem acts_columnsOf {values : List Value} {context : Text} :
    Run.Acts limits named (columnsOf values context) := .look

theorem acts_zip {values : List Value} : Run.Acts limits named (zip values) :=
  acts_columnsOf.bind fun _ => (Acts.mapM fun _ => .newTuple).bind fun _ => .newList

theorem acts_reversed : Run.Acts limits named (reversed v) := Acts.look.bind fun _ => .newList

include hbelow

theorem acts_sortedBy {levels : Nat} (chosen : Option Function) :
    Run.Acts limits named (sortedBy (room.below 1) levels v w chosen) := by
  unfold sortedBy
  refine Acts.look.bind fun values => Acts.look.bind fun backwards => ?_
  refine (Acts.mapM fun u => ?_).bind fun keyed => Acts.look.bind fun pairs => .newList
  cases chosen with
  | none => exact .pure _
  | some f => exact ((hbelow 1).call f _).bind fun _ => .pure _

theorem acts_sorted {key : Value} : Run.Acts limits named (sorted room v w key) := by
  by_cases hkey : key = .none
  · rw [hkey, sorted_none]
    exact acts_sortedBy hbelow none
  · rw [sorted_keyed hkey]
    exact Acts.lift.bind fun f => acts_sortedBy hbelow (some f)

theorem acts_filter : Run.Acts limits named (filter room v w) := by
  unfold filter
  refine Acts.look.bind fun values => ?_
  cases v with
  | none => exact (Acts.filterM fun u => .look).bind fun kept => .newList
  | _ =>
    refine Acts.lift.bind fun f => (Acts.filterM fun u => ?_).bind fun kept => .newList
    exact ((hbelow 2).call f _).bind fun _ => .look

theorem acts_map {collections : List Value} : Run.Acts limits named (map room v collections) := by
  unfold map
  refine Acts.lift.bind fun f => .ite .throwBind (acts_columnsOf.bind fun columns => ?_)
  exact (Acts.mapM fun row => (hbelow 2).call f _).bind fun results => .newList

end Traversal

/-! ## Calls -/

namespace Call

variable {b : Bound}

theorem acts_names {levels : Nat} (o : Option Value) : Run.Acts limits named (names levels o) := by
  cases o with
  | none => exact Acts.get.bind fun _ => .newList
  | some v => exact Acts.look.bind fun _ => .newList

/-- A value that is made of the argument of a call, if it has one. -/
theorem acts_optional {o : Option Value} {x : Run Value} {f : Value → Run Value}
    (hx : Run.Acts limits named x) (hf : ∀ v, Run.Acts limits named (f v)) :
    Run.Acts limits named (match o with
      | none => x
      | some v => f v) := by
  cases o with
  | none => exact hx
  | some v => exact hf v

include hbelow

theorem acts_builtin (f : Builtin) : Run.Acts limits named (builtin limits room f b) := by
  cases f with
  | print => exact Surroundings.acts_print.bind fun _ => .pure _
  | input => exact Surroundings.acts_input
  | len | isinstance | hasattr | id | hash | str | bool | any | all | ord | ascii | repr =>
    exact Acts.look.bind fun _ => .pure _
  | type | int | chr => exact Acts.lift.bind fun _ => .pure _
  | getattr | max | min =>
    unfold builtin
    exact .look
  | setattr => exact Inspection.acts_setAttribute.bind fun _ => .pure _
  | dir => exact acts_names _
  | float => exact Building.acts_float
  | list => exact acts_optional .newList fun _ => Building.acts_list
  | dict =>
    refine acts_optional (.make fun h => .newDict fun _ => ?_) fun _ => Building.acts_dict
    exact Entry.AreKeyed.empty h
  | set =>
    refine acts_optional (.make fun h => .newSet fun _ => ?_) fun _ => Building.acts_set
    exact Member.AreKeyed.empty h
  | tuple => exact acts_optional .newTuple fun _ => Building.acts_tuple
  | abs => exact Reckoning.acts_absolute
  | sum => exact Reckoning.acts_sum
  | round => exact Reckoning.acts_round
  | pow => exact Reckoning.acts_power
  | divmod => exact Reckoning.acts_quotientAndRest
  | range => exact Reckoning.acts_range
  | enumerate => exact Traversal.acts_enumerate
  | zip => exact Traversal.acts_zip
  | sorted => exact Traversal.acts_sorted hbelow
  | reversed => exact Traversal.acts_reversed
  | filter => exact Traversal.acts_filter hbelow
  | map => exact Traversal.acts_map hbelow
  | «open» => exact Surroundings.acts_openFile
  | eval => exact Acts.lift.bind fun _ => (hbelow 2).evaluate _
  | exec => exact Acts.lift.bind fun _ => ((hbelow 3).runLines _).bind fun _ => .pure _

omit hbelow in
theorem acts_positional {f : LibraryFunction} {arguments : Arguments} :
    Run.Acts limits named (positional f arguments) := by
  cases f with
  | sqrt | sin | cos | tan | asin | acos | atan =>
    exact Acts.lift.bind fun _ => Mathematics.acts_real _
  | log10 => exact Acts.lift.bind fun _ => Acts.lift.bind fun _ => .newFloat
  | exp => exact Acts.lift.bind fun _ => Mathematics.acts_exponential
  | ceil | floor => exact Acts.lift.bind fun _ => Acts.lift.bind fun _ => .pure _
  | degrees | radians => exact Acts.lift.bind fun _ => Mathematics.acts_scaled _
  | random => exact Acts.lift.bind fun _ => Chance.acts_unit
  | _ => exact .pure _

omit hbelow in
theorem acts_library {f : LibraryFunction} : Run.Acts limits named (library room f b) := by
  cases f with
  | log => exact Mathematics.acts_logarithmTo
  | factorial => exact Acts.lift.bind fun _ => .pure _
  | randint => exact Chance.acts_between
  | choice => exact Chance.acts_choice
  | shuffle => exact Chance.acts_shuffle.bind fun _ => .pure _
  | sample => exact Chance.acts_sample
  | time => exact Clock.acts_seconds
  | now => exact Clock.acts_now
  | today => exact Clock.acts_today
  | loads => exact Notation.acts_loads
  | dumps | join | isfile | isdir => exact Acts.look.bind fun _ => .pure _
  | search => exact Searching.acts_search
  | matchStart => exact Searching.acts_matchStart
  | findall => exact Searching.acts_findAll
  | substitute => exact Searching.acts_substitute
  | listdir => exact .newList
  | exit => exact .lifted
  | _ => exact .pure _

omit hbelow in
theorem acts_positionalMethod {record : Record} {m : Method} {arguments : Arguments} :
    Run.Acts limits named (positionalMethod record m arguments) := by
  unfold positionalMethod
  split
  · exact Acts.lift.bind fun _ => Acts.look.bind fun _ => .pure _
  · exact Acts.lift.bind fun _ => Acts.look.bind fun _ => .pure _
  · exact Acts.lift.bind fun _ => .pure _
  · exact .pure _

omit hbelow in
theorem acts_method {record : Record} {m : Method} : Run.Acts limits named (method room record m b) := by
  unfold method
  split
  · exact .pure _
  · exact Acts.look.bind fun _ => .pure _
  · exact .pure _
  · exact .lift
  · exact .newTuple
  · exact .pure _

theorem acts_function (f : Function) (arguments : Arguments) :
    Run.Acts limits named (function limits room f arguments) := by
  unfold function
  cases f with
  | builtin f => exact Acts.lift.bind fun b => acts_builtin hbelow f
  | library f =>
    simp only
    cases f.signature? with
    | some signature => exact Acts.lift.bind fun b => acts_library
    | none => exact acts_positional
  | method owner m =>
    refine Acts.get.bind fun s => ?_
    cases s.heap.record? owner with
    | none => exact .pure _
    | some record =>
      simp only
      cases m.signature? with
      | some signature => exact Acts.lift.bind fun b => acts_method
      | none => exact acts_positionalMethod

end Call

/-! ## Expressions -/

namespace Evaluation

variable {source : Text}

theorem acts_lookUp (name : Text) : Run.Acts limits named (lookUp name) := by
  refine Acts.get.bind fun s => ?_
  cases s.vars.find? name with
  | some v => exact .pure _
  | none =>
    simp only
    cases Builtin.ofName? name with
    | some f => exact .pure _
    | none => exact .throw

theorem acts_attributeOf (name : Text) : Run.Acts limits named (attributeOf v name) := by
  refine Acts.get.bind fun s => ?_
  cases s.heap.module? v with
  | some m => exact .lift
  | none => exact Acts.lift.bind fun _ => .throw

theorem acts_callMethod {name : Text} {arguments : Arguments} :
    Run.Acts limits named (callMethod limits v name arguments) := by
  unfold callMethod
  refine Acts.lift.bind fun _ => ?_
  cases v with
  | list r =>
    refine .ite ?_ (Acts.lift.bind fun _ => .throw)
    split
    · refine Acts.get.bind fun _ => Acts.lift.bind fun _ => ?_
      exact (Acts.change fun _ => .pushList r _).bind fun _ => .pure _
    · exact .throw
  | _ => exact Acts.lift.bind fun _ => .throw

/-- The set of values that have been found. -/
theorem acts_setDisplay (vs : List Value) : Run.Acts limits named (do
    let members ← Run.look fun h => h.membersOf vs "set display"
    return .ok (← Run.make (·.newSet members)) : Run Found) := by
  refine Acts.look.bindOk fun s members t hlook => ?_
  obtain ⟨hmembers, rfl⟩ := look_ok_iff.mp hlook
  exact .object (.newSet fun _ => Heap.gives_membersOf vs _ members hmembers)

/-- The mapping of keys and values that have been found. -/
theorem acts_dictDisplay (pairs : List (Value × Value)) : Run.Acts limits named (do
    let entries ← Run.look fun h => pairs.foldlM (fun done (key, value) => do
      return Entry.put done (← h.keyIn key "dict display") key value) #[]
    return .ok (← Run.make (·.newDict entries)) : Run Found) := by
  refine Acts.look.bindOk fun s entries t hlook => ?_
  obtain ⟨hentries, rfl⟩ := look_ok_iff.mp hlook
  exact .object (.newDict fun _ => Heap.gives_put pairs _ entries hentries)

include hbelow

theorem acts_values (k : Nat) (items : List Expr) :
    Run.Acts limits named (values (room.below k) source items) :=
  Acts.mapM fun e => (hbelow k).evaluateNode source e

theorem acts_arguments {args : List Expr} {keywords : List (Span × Text × Expr)} :
    Run.Acts limits named (arguments room source args keywords) := by
  refine (acts_values hbelow 3 args).bind fun positional => ?_
  refine (Acts.foldlM fun done keyword => ?_).bind fun named => .pure _
  exact ((hbelow 2).evaluateNode source _).bind fun v => .pure _

theorem acts_call {callee : Expr} {args : List Expr} {keywords : List (Span × Text × Expr)} :
    Run.Acts limits named (call limits room source callee args keywords) := by
  have hplain : Run.Acts limits named (do
      let v ← (room.below 1).evaluateNode source callee
      let given ← arguments room source args keywords
      let f ← requireCallable v
      (room.below 0).call f given) := by
    refine ((hbelow 1).evaluateNode source callee).bind fun v => ?_
    refine (acts_arguments hbelow).bind fun given => ?_
    exact Acts.lift.bind fun f => (hbelow 0).call f given
  unfold call
  refine .ite .throwBind ?_
  cases callee with
  | «attribute» span target name =>
    refine ((hbelow 1).evaluateNode source target).bind fun v => ?_
    refine (acts_arguments hbelow).bind fun given => Acts.get.bind fun s => ?_
    cases s.heap.module? v with
    | some m => exact Acts.lift.bind fun _ => Acts.lift.bind fun f => (hbelow 0).call f given
    | none => exact acts_callMethod
  | _ => exact hplain

theorem acts_bound {e : Option Expr} : Run.Acts limits named (bound (room.below 1) source e) := by
  cases e with
  | none => exact .pure _
  | some e => exact (hbelow 1).evaluateNode source e

theorem acts_comparisons {rest : List (CompareOp × Expr)} :
    Run.Acts limits named (comparisons (room.below 1) room source v rest) := by
  induction rest generalizing v with
  | nil => exact .pure _
  | cons step rest ih =>
    obtain ⟨op, e⟩ := step
    refine ((hbelow 1).evaluateNode source e).bind fun w => Acts.look.bind fun holds => ?_
    exact .ite ih (.pure _)

theorem acts_boolean {op : BoolOp} {left right : Expr} :
    Run.Acts limits named (boolean (room.below 1) source op left right) := by
  refine ((hbelow 1).evaluateNode source left).bind fun v => Acts.look.bind fun _ => ?_
  exact .ite ((hbelow 1).evaluateNode source right) (.pure _)

theorem acts_nodeValue (e : Expr) : Run.Acts limits named (nodeValue limits room source e) := by
  have hnode : ∀ k e, Run.Acts limits named ((room.below k).evaluateNode source e) :=
    fun k e => (hbelow k).evaluateNode source e
  have hvalues : ∀ items, Run.Acts limits named (values (room.below 3) source items) :=
    acts_values hbelow 3
  have hfound : ∀ {x : Run Value}, Run.Acts limits named x →
      Run.Acts limits named (do return .ok (← x) : Run Found) := fun hx => hx.bind fun v => .pure _
  cases e with
  | literal span c => exact .pure _
  | name span id => exact hfound (acts_lookUp id)
  | list span items => exact (hvalues items).bind fun vs => hfound .newList
  | tuple span items => exact (hvalues items).bind fun vs => hfound .newTuple
  | set span items => exact (hvalues items).bind fun vs => acts_setDisplay vs
  | dict span entries =>
    exact (hvalues _).bind fun ks => (hvalues _).bind fun vs => acts_dictDisplay (ks.zip vs)
  | «attribute» span target name =>
    exact (hnode 1 target).bind fun v => hfound (acts_attributeOf name)
  | subscript span target index =>
    exact (hnode 1 target).bind fun v => (hnode 1 index).bind fun w => .look
  | sliced span target bounds lower upper step =>
    refine (hnode 1 target).bind fun v => Acts.lift.bind fun _ => ?_
    refine (acts_bound hbelow).bind fun _ => (acts_bound hbelow).bind fun _ => ?_
    exact (acts_bound hbelow).bind fun _ => hfound Operation.acts_slice
  | call span callee args keywords => exact hfound (acts_call hbelow)
  | unary span op operand => exact (hnode 1 operand).bind fun v => hfound (Operation.acts_unary op)
  | binary span op left right =>
    refine (hnode 1 left).bind fun v => (hnode 1 right).bind fun w => ?_
    exact hfound (Operation.acts_binary op)
  | boolean span op left right => exact hfound (acts_boolean hbelow)
  | compare span left rest =>
    exact (hnode 1 left).bind fun v => (acts_comparisons hbelow).bind fun b => .pure _

theorem acts_node (e : Expr) : Run.Acts limits named (node limits room source e) := by
  refine (Acts.mapFault (acts_nodeValue hbelow e)).bind fun found => ?_
  cases found with
  | ok v => exact .pure _
  | error f => exact .throw

theorem acts_evaluate : Run.Acts limits named (evaluate room source) :=
  .mapFault (Acts.lift.bind fun e => (hbelow 0).evaluateNode _ e)

theorem acts_assign {k : Nat} {target : Expr} (htarget : ∀ span id, target = .name span id → named id) :
    Run.Acts limits named (assign (room.below k) source target v) := by
  cases target with
  | name span id => exact .binds (htarget span id rfl)
  | subscript span container key =>
    refine ((hbelow k).evaluateNode source container).bind fun c => ?_
    exact ((hbelow k).evaluateNode source key).bind fun w => Operation.acts_store
  | _ => exact .throw

end Evaluation

/-! ## Statements -/

namespace Execution

theorem acts_importName (hnames : Binds named) (line : Text) (l : Library) (name : Text) :
    Run.Acts limits named (importName line l name) := by
  unfold importName
  refine .ite ?_ (.ite .throw ?_)
  · refine Acts.bind (.forIn fun member _ _ => ?_) fun _ => .pure _
    refine Acts.liftBind fun v hv => ?_
    have hmember : l.toModule.find? member = some v := by
      unfold Module.member at hv
      split at hv
      · rename_i hfind
        cases hv
        exact hfind
      · cases hv
    exact (Acts.binds (hnames member (.member hmember))).bind fun _ => .pure _
  · cases hfind : l.toModule.find? name with
    | some v => exact .binds (hnames name (.member hfind))
    | none => exact .throw

theorem acts_loopItems {items : Text} : Run.Acts limits named (loopItems items v) := by
  refine Acts.get.bind fun s => Acts.lift.bind fun _ => ?_
  cases v with
  | list r | tuple r => exact .pure _
  | _ => exact .throw

theorem acts_distribute {levels count : Nat} : Run.Acts limits named (distribute levels count v) :=
  .ite .look (.pure _)

variable (hnames : Binds named)

include hbelow hnames

theorem acts_bindTarget {target : Text} {isAugmented : Bool} :
    Run.Acts limits named (bindTarget room target v isAugmented) := by
  unfold bindTarget
  cases hread : Evaluation.read room.levels target with
  | error fault => cases fault <;> exact .throwBind
  | ok e =>
    have hbound : ∀ name ∈ e.bound, named name := fun name hname =>
      hnames name (.target hread hname)
    simp only [pure_bind]
    cases e with
    | tuple span items =>
      refine .ite .throwBind (Acts.look.bind fun values => Acts.bind (.forIn fun p hp _ => ?_) fun _ =>
        .pure _)
      have hitem : ∀ span id, p.1 = .name span id → named id := by
        intro span id hid
        refine hbound id (List.mem_flatMap.mpr ⟨p.1, (List.of_mem_zip hp).1, ?_⟩)
        rw [hid]
        exact List.mem_singleton_self id
      exact (Evaluation.acts_assign hbelow hitem).bind fun _ => .pure _
    | name span id =>
      refine Evaluation.acts_assign hbelow fun _ _ hid => ?_
      cases hid
      exact hbound id (List.mem_singleton_self id)
    | _ => exact Evaluation.acts_assign hbelow fun _ _ hid => (by cases hid)

theorem acts_assignment {target operator expression : Text} :
    Run.Acts limits named (assignment room target operator expression) :=
  .ite .throwBind (((hbelow 2).evaluate _).bind fun _ => acts_bindTarget hbelow hnames)

omit hnames in
theorem acts_echo {line : Text} : Run.Acts limits named (echo limits room line) :=
  ((hbelow 1).evaluate line).bind fun _ => .ite (Acts.look.bind fun _ => .write) (.pure _)

theorem acts_statement {line : Text} (s : Statement) :
    Run.Acts limits named (statement limits room line s) := by
  cases s with
  | pass => exact .pure _
  | importModule module =>
    refine Acts.liftBind fun l hl => .binds (hnames module ?_)
    unfold importable at hl
    split at hl
    · rename_i hname
      exact .module hname
    · cases hl
  | importNames module names =>
    refine Acts.lift.bind fun l => Acts.bind (.forIn fun name _ _ => ?_) fun _ => .pure _
    exact (acts_importName hnames line l name).bind fun _ => .pure _
  | assign target operator expression => exact acts_assignment hbelow hnames
  | expression source => exact acts_echo hbelow

/-! ## Blocks -/

omit hnames

theorem acts_forEach {targets : List Text} {items : Text} {body : List Text}
    (htargets : ∀ name ∈ targets, named name) :
    Run.Acts limits named (forEach room targets items body) := by
  refine ((hbelow 1).evaluate items).bind fun v => acts_loopItems.bind fun elements => ?_
  refine Acts.bind (.forIn fun item _ _ => acts_distribute.bind fun values => ?_) fun _ => .pure _
  refine Acts.bind (.forIn fun p hp _ => ?_) fun _ => ?_
  · exact (Acts.binds (htargets p.1 (List.of_mem_zip hp).1)).bind fun _ => .pure _
  · exact ((hbelow 1).runLines body).bind fun _ => .pure _

theorem acts_holds {condition : Text} : Run.Acts limits named (holds room condition) :=
  ((hbelow 1).evaluate condition).bind fun _ => .look

theorem acts_whileTrue {condition : Text} {body : List Text} {times : Nat} :
    Run.Acts limits named (whileTrue room condition body times) := by
  induction times with
  | zero => exact (acts_holds hbelow).bind fun _ => .ite .throw (.pure _)
  | succ times ih =>
    refine (acts_holds hbelow).bind fun _ => .ite ?_ (.pure _)
    exact ((hbelow 1).runLines body).bind fun _ => ih

theorem acts_header {h : Header} {body : List Text} (hbound : ∀ name ∈ h.bound, named name) :
    Run.Acts limits named (header room h body) := by
  cases h with
  | forEach targets items => exact acts_forEach hbelow hbound
  | onlyIf condition =>
    exact (acts_holds hbelow).bind fun _ => .ite ((hbelow 1).runLines body) (.pure _)
  | whileTrue condition => exact acts_whileTrue hbelow

include hnames

theorem acts_sequence (ls : List Text) : Run.Acts limits named (sequence limits room ls) := by
  -- A header takes lines with it, so the induction is on the number of lines that are left.
  induction hlength : ls.length using Nat.strongRecOn generalizing ls with
  | ind length ih =>
    subst hlength
    cases ls with
    | nil =>
      unfold sequence
      exact .pure _
    | cons line rest =>
      unfold sequence
      refine Acts.liftBind fun l hl => ?_
      cases l with
      | statement s => exact (acts_statement hbelow hnames s).bind fun _ => ih _ (by simp) rest rfl
      | header h =>
        exact (acts_header hbelow fun name hn => hnames name (.header hl hn)).bind fun _ =>
          ih _ (length_drop_lt line rest _) _ rfl

theorem acts_block (ls : List Text) : Run.Acts limits named (block limits room ls) :=
  .counted (acts_sequence hbelow hnames ls)

end Execution

end

namespace Engine

/-- One more engine on a stack. -/
theorem step_acts {room : Room} (hbelow : ∀ k, Engine.Acts limits named (room.below k))
    (hnames : Binds named) : Engine.Acts limits named (step limits room) where
  evaluate _ := Evaluation.acts_evaluate hbelow
  evaluateNode _ := Evaluation.acts_node hbelow
  runLines := Execution.acts_block hbelow hnames
  call := Call.acts_function hbelow

theorem tower_acts (hnames : Binds named) (n k : Nat) :
    Engine.Acts limits named (tower limits n k) := by
  induction n generalizing k with
  | zero => exact ⟨fun _ => .throw, fun _ _ => .throw, fun _ => .throw, fun _ _ => .throw⟩
  | succ n ih =>
    cases k with
    | zero => exact step_acts ih hnames
    | succ k => exact ih k

end Engine

end Scriptlet
