import Scriptlet.Call
import Scriptlet.Proofs.Scope.Values

/-
  Operators and functions in a scope.

  One lemma for each: it stops with faults that are attached to nothing, and it changes no list but those
  of the scope. Of all functions only shuffling changes a list that it is given.
-/

namespace Scriptlet

open Run

variable {scope : Scope} {text : Text} {v w : Value} {levels : Nat} {h : Heap}

/-! ## Operators -/

namespace Operation

theorem minds_ofComputed (c : Computed) : Minds scope text (ofComputed c) := by
  cases c with
  | int n => exact .give
  | float x => exact minds_newFloat x
  | complex re im => exact .give

theorem minds_ofNumber (n : Number) : Minds scope text (ofNumber n) := by
  cases n with
  | int n => exact .give
  | float x => exact minds_newFloat x

theorem minds_repeated {count : Int} : Minds scope text (repeated v count) := by
  unfold repeated
  refine .ite (.throwBind (scope.detached _ rfl)) (Within.get.next fun s => ?_)
  refine (Within.computed detached_requireMemory).next fun _ => ?_
  cases v with
  | list r => exact minds_newList _
  | tuple r => exact .ite .give (minds_newTuple _)
  | _ => exact .give

theorem minds_multiply : Minds scope text (multiply v w) := by
  unfold multiply
  refine (Within.computed v.detached_kind).next fun _ => .ite ?_ ?_
  · split
    · exact minds_repeated
    · exact .detached rfl
  · refine (Within.computed w.detached_kind).next fun _ => .ite ?_ (.detached rfl)
    split
    · exact minds_repeated
    · exact .detached rfl

theorem minds_join : Minds scope text (join v w) := by
  unfold join
  refine Within.get.next fun s => ?_
  split
  · exact .give
  · exact minds_newList _
  · exact .ite .give (.ite .give (minds_newTuple _))
  · exact .detached rfl
  · exact .detached rfl
  · exact .detached rfl
  · exact .detached rfl

theorem minds_without : Minds scope text (without v w) := by
  unfold without
  refine Within.get.next fun s => ?_
  split
  · exact .make fun _ hh => hh.of_lists rfl
  · exact .detached rfl

theorem minds_fillTemplate {limits : Limits} {template : Text} :
    Minds scope text (fillTemplate limits levels template v) :=
  (Within.read fun _ => Template.detached_fill).next fun _ =>
    (Within.computed detached_requireSize).next fun _ => .give

theorem minds_apply {limits : Limits} {op : BinaryOp} :
    Minds scope text (apply limits levels op v w) := by
  unfold apply
  split
  · exact (Within.computed (Number.detached_compute op _ _)).next minds_ofComputed
  · split
    · exact minds_join
    · exact minds_without
    · exact minds_multiply
    · exact minds_fillTemplate
    · exact .detached rfl

theorem minds_binary {limits : Limits} {op : BinaryOp} :
    Minds scope text (binary limits levels op v w) := by
  have hresult : Minds scope text ((apply limits levels op v w).tested (requireSequence limits)) :=
    minds_apply.tested fun _ result => result.detached_kind.bind fun _ _ => .ite detached_requireSize .pure
  have hrepetition : ∀ heap : Heap, Detached (do
      requireRepetition limits heap v w
      requireRepetition limits heap w v) :=
    fun _ => detached_requireRepetition.bind fun _ _ => detached_requireRepetition
  unfold binary
  refine (Within.computed detached_requireOperands).next fun _ => ?_
  refine (Within.computed detached_requireBits).next fun _ => ?_
  exact .ite ((Within.read hrepetition).next fun _ => hresult) hresult

theorem minds_unary {op : UnaryOp} : Minds scope text (unary op v) := by
  cases op with
  | not => exact (Within.read fun _ => Heap.detached_truthy).next fun _ => .give
  | negative =>
    refine (Within.computed Value.detached_requireNumber).next fun _ => ?_
    split
    · exact minds_ofNumber _
    · exact .give
  | positive =>
    refine (Within.computed Value.detached_requireNumber).next fun _ => ?_
    cases v <;> exact .give

theorem minds_slice {lower upper step : Value} : Minds scope text (slice v lower upper step) := by
  unfold slice
  refine (Within.computed Value.detached_sliceBound).next fun stride => ?_
  refine .ite (.throwBind (scope.detached _ rfl)) ?_
  refine (Within.computed Value.detached_sliceBound).next fun _ => ?_
  refine (Within.computed Value.detached_sliceBound).next fun _ => Within.get.next fun s => ?_
  cases v with
  | list r => exact minds_newList _
  | tuple r => exact .ite .give (minds_newTuple _)
  | _ => exact .give

end Operation

/-! ## Surroundings and chance -/

namespace Surroundings

theorem minds_print {limits : Limits} {values : List Value} :
    Minds scope text (print limits levels values v) := by
  have hline : ∀ heap : Heap, Detached (do
      let separator ← heap.format levels v
      return Text.join separator (← values.mapM (heap.format levels))) :=
    fun _ => Heap.detached_format.bind fun _ _ =>
      (Raises.mapM fun _ => Heap.detached_format).bind fun _ _ => .pure
  exact (Within.read hline).next fun _ => minds_write limits _

theorem minds_input {limits : Limits} : Minds scope text (input limits levels v) :=
  (Within.read fun _ => Heap.detached_format).next fun _ => (minds_write limits _).next fun _ => .give

theorem minds_openFile : Minds scope text (openFile levels v w) :=
  (Within.read fun _ => Heap.detached_format).next fun _ =>
    (Within.read fun _ => Heap.detached_format).next fun _ => minds_newRecord _

theorem detached_path {parts : List Value} : Detached (path h levels parts) :=
  (Raises.mapM fun _ => Heap.detached_format).bind fun _ _ => .pure

theorem detached_isFile : Detached (isFile h levels v) :=
  Heap.detached_format.bind fun _ _ => .pure

theorem detached_exit {α : Type} : Detached (exit v : Except Fault α) :=
  Value.detached_toInteger.bind fun n _ => (detached_integerText n).bind fun _ _ => .throw rfl

end Surroundings

namespace Chance

theorem minds_below (bound : Nat) : Minds scope text (below bound) :=
  Within.get.next fun _ => Within.next (.modify fun _ => rfl) fun _ => .give

theorem minds_unit : Minds scope text unit := (minds_below _).next fun _ => minds_newFloat _

theorem minds_between : Minds scope text (between v w) := by
  unfold between
  refine (Within.computed Value.detached_toInteger).next fun a => ?_
  refine (Within.computed Value.detached_toInteger).next fun b => .ite ?_ ?_
  · exact (minds_below _).next fun _ => .give
  · refine (Within.mapM fun n => Within.computed (detached_integerText n)).any.next fun _ => ?_
    exact .detached rfl

theorem minds_choice : Minds scope text (choice v) := by
  refine (Within.read fun _ => Heap.detached_iterate).next fun values => ?_
  refine .ite (.throwBind (scope.detached _ rfl)) ?_
  exact (minds_below _).next fun _ => .give

theorem minds_draw {count : Nat} {items : Array Value} {drawn : List Value} :
    Minds scope text (draw count items drawn) := by
  induction count generalizing items drawn with
  | zero => exact .give
  | succ count ih => exact .ite .give ((minds_below _).next fun _ => ih)

theorem minds_shuffle (hlists : ∀ r, v = .list r → scope.lists r) :
    Minds scope text (shuffle v) := by
  unfold shuffle
  cases v with
  | list r =>
    refine Within.get.next fun s => minds_draw.next fun drawn => ?_
    exact .change fun _ hh => hh.modify (hlists r rfl) _
  | _ => exact (Within.computed (Value.detached_kind _)).next fun _ => .detached rfl

theorem minds_sample : Minds scope text (sample v w) := by
  refine (Within.read fun _ => Heap.detached_iterate).next fun values => ?_
  refine (Within.computed Value.detached_toInteger).next fun n => ?_
  refine .ite (.throwBind (scope.detached _ rfl)) ?_
  exact minds_draw.next fun drawn => minds_newList drawn

end Chance

/-! ## Building and inspection -/

namespace Building

theorem detached_elements : Detached (elements h v) := v.detached_kind.bind fun _ _ => .pure

theorem minds_float : Minds scope text (float v) := by
  cases v with
  | nan mark => exact .give
  | _ => exact (Within.computed Value.detached_toFloat).next fun _ => minds_newFloat _

theorem minds_list : Minds scope text (list v) :=
  (Within.read fun _ => detached_elements).next fun _ => minds_newList _

theorem minds_tuple : Minds scope text (tuple v) :=
  (Within.read fun _ => detached_elements).next fun _ => minds_newTuple _

theorem minds_set : Minds scope text (set v) := by
  have hmembers : ∀ heap : Heap, Detached (do heap.membersOf (← elements heap v) "set()") :=
    fun _ => detached_elements.bind fun _ _ => Heap.detached_membersOf
  exact (Within.read hmembers).next fun _ => .make fun _ hh => hh.of_lists rfl

theorem detached_entriesOf {pairs : List Value} : Detached (entriesOf h levels pairs) := by
  refine .foldlM fun entries pair => Heap.detached_unpack.bind fun parts _ => ?_
  split
  · exact Heap.detached_keyIn.bind fun _ _ => .pure
  · exact .pure

theorem minds_dict : Minds scope text (dict levels v) := by
  refine Within.next (.read fun heap => v.detached_kind.bind fun _ _ => ?_) fun _ =>
    .make fun _ hh => hh.of_lists rfl
  cases v with
  | list r | tuple r => exact detached_entriesOf
  | _ => exact .pure

theorem detached_codeOf : Detached (codeOf h levels v) := by
  refine v.detached_kind.bind fun _ _ => ?_
  split
  · exact .pure
  · exact Heap.detached_repr.bind fun _ _ => .throw rfl

theorem detached_codePoint : Detached (codePoint v) := by
  refine Value.detached_requireInteger.bind fun n _ => .ite (.throw rfl) ?_
  split
  · exact .pure
  · exact .throw rfl

end Building

namespace Inspection

theorem detached_length : Detached (length h v) := by
  refine v.detached_kind.bind fun k _ => .ite .pure ?_
  split
  · exact .pure
  · exact .throw rfl

theorem detached_isInstance : Detached (isInstance h v levels w) := by
  induction levels generalizing w with
  | zero => exact .throw rfl
  | succ levels ih =>
    have hname : ∀ name : Text, Detached (do
        let k ← v.kind
        return (k.name : Text) == name || (k == .bool && name == "int")) :=
      fun _ => v.detached_kind.bind fun _ _ => .pure
    unfold isInstance
    refine w.detached_kind.bind fun _ _ => ?_
    split
    · exact detached_someHolds fun _ => ih
    · exact hname _
    · exact .ite (hname _) (.throw rfl)
    · exact .throw rfl

theorem detached_attribute? : Detached (attribute? h v w) := by
  refine v.detached_kind.bind fun _ _ => ?_
  split
  · exact Heap.detached_key.bind fun _ _ => .pure
  · split
    · exact .pure
    · refine Heap.detached_key.bind fun _ _ => ?_
      split <;> exact .pure

theorem detached_noAttribute : Detached (noAttribute h levels v w) :=
  v.detached_kind.bind fun _ _ => Heap.detached_format.bind fun _ _ => .pure

theorem gives_noAttribute :
    Gives (noAttribute h levels v w) fun fault => fault.isDetached = true :=
  Gives.any.bind fun _ _ => Gives.any.bind fun _ _ => .pure rfl

theorem detached_attributeOr {standIn : Option Value} :
    Detached (attributeOr h levels v w standIn) := by
  refine detached_attribute?.bind fun found _ => ?_
  split
  · exact .pure
  · split
    · exact .pure
    · exact detached_noAttribute.bind fun fault hfault => .throw (gives_noAttribute fault hfault)

theorem minds_setAttribute {value : Value} :
    Minds scope text (setAttribute levels v w value) := by
  unfold setAttribute
  refine Within.get.next fun s => (Within.computed v.detached_kind).next fun _ => ?_
  cases v with
  | dict r =>
    refine (Within.computed Heap.detached_keyIn).next fun key => ?_
    exact .change fun _ hh => hh.of_lists rfl
  | _ =>
    dsimp only
    split
    · exact .detached rfl
    · exact .report detached_noAttribute gives_noAttribute

theorem detached_attributeNames : Detached (attributeNames h levels v) := by
  refine v.detached_kind.bind fun _ _ => ?_
  split
  · exact (Raises.mapM fun _ => Heap.detached_format).bind fun _ _ => .pure
  · exact .pure

theorem detached_hash : Detached (hash h levels v) := Heap.detached_repr.bind fun _ _ => .pure

end Inspection

/-! ## Numbers, dates and documents -/

namespace Mathematics

theorem detached_applied {f : Float → Float} {overflow : Fault} {x : Float}
    (hoverflow : overflow.isDetached = true) : Detached (applied f overflow x) :=
  .ite (.throw rfl) (.ite (.throw hoverflow) .pure)

theorem minds_real (f : Float → Float) : Minds scope text (real f v) :=
  (Within.computed Value.detached_toReal).next fun _ =>
    (Within.computed (detached_applied rfl)).next fun _ => minds_newFloat _

theorem minds_exponential : Minds scope text (exponential v) :=
  (Within.computed Value.detached_toReal).next fun _ =>
    (Within.computed (detached_applied rfl)).next fun _ => minds_newFloat _

theorem minds_scaled (factor : Float) : Minds scope text (scaled factor v) :=
  (Within.computed Value.detached_toReal).next fun _ => minds_newFloat _

theorem detached_logarithm (f : Float → Float) : Detached (logarithm f v) := by
  unfold logarithm
  split
  · refine .ite (.throw rfl) ?_
    split <;> exact .pure
  · exact Value.detached_toReal.bind fun _ _ => detached_applied rfl

theorem minds_logarithmTo : Minds scope text (logarithmTo v w) := by
  refine (Within.computed (detached_logarithm _)).next fun x => ?_
  split
  · exact minds_newFloat x
  · refine (Within.computed (detached_logarithm _)).next fun y => ?_
    refine (Within.computed (Number.detached_computeFloats .div x y)).next fun c => ?_
    exact Operation.minds_ofComputed c

theorem detached_floor : Detached (floor v) := by
  unfold floor
  split
  · exact .pure
  · exact Value.detached_toReal.bind fun x _ => detached_floorOf x

theorem detached_ceiling : Detached (ceiling v) := by
  unfold ceiling
  split
  · exact .pure
  · exact Value.detached_toReal.bind fun x _ => (detached_floorOf (-x)).bind fun _ _ => .pure

theorem detached_factorial : Detached (factorial v) := by
  refine Value.detached_requireNumber.bind fun _ _ => .ite (.throwBind rfl) ?_
  extract_lets behind
  have hbehind : ∀ n, Detached (behind n) := fun n => .ite (.throwBind rfl) .pure
  cases v with
  | float x => exact .ite (.throwBind rfl) ((detached_truncate x).bind fun n _ => hbehind n)
  | nan mark => exact (detached_truncate _).bind fun n _ => hbehind n
  | _ => exact Raises.pure.bind fun n _ => hbehind n

end Mathematics

namespace Clock

theorem minds_now : Minds scope text now :=
  Within.get.next fun _ => minds_newRecord _

theorem minds_today : Minds scope text today := Within.get.next fun _ => .give

theorem minds_seconds : Minds scope text seconds := Within.get.next fun _ => .give

end Clock

namespace Notation

theorem detached_toJson {printing : Nat} : Detached (toJson h printing levels v) := by
  induction levels generalizing v with
  | zero => exact .throw rfl
  | succ levels ih =>
    unfold toJson
    cases v with
    | list r | tuple r => exact (Raises.mapM fun _ => ih).bind fun _ _ => .pure
    | dict r =>
      have hentry : ∀ e : Entry, Detached (do
          let key ← h.format printing e.keyValue
          return (key, ← toJson h printing levels e.value)) :=
        fun e => Heap.detached_format.bind fun _ _ => ih.bind fun _ _ => .pure
      exact (Raises.mapM hentry).bind fun _ _ => .pure
    | set r | library l | record r | function f | complex re im => exact .throw rfl
    | _ => exact .pure

theorem detached_layoutOf {document : Json} : Detached (layoutOf v document) := by
  unfold layoutOf
  split
  · exact .pure
  · refine Value.detached_toInteger.bind fun width _ => ?_
    split
    · exact .pure
    · exact .ite (.throw rfl) .pure

theorem detached_dumps {room : Nat} : Detached (dumps h room v w) :=
  detached_toJson.bind fun _ _ => detached_layoutOf.bind fun _ _ => .ite (.throwBind rfl) .pure

mutual

theorem minds_ofJson (document : Json) : Minds scope text (ofJson document) := by
  cases document with
  | float x =>
    unfold ofJson
    exact minds_newFloat x
  | array items =>
    unfold ofJson
    exact (minds_ofItems items).next fun values => minds_newList values
  | object entries =>
    unfold ofJson
    exact (minds_ofEntries entries #[]).next fun made => .make fun _ hh => hh.of_lists rfl
  | null | bool _ | int _ | text _ =>
    unfold ofJson
    exact .give

theorem minds_ofItems (items : List Json) : Minds scope text (ofItems items) := by
  cases items with
  | nil =>
    unfold ofItems
    exact .give
  | cons item rest =>
    unfold ofItems
    exact (minds_ofJson item).next fun v => (minds_ofItems rest).next fun values => .give

theorem minds_ofEntries (entries : List (Text × Json)) (made : Array Entry) :
    Minds scope text (ofEntries entries made) := by
  cases entries with
  | nil =>
    unfold ofEntries
    exact .give
  | cons entry rest =>
    obtain ⟨key, value⟩ := entry
    unfold ofEntries
    exact (minds_ofJson value).next fun v => minds_ofEntries rest _

end

theorem minds_loads : Minds scope text (loads levels v) := by
  refine (Within.computed v.detached_kind).next fun _ => ?_
  split
  · split
    · exact minds_ofJson _
    · exact .detached rfl
    · exact .detached rfl
    · exact .detached rfl
  · exact .detached rfl

end Notation

namespace Reckoning

theorem detached_flattened {args : List Value} {context : Text} :
    Detached (flattened h args context) := by
  refine Raises.bind (.mapM fun v => v.detached_kind.bind fun _ _ => .pure) fun parts _ => ?_
  split
  · exact .throw rfl
  · exact .pure

theorem detached_extreme {op : OrderOp} {values : List Value} :
    Detached (extreme h op levels values) := by
  cases values with
  | nil => exact .pure
  | cons first rest => exact .foldlM fun _ _ => Heap.detached_ordered.bind fun _ _ => .pure

theorem minds_extreme {op : OrderOp} {args : List Value} {context : Text} :
    Minds scope text (Run.look fun h => do extreme h op levels (← flattened h args context)) :=
  .read fun _ => detached_flattened.bind fun _ _ => detached_extreme

theorem detached_number {context : Text} : Detached (number v context) :=
  Value.detached_requireNumber.bind fun _ _ => .pure

theorem detached_compute (op : BinaryOp) (a b : Number) : Detached (compute op a b) :=
  (Number.detached_compute op a b).bind fun _ _ => .pure

theorem detached_floor (n : Number) : Detached (floor n) := by
  cases n with
  | int n => exact .pure
  | float x => exact detached_floorOf x

theorem detached_whole (n : Number) : Detached (whole n) := by
  cases n with
  | int n => exact .pure
  | float x => exact detached_truncate x

theorem minds_absolute : Minds scope text (absolute v) :=
  (Within.computed detached_number).next fun n => Operation.minds_ofNumber n.absolute

theorem minds_sum : Minds scope text (sum v w) := by
  refine (Within.computed Value.detached_requireNumber).next fun _ => ?_
  refine (Within.read fun _ => Heap.detached_iterate).next fun values => .foldlM fun total u => ?_
  refine (Within.computed detached_number).next fun n => ?_
  exact (Within.computed (Number.detached_compute .add _ n)).next Operation.minds_ofComputed

theorem minds_round : Minds scope text (round v w) := by
  unfold round
  refine (Within.computed Value.detached_requireNumber).next fun _ => ?_
  refine (Within.computed Value.detached_requireInteger).next fun places => ?_
  refine (Within.computed detached_number).next fun n => ?_
  refine (Within.computed (detached_compute .pow _ _)).next fun factor => ?_
  refine (Within.computed (detached_compute .mul _ _)).next fun product => ?_
  refine (Within.computed (detached_compute .add _ _)).next fun shifted => ?_
  refine (Within.computed (detached_floor shifted)).next fun whole => ?_
  refine (Within.computed (detached_compute .div _ _)).next fun result => .ite ?_ ?_
  · exact (Within.computed (detached_whole result)).next fun _ => .give
  · exact Operation.minds_ofNumber result

theorem minds_powerRemainder {c : Computed} : Minds scope text (powerRemainder c v) := by
  have hreal : ∀ n : Number, Minds scope text (do
      Operation.ofNumber (← compute .mod n (← number v "pow()"))) :=
    fun n => (Within.computed detached_number).next fun m =>
      (Within.computed (detached_compute .mod n m)).next Operation.minds_ofNumber
  unfold powerRemainder
  refine (Within.computed Value.detached_requireNumber).next fun _ => ?_
  cases c with
  | complex re im => exact .detached rfl
  | int n => exact hreal (.int n)
  | float x => exact hreal (.float x)

theorem minds_plainPower {limits : Limits} {modulus : Value} :
    Minds scope text (plainPower limits v w modulus) := by
  unfold plainPower
  refine (Within.computed detached_requireBits).next fun _ => ?_
  refine (Within.computed detached_number).next fun a => ?_
  refine (Within.computed detached_number).next fun b => ?_
  refine (Within.computed (Number.detached_compute .pow a b)).next fun c => ?_
  cases modulus with
  | none => exact Operation.minds_ofComputed c
  | _ => exact minds_powerRemainder

theorem minds_power {limits : Limits} {modulus : Value} :
    Minds scope text (power limits v w modulus) := by
  unfold power
  refine (Within.computed Value.detached_requireNumber).next fun _ => ?_
  refine (Within.computed Value.detached_requireNumber).next fun _ => ?_
  split
  · exact minds_plainPower
  · refine (Within.computed Value.detached_requireInteger).next fun m => ?_
    exact (Within.computed (Number.detached_powerMod _ _ m)).next fun _ => .give
  · exact minds_plainPower

theorem minds_quotientAndRest : Minds scope text (quotientAndRest v w) := by
  refine (Within.computed detached_number).next fun m => ?_
  refine (Within.computed detached_number).next fun n => ?_
  refine (Within.computed (Number.detached_divMod m n)).next fun parts => ?_
  refine (Operation.minds_ofNumber _).next fun _ => (Operation.minds_ofNumber _).next fun _ => ?_
  exact minds_newTuple _

theorem minds_range {limits : Limits} {args : List Value} :
    Minds scope text (range limits args) := by
  unfold range
  refine .ite (.throwBind (scope.detached _ rfl)) ?_
  refine (Within.mapM fun v => Within.computed Value.detached_requireInteger).any.next fun bounds => ?_
  refine .ite (.throwBind (scope.detached _ rfl)) (.ite (.throwBind (scope.detached _ rfl)) ?_)
  exact (Within.computed detached_requireSize).next fun _ => minds_newList _

end Reckoning

/-! ## Patterns -/

namespace Searching

theorem patternFault_isDetached (t : Text) (fault : Pattern.ParseFault) :
    (patternFault t fault).isDetached = true := by
  cases fault <;> rfl

theorem detached_compiled : Detached (compiled levels v) := by
  refine v.detached_kind.bind fun _ _ => ?_
  split
  · split
    · exact .pure
    · exact .throw (patternFault_isDetached _ _)
  · exact .throw rfl

theorem minds_record {pattern : Pattern.Whole} {subject : Text} {found : Option Pattern.Found} :
    Minds scope text (record pattern subject found) := by
  cases found with
  | none => exact .give
  | some found => exact minds_newRecord _

theorem minds_subjects : Minds scope text (subjects levels v w) :=
  (Within.computed detached_compiled).next fun _ =>
    (Within.read fun _ => Heap.detached_format).next fun _ => .give

theorem minds_search : Minds scope text (search levels v w) :=
  minds_subjects.next fun _ => minds_record

theorem minds_matchStart : Minds scope text (matchStart levels v w) :=
  minds_subjects.next fun _ => minds_record

theorem minds_shown {subject : Array CodePoint} (found : Pattern.Found) :
    Minds scope text (shown subject found) := by
  unfold shown
  split
  · exact .give
  · exact .give
  · exact minds_newTuple _

theorem minds_findAll : Minds scope text (findAll levels v w) :=
  minds_subjects.next fun _ => (Within.mapM minds_shown).any.next fun _ => minds_newList _

theorem replacementFault_isDetached (t : Text) (fault : Pattern.ReplacementFault) :
    (replacementFault t fault).isDetached = true := by
  unfold replacementFault
  split
  · rfl
  · rfl
  · exact patternFault_isDetached _ _

theorem minds_substitute {replacement : Value} :
    Minds scope text (substitute levels v replacement w) := by
  unfold substitute
  refine (Within.computed detached_compiled).next fun pattern => ?_
  refine (Within.read fun _ => Heap.detached_format).next fun _ => ?_
  refine (Within.read fun _ => Heap.detached_format).next fun _ => ?_
  split
  · exact .detached (replacementFault_isDetached _ _)
  · exact .give

theorem detached_groupAt {groups : List (Option Group)} {n : Int} : Detached (groupAt groups n) := by
  unfold groupAt
  split
  · exact .pure
  · exact .throw rfl

theorem detached_group {subject : Text} {groups : List (Option Group)} :
    Detached (group subject groups v) :=
  Value.detached_toInteger.bind fun _ _ => detached_groupAt.bind fun _ _ => .pure

theorem detached_groupNumber {names : List (Text × Nat)} : Detached (groupNumber h names v) := by
  unfold groupNumber
  split
  · exact .pure
  · refine Heap.detached_key.bind fun _ _ => ?_
    split
    · exact .pure
    · exact .throw rfl

theorem detached_bound {groups : List (Option Group)} {names : List (Text × Nat)}
    {side : Group → Nat} {index : Option Value} : Detached (bound h groups names side index) := by
  unfold bound
  extract_lets behind
  have hbehind : ∀ n, Detached (behind n) := by
    refine fun n => detached_groupAt.bind fun group _ => ?_
    cases group <;> exact .pure
  cases index with
  | none => exact Raises.pure.bind fun n _ => hbehind n
  | some v => exact detached_groupNumber.bind fun n _ => hbehind n

end Searching

end Scriptlet
