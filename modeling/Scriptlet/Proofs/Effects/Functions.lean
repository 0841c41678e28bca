import Scriptlet.Proofs.Effects

/-
  The effects of operators and functions.

  One lemma for each operation that makes or changes something. What only looks at objects has no
  effect and needs none.
-/

namespace Scriptlet

open Run

variable {limits : Limits} {named : Text → Prop} {v w : Value} {levels : Nat}

/-! ## Operators -/

namespace Operation

theorem acts_ofComputed (c : Computed) : Acts limits named (ofComputed c) := by
  cases c with
  | int n => exact .pure _
  | float x => exact .newFloat
  | complex re im => exact .pure _

theorem acts_ofNumber (n : Number) : Acts limits named (ofNumber n) := by
  cases n with
  | int n => exact .pure _
  | float x => exact .newFloat

theorem acts_repeated (v : Value) (count : Int) : Acts limits named (repeated v count) := by
  unfold repeated
  refine .ite .throwBind (Acts.get.bind fun s => Acts.lift.bind fun _ => ?_)
  cases v with
  | list r => exact .newList
  | tuple r => exact .ite (.pure _) .newTuple
  | _ => exact .pure _

theorem acts_multiply : Acts limits named (multiply v w) := by
  unfold multiply
  refine Acts.lift.bind fun _ => .ite ?_ (Acts.lift.bind fun _ => .ite ?_ .throw)
  · cases w.integer? with
    | some n => exact acts_repeated v n
    | none => exact .throw
  · cases v.integer? with
    | some n => exact acts_repeated w n
    | none => exact .throw

theorem acts_join : Acts limits named (join v w) := by
  unfold join
  refine Acts.get.bind fun s => ?_
  split
  · exact .pure _
  · exact .newList
  · exact .ite (.pure _) (.ite (.pure _) .newTuple)
  · exact .throw
  · exact .throw
  · exact .throw
  · exact .throw

theorem acts_without : Acts limits named (without v w) := by
  unfold without
  refine Acts.getBind fun s => ?_
  split
  · exact .object (.newSet fun hkeyed => (hkeyed.set _).filter _)
  · exact .none s

theorem acts_fillTemplate (template : Text) : Acts limits named (fillTemplate limits levels template v) :=
  Acts.look.bind fun _ => Acts.lift.bind fun _ => .pure _

theorem acts_apply (op : BinaryOp) : Acts limits named (apply limits levels op v w) := by
  unfold apply
  split
  · exact Acts.lift.bind fun c => acts_ofComputed c
  · split
    · exact acts_join
    · exact acts_without
    · exact acts_multiply
    · exact acts_fillTemplate _
    · exact .throw

theorem acts_binary (op : BinaryOp) : Acts limits named (binary limits levels op v w) := by
  have hresult : Acts limits named ((apply limits levels op v w).tested (requireSequence limits)) :=
    (acts_apply op).tested
  unfold binary
  refine Acts.lift.bind fun _ => Acts.lift.bind fun _ => ?_
  exact .ite (Acts.look.bind fun _ => hresult) hresult

theorem acts_unary (op : UnaryOp) : Acts limits named (unary op v) := by
  cases op with
  | not => exact Acts.look.bind fun _ => .pure _
  | negative =>
    refine Acts.lift.bind fun _ => ?_
    cases v.number? with
    | some n => exact acts_ofNumber n.negate
    | none => exact .pure _
  | positive =>
    refine Acts.lift.bind fun _ => ?_
    cases v <;> exact .pure _

theorem acts_slice {lower upper step : Value} : Acts limits named (slice v lower upper step) := by
  unfold slice
  refine Acts.lift.bind fun stride => .ite .throwBind ?_
  refine Acts.lift.bind fun _ => Acts.lift.bind fun _ => Acts.get.bind fun s => ?_
  cases v with
  | list r => exact .newList
  | tuple r => exact .ite (.pure _) .newTuple
  | _ => exact .pure _

theorem acts_store {source : Text} {container key value : Value} :
    Acts limits named (store source container key value) := by
  unfold store
  refine Acts.lift.bind fun k => ?_
  cases container with
  | list r =>
    refine Acts.lift.bind fun _ => (Acts.mapFault .lift).bind fun index => Acts.get.bind fun s => ?_
    split
    · exact .change fun _ => .setListItem r _ value
    · exact .throw
  | dict r => exact Acts.lookChange fun h key' hkey => .putEntry r value (Heap.key_of_keyIn hkey)
  | _ => exact .throw

end Operation

/-! ## Surroundings and chance -/

namespace Surroundings

theorem acts_print {values : List Value} : Acts limits named (print limits levels values v) :=
  Acts.look.bind fun _ => .write

theorem acts_input : Acts limits named (input limits levels v) :=
  Acts.look.bind fun _ => Acts.write.bind fun _ => .pure _

theorem acts_openFile : Acts limits named (openFile levels v w) :=
  Acts.look.bind fun _ => Acts.look.bind fun _ => .make fun _ => .newRecord _

end Surroundings

namespace Chance

theorem acts_below (bound : Nat) : Acts limits named (below bound) := by
  unfold below
  refine Acts.get.bind fun s => Acts.bind (fun t => ?_) fun _ => .pure _
  exact .drawn t _

theorem acts_unit : Acts limits named unit := (acts_below _).bind fun _ => .newFloat

theorem acts_between : Acts limits named (between v w) := by
  unfold between
  refine Acts.lift.bind fun a => Acts.lift.bind fun b => .ite ?_ ?_
  · exact (acts_below _).bind fun _ => .pure _
  · exact (Acts.mapM fun n => .lifted).bind fun _ => .throw

theorem acts_choice : Acts limits named (choice v) := by
  refine Acts.look.bind fun values => .ite .throwBind ?_
  exact (acts_below _).bind fun i => .pure _

theorem acts_draw {count : Nat} {items : Array Value} {drawn : List Value} :
    Acts limits named (draw count items drawn) := by
  induction count generalizing items drawn with
  | zero => exact .pure _
  | succ count ih =>
    unfold draw
    exact .ite (.pure _) ((acts_below _).bind fun i => ih)

theorem acts_shuffle : Acts limits named (shuffle v) := by
  unfold shuffle
  cases v with
  | list r =>
    refine Acts.get.bind fun s => acts_draw.bind fun drawn => ?_
    exact .change fun _ => .replaceList r _
  | _ => exact Acts.lift.bind fun _ => .throw

theorem acts_sample : Acts limits named (sample v w) := by
  refine Acts.look.bind fun values => Acts.lift.bind fun n => .ite .throwBind ?_
  exact acts_draw.bind fun drawn => .newList

end Chance

/-! ## Building and inspection -/

namespace Building

theorem acts_float : Acts limits named (float v) := by
  cases v with
  | nan mark => exact .pure _
  | _ => exact Acts.lift.bind fun _ => .newFloat

theorem acts_list : Acts limits named (list v) := Acts.look.bind fun _ => .newList

theorem acts_tuple : Acts limits named (tuple v) := Acts.look.bind fun _ => .newTuple

theorem acts_set : Acts limits named (set v) :=
  Acts.lookMake fun _ => Gives.any.bind fun items _ =>
    (Heap.gives_membersOf items "set()").mono fun _ hmembers => .newSet fun _ => hmembers

theorem gives_entriesOf_keyed {h : Heap} (pairs : List Value) :
    Gives (entriesOf h levels pairs) (Entry.AreKeyed h) := by
  refine Gives.foldlM (.empty h) fun pair _ entries hentries => Gives.any.bind fun parts _ => ?_
  split
  · refine (Heap.gives_keyIn _ "dict()").bind fun key hkey => .pure (hentries.put hkey _)
  · exact .pure hentries

theorem acts_dict : Acts limits named (dict levels v) := by
  refine Acts.lookMake fun h => Gives.any.bind fun _ _ => ?_
  cases v with
  | dict r => exact .pure (.newDict fun hkeyed => hkeyed.dict r)
  | list r | tuple r =>
    exact (gives_entriesOf_keyed _).mono fun _ hentries => .newDict fun _ => hentries
  | _ => exact .pure (.newDict fun _ => .empty h)

end Building

theorem Inspection.acts_setAttribute {value : Value} :
    Acts limits named (setAttribute levels v w value) := by
  unfold setAttribute
  refine Acts.getBind fun s => ?_
  cases v with
  | dict r =>
    show NamedEffects limits named s (Run.after (do
      let key ← liftM (s.heap.keyIn w "setattr()")
      Run.change (·.putEntry r key w value)) s)
    rw [after_bind, liftM_apply]
    cases hkey : s.heap.keyIn w "setattr()" with
    | ok key => exact .object (.putEntry r value (Heap.key_of_keyIn hkey))
    | error fault => exact .none s
  | _ =>
    refine Acts.lift.bind (fun _ => ?_) s
    dsimp only
    split
    · exact .throw
    · exact Acts.lift.bind fun _ => .throw

/-! ## Numbers, dates and documents -/

namespace Mathematics

theorem acts_real (f : Float → Float) : Acts limits named (real f v) :=
  Acts.lift.bind fun _ => Acts.lift.bind fun _ => .newFloat

theorem acts_exponential : Acts limits named (exponential v) :=
  Acts.lift.bind fun _ => Acts.lift.bind fun _ => .newFloat

theorem acts_scaled (factor : Float) : Acts limits named (scaled factor v) :=
  Acts.lift.bind fun _ => .newFloat

theorem acts_logarithmTo : Acts limits named (logarithmTo v w) := by
  unfold logarithmTo
  refine Acts.lift.bind fun x => ?_
  cases w with
  | none => exact .newFloat
  | _ => exact Acts.lift.bind fun y => Acts.lift.bind fun c => Operation.acts_ofComputed c

end Mathematics

namespace Reckoning

theorem acts_absolute : Acts limits named (absolute v) :=
  Acts.lift.bind fun n => Operation.acts_ofNumber n.absolute

theorem acts_sum : Acts limits named (sum v w) := by
  refine Acts.lift.bind fun _ => Acts.look.bind fun values => .foldlM fun total u => ?_
  exact Acts.lift.bind fun n => Acts.lift.bind fun c => Operation.acts_ofComputed c

theorem acts_round : Acts limits named (round v w) := by
  unfold round
  refine Acts.lift.bind fun _ => Acts.lift.bind fun _ => Acts.lift.bind fun _ => ?_
  refine Acts.lift.bind fun _ => Acts.lift.bind fun _ => Acts.lift.bind fun _ => ?_
  refine Acts.lift.bind fun _ => Acts.lift.bind fun result => .ite ?_ ?_
  · exact Acts.lift.bind fun _ => .pure _
  · exact Operation.acts_ofNumber result

theorem acts_powerRemainder {c : Computed} : Acts limits named (powerRemainder c v) := by
  unfold powerRemainder
  refine Acts.lift.bind fun _ => ?_
  cases c with
  | complex re im => exact .throw
  | int n => exact Acts.lift.bind fun _ => Acts.lift.bind fun n => Operation.acts_ofNumber n
  | float x => exact Acts.lift.bind fun _ => Acts.lift.bind fun n => Operation.acts_ofNumber n

theorem acts_plainPower {modulus : Value} : Acts limits named (plainPower limits v w modulus) := by
  unfold plainPower
  refine Acts.lift.bind fun _ => Acts.lift.bind fun _ => Acts.lift.bind fun _ => ?_
  refine Acts.lift.bind fun c => ?_
  cases modulus with
  | none => exact Operation.acts_ofComputed c
  | _ => exact acts_powerRemainder

theorem acts_power {modulus : Value} : Acts limits named (power limits v w modulus) := by
  unfold power
  refine Acts.lift.bind fun _ => Acts.lift.bind fun _ => ?_
  split
  · exact acts_plainPower
  · exact Acts.lift.bind fun _ => Acts.lift.bind fun _ => .pure _
  · exact acts_plainPower

theorem acts_quotientAndRest : Acts limits named (quotientAndRest v w) := by
  refine Acts.lift.bind fun m => Acts.lift.bind fun n => Acts.lift.bind fun (quotient, rest) => ?_
  refine (Operation.acts_ofNumber quotient).bind fun _ => ?_
  exact (Operation.acts_ofNumber rest).bind fun _ => .newTuple

theorem acts_range {args : List Value} : Acts limits named (range limits args) := by
  unfold range
  refine .ite .throwBind ((Acts.mapM fun v => .lifted).bind fun bounds => ?_)
  exact .ite .throwBind (.ite .throwBind (Acts.lift.bind fun _ => .newList))

end Reckoning

namespace Clock

theorem acts_now : Acts limits named now := Acts.get.bind fun _ => .make fun _ => .newRecord _

theorem acts_today : Acts limits named today := Acts.get.bind fun _ => .pure _

theorem acts_seconds : Acts limits named seconds := Acts.get.bind fun _ => .pure _

end Clock

namespace Notation

/-- The entries of a document stand under their texts, whatever objects there are. -/
theorem ofEntries_keyed {h : Heap} {entries : List (Text × Json)} {made made' : Array Entry}
    {s t : State} (hmade : Entry.AreKeyed h made) (hok : ofEntries entries made s = .ok made' t) :
    Entry.AreKeyed h made' := by
  induction entries generalizing made s with
  | nil =>
    unfold ofEntries at hok
    cases hok
    exact hmade
  | cons entry rest ih =>
    obtain ⟨key, value⟩ := entry
    unfold ofEntries at hok
    obtain ⟨v, u, -, hrest⟩ := bind_ok_iff.mp hok
    exact ih (hmade.put rfl v) hrest

mutual

theorem acts_ofJson (document : Json) : Acts limits named (ofJson document) := by
  cases document with
  | float x =>
    unfold ofJson
    exact .newFloat
  | array items =>
    unfold ofJson
    exact (acts_ofItems items).bind fun values => .newList
  | object entries =>
    unfold ofJson
    refine (acts_ofEntries entries #[]).bindOk fun s made t hmade => ?_
    exact .object (.newDict fun _ => ofEntries_keyed (.empty t.heap) hmade)
  | null | bool _ | int _ | text _ =>
    unfold ofJson
    exact .pure _

theorem acts_ofItems (items : List Json) : Acts limits named (ofItems items) := by
  cases items with
  | nil =>
    unfold ofItems
    exact .pure _
  | cons item rest =>
    unfold ofItems
    exact (acts_ofJson item).bind fun v => (acts_ofItems rest).bind fun values => .pure _

theorem acts_ofEntries (entries : List (Text × Json)) (made : Array Entry) :
    Acts limits named (ofEntries entries made) := by
  cases entries with
  | nil =>
    unfold ofEntries
    exact .pure _
  | cons entry rest =>
    obtain ⟨key, value⟩ := entry
    unfold ofEntries
    exact (acts_ofJson value).bind fun v => acts_ofEntries rest _

end

theorem acts_loads : Acts limits named (loads levels v) := by
  unfold loads
  refine Acts.lift.bind fun _ => ?_
  cases v with
  | text t =>
    simp only
    split
    · exact acts_ofJson _
    · exact .throw
    · exact .throw
    · exact .throw
  | _ => exact .throw

end Notation

/-! ## Patterns -/

namespace Searching

theorem acts_record {pattern : Pattern.Whole} {subject : Text} {found : Option Pattern.Found} :
    Acts limits named (record pattern subject found) := by
  cases found with
  | none => exact .pure _
  | some found => exact .make fun _ => .newRecord _

theorem acts_subjects : Acts limits named (subjects levels v w) :=
  Acts.lift.bind fun _ => Acts.look.bind fun _ => .pure _

theorem acts_search : Acts limits named (search levels v w) := acts_subjects.bind fun _ => acts_record

theorem acts_matchStart : Acts limits named (matchStart levels v w) :=
  acts_subjects.bind fun _ => acts_record

theorem acts_shown {subject : Array CodePoint} (found : Pattern.Found) :
    Acts limits named (shown subject found) := by
  unfold shown
  split
  · exact .pure _
  · exact .pure _
  · exact .newTuple

theorem acts_findAll : Acts limits named (findAll levels v w) :=
  acts_subjects.bind fun _ => (Acts.mapM acts_shown).bind fun _ => .newList

theorem acts_substitute {replacement : Value} : Acts limits named (substitute levels v replacement w) := by
  unfold substitute
  refine Acts.lift.bind fun pattern => Acts.look.bind fun _ => Acts.look.bind fun _ => ?_
  split
  · exact .throw
  · exact .pure _

end Searching

end Scriptlet
