import Scriptlet.Call
import Scriptlet.Proofs.Kinds.Operations
import Scriptlet.Proofs.Sorting

/-
  Functions that keep kinds.

  One lemma for each function that makes a value or changes an object: from values with kinds it gives
  a value with a kind. Functions that only look at values need none. The power is the exception, which
  gives what arithmetic makes and does not classify it.
-/

namespace Scriptlet

open Run

variable {text : Text} {v w : Value} {levels : Nat}

/-! ## Surroundings -/

namespace Surroundings

theorem keeps_print {limits : Limits} {values : List Value} :
    Keeps text (print limits levels values v) fun _ => True :=
  Tracks.lookAny.bind fun _ _ => keeps_write limits _

theorem keeps_input {limits : Limits} : Keeps text (input limits levels v) Value.HasKind :=
  Tracks.lookAny.bind fun _ _ => (keeps_write limits _).bind fun _ _ => .pure rfl

theorem keeps_openFile : Keeps text (openFile levels v w) Value.HasKind :=
  Tracks.lookAny.bind fun _ _ => Tracks.lookAny.bind fun _ _ => .make fun _ hh => hh.newRecord _

/-- Leaving never comes back with a value. -/
theorem exit_ne_ok : exit v ≠ .ok w := by
  have hgives : Gives (exit v : Except Fault Value) fun _ => False :=
    Gives.any.bind fun _ _ => Gives.any.bind fun _ _ => .throw
  exact fun h => hgives w h

end Surroundings

/-! ## Chance -/

namespace Chance

theorem keeps_below (bound : Nat) : Keeps text (below bound) fun _ => True := by
  unfold below
  refine Tracks.get.bind fun s hs => ?_
  refine Tracks.bind (.modify fun s hs => ⟨hs.vars, hs.heap⟩) fun _ _ => .pure trivial

theorem keeps_unit : Keeps text unit Value.HasKind :=
  (keeps_below _).bind fun _ _ => keeps_newFloat _

theorem keeps_between : Keeps text (between v w) Value.HasKind := by
  unfold between
  refine Tracks.liftAny.bind fun a _ => Tracks.liftAny.bind fun b _ => ?_
  refine .ite (fun _ => (keeps_below _).bind fun _ _ => .pure rfl) fun _ => ?_
  exact (Tracks.mapM fun n _ => Tracks.lifted .any).bind fun _ _ => .throw

theorem keeps_choice : Keeps text (choice v) Value.HasKind := by
  refine (Tracks.look fun h hh => hh.iterate "choice()").bind fun values hvalues => ?_
  refine .ite (fun _ => .throwBind) fun _ => ?_
  refine (keeps_below _).bind fun i _ => .pure ?_
  cases hget : values[i]? with
  | none => rfl
  | some v => exact hvalues v (List.mem_of_getElem? hget)

/-- Swapping two elements leaves them what they are. -/
theorem mem_swapIfInBounds {items : Array Value} {i j : Nat} (hv : v ∈ items.swapIfInBounds i j) :
    v ∈ items := by
  unfold Array.swapIfInBounds at hv
  split at hv
  · split at hv
    · exact (Array.swap_perm _ _).mem_iff.mp hv
    · exact hv
  · exact hv

theorem keeps_draw {count : Nat} {items : Array Value} {drawn : List Value}
    (hitems : ∀ v ∈ items, v.HasKind) (hdrawn : ∀ v ∈ drawn, v.HasKind) :
    Keeps text (draw count items drawn) fun all => ∀ v ∈ all, v.HasKind := by
  induction count generalizing items drawn with
  | zero => exact .pure hdrawn
  | succ count ih =>
    unfold draw
    refine .ite (fun _ => .pure hdrawn) fun _ => ?_
    refine (keeps_below _).bind fun i _ => ih (fun v hv => ?_) (List.forall_mem_cons.mpr ⟨?_, hdrawn⟩)
    · have hlist := Array.mem_toList_iff.mpr hv
      rw [Array.toList_pop] at hlist
      exact hitems v (mem_swapIfInBounds (Array.mem_toList_iff.mp (List.dropLast_subset _ hlist)))
    · cases hget : items[i]? with
      | none => rfl
      | some v => exact hitems v (Array.mem_of_getElem? hget)

theorem keeps_shuffle : Keeps text (shuffle v) fun _ => True := by
  unfold shuffle
  cases v with
  | list r =>
    refine Tracks.get.bind fun s hs => ?_
    have hnothing : ∀ v ∈ ([] : List Value), v.HasKind := fun v hv => absurd hv List.not_mem_nil
    refine (keeps_draw (hs.heap.list r) hnothing).bind fun drawn hdrawn => ?_
    exact .change fun h hh => hh.replaceList r fun v hv => hdrawn v (List.mem_toArray.mp hv)
  | _ => exact Tracks.liftAny.bind fun _ _ => .throw

theorem keeps_sample : Keeps text (sample v w) Value.HasKind := by
  refine (Tracks.look fun h hh => hh.iterate "sample()").bind fun values hvalues => ?_
  refine Tracks.liftAny.bind fun n _ => .ite (fun _ => .throwBind) fun _ => ?_
  have hitems : ∀ v ∈ values.toArray, v.HasKind := fun v hv => hvalues v (List.mem_toArray.mp hv)
  have hnothing : ∀ v ∈ ([] : List Value), v.HasKind := fun v hv => absurd hv List.not_mem_nil
  exact (keeps_draw hitems hnothing).bind fun drawn hdrawn => keeps_newList hdrawn

end Chance

/-! ## Building -/

namespace Building

theorem gives_elements {h : Heap} (hh : h.HasKinds) :
    Gives (elements h v) fun items => ∀ w ∈ items, w.HasKind := by
  unfold elements
  refine (Gives.bind v.gives_kind) fun _ hv => .pure ?_
  cases hitems : h.elements? v with
  | none => exact List.forall_mem_singleton.mpr hv
  | some items => exact hh.elements? hitems

theorem keeps_float : Keeps text (float v) Value.HasKind := by
  cases v with
  | nan mark => exact .pure rfl
  | _ => exact Tracks.liftAny.bind fun _ _ => keeps_newFloat _

theorem keeps_list : Keeps text (list v) Value.HasKind :=
  (Tracks.look fun _ hh => gives_elements hh).bind fun _ hitems => keeps_newList hitems

theorem keeps_tuple : Keeps text (tuple v) Value.HasKind :=
  (Tracks.look fun _ hh => gives_elements hh).bind fun _ hitems => keeps_newTuple hitems

theorem keeps_set : Keeps text (set v) Value.HasKind := by
  have hmembers : ∀ h : Heap, h.HasKinds → Gives (do
      h.membersOf (← elements h v) "set()") Member.HaveKinds :=
    fun h hh => (gives_elements hh).bind fun _ hitems => Heap.membersOf_haveKinds _ hitems
  exact (Tracks.look hmembers).bind fun _ hm => .make fun _ hh => hh.newSet hm

theorem gives_entriesOf {h : Heap} {pairs : List Value} (hh : h.HasKinds) :
    Gives (entriesOf h levels pairs) Entry.HaveKinds := by
  refine Gives.foldlM .empty fun pair _ entries hentries => ?_
  refine (hh.unpack levels 2).bind fun parts hparts => ?_
  split
  · refine Gives.any.bind fun key _ => .pure (hentries.put (hparts _ ?_) (hparts _ ?_)) <;> simp
  · exact .pure hentries

theorem keeps_dict : Keeps text (dict levels v) Value.HasKind := by
  unfold dict
  refine Tracks.bind (Tracks.look fun h hh => ?_) fun entries hentries =>
    .make fun _ hh => hh.newDict hentries
  refine Gives.any.bind fun _ _ => ?_
  cases v with
  | dict r => exact .pure (hh.dict r)
  | list r | tuple r => exact gives_entriesOf hh
  | _ => exact .pure .empty

end Building

/-! ## Inspection -/

namespace Inspection

theorem gives_attribute? {h : Heap} (hh : h.HasKinds) :
    Gives (attribute? h v w) fun found => ∀ u, found = some u → u.HasKind := by
  have hnone : ∀ u, (none : Option Value) = some u → u.HasKind := by
    intro u hu
    cases hu
  unfold attribute?
  refine Gives.any.bind fun _ _ => ?_
  cases v with
  | dict r =>
    refine Gives.any.bind fun key _ => .pure fun u hu => ?_
    obtain ⟨e, he, rfl⟩ := Entry.find?_mem hu
    exact (hh.dict r e he).2
  | _ =>
    dsimp only
    split
    · exact .pure hnone
    · rename_i m hm
      refine Gives.any.bind fun _ _ => ?_
      cases w with
      | text t => exact .pure fun u hu => Heap.module?_find? hm hu
      | _ => exact .pure hnone

theorem gives_attributeOr {h : Heap} {standIn : Option Value} (hh : h.HasKinds)
    (hstandIn : ∀ u, standIn = some u → u.HasKind) :
    Gives (attributeOr h levels v w standIn) Value.HasKind := by
  refine (gives_attribute? hh).bind fun found hfound => ?_
  cases found with
  | some u => exact .pure (hfound u rfl)
  | none =>
    cases standIn with
    | some u => exact .pure (hstandIn u rfl)
    | none => exact Gives.any.bind fun _ _ => .throw

theorem keeps_setAttribute {value : Value} (hw : w.HasKind) (hvalue : value.HasKind) :
    Keeps text (setAttribute levels v w value) fun _ => True := by
  unfold setAttribute
  refine Tracks.get.bind fun s _ => Tracks.liftAny.bind fun _ _ => ?_
  cases v with
  | dict r =>
    refine Tracks.liftAny.bind fun key _ => ?_
    exact .change fun h hh => hh.putEntry r key hw hvalue
  | _ =>
    dsimp only
    split
    · exact .throw
    · exact Tracks.liftAny.bind fun _ _ => .throw

end Inspection

/-! ## Mathematics -/

namespace Mathematics

theorem keeps_real (f : Float → Float) : Keeps text (real f v) Value.HasKind :=
  Tracks.liftAny.bind fun _ _ => Tracks.liftAny.bind fun _ _ => keeps_newFloat _

theorem keeps_exponential : Keeps text (exponential v) Value.HasKind :=
  Tracks.liftAny.bind fun _ _ => Tracks.liftAny.bind fun _ _ => keeps_newFloat _

theorem keeps_scaled (factor : Float) : Keeps text (scaled factor v) Value.HasKind :=
  Tracks.liftAny.bind fun _ _ => keeps_newFloat _

theorem keeps_logarithmTo : Keeps text (logarithmTo v w) Value.HasKind := by
  unfold logarithmTo
  refine Tracks.liftAny.bind fun x _ => ?_
  cases w with
  | none => exact keeps_newFloat x
  | _ =>
    refine Tracks.liftAny.bind fun y _ => ?_
    refine (Tracks.lift (Number.gives_computeFloats .div x y)).bind fun c hc => ?_
    have hreal : c.IsReal := hc.isReal fun h => nomatch h.1
    exact (Operation.keeps_ofComputed c).mono fun _ h => h hreal

end Mathematics

/-! ## Dates and times -/

namespace Clock

theorem keeps_now : Keeps text now Value.HasKind :=
  Tracks.get.bind fun _ _ => .make fun _ hh => hh.newRecord _

theorem keeps_today : Keeps text today Value.HasKind := Tracks.get.bind fun _ _ => .pure rfl

theorem keeps_seconds : Keeps text seconds Value.HasKind := Tracks.get.bind fun _ _ => .pure rfl

end Clock

/-! ## Documents -/

namespace Notation

mutual

/-- The values of documents have kinds; of a mapping both its keys and its values have. -/
theorem keeps_ofJson (document : Json) : Keeps text (ofJson document) Value.HasKind := by
  cases document with
  | float x =>
    unfold ofJson
    exact keeps_newFloat x
  | array items =>
    unfold ofJson
    exact (keeps_ofItems items).bind fun values hvalues => keeps_newList hvalues
  | object entries =>
    unfold ofJson
    refine (keeps_ofEntries entries .empty).bind fun made hmade => ?_
    exact .make fun h hh => hh.newDict hmade
  | null | bool _ | int _ | text _ =>
    unfold ofJson
    exact .pure rfl

theorem keeps_ofItems (items : List Json) :
    Keeps text (ofItems items) fun values => ∀ v ∈ values, v.HasKind := by
  cases items with
  | nil =>
    unfold ofItems
    exact .pure fun v hv => absurd hv List.not_mem_nil
  | cons item rest =>
    unfold ofItems
    refine (keeps_ofJson item).bind fun v hv => (keeps_ofItems rest).bind fun values hvalues => ?_
    exact .pure (List.forall_mem_cons.mpr ⟨hv, hvalues⟩)

theorem keeps_ofEntries (entries : List (Text × Json)) {made : Array Entry}
    (hmade : Entry.HaveKinds made) : Keeps text (ofEntries entries made) Entry.HaveKinds := by
  cases entries with
  | nil =>
    unfold ofEntries
    exact .pure hmade
  | cons entry rest =>
    obtain ⟨key, value⟩ := entry
    unfold ofEntries
    exact (keeps_ofJson value).bind fun v hv => keeps_ofEntries rest (hmade.put rfl hv)

end

theorem keeps_loads {room : Nat} : Keeps text (loads room v) Value.HasKind := by
  unfold loads
  refine Tracks.liftAny.bind fun _ _ => ?_
  cases v with
  | text t =>
    simp only
    split
    · exact keeps_ofJson _
    · exact .throw
    · exact .throw
    · exact .throw
  | _ => exact .throw

end Notation

/-! ## Numbers -/

namespace Reckoning

/-- What holds of the arguments and of the elements of each holds of all the values laid out. -/
theorem flattened_holds {P : Value → Prop} {h : Heap} {args : List Value} {context : Text}
    (hitems : ∀ v ∈ args, ∀ items, h.elements? v = some items → ∀ w ∈ items, P w)
    (hargs : ∀ v ∈ args, P v) :
    Gives (flattened h args context) fun values => ∀ v ∈ values, P v := by
  have hparts : Gives (args.mapM fun v => do
      let k ← v.kind
      return if k == .list || k == .tuple || k == .set then (h.elements? v).getD [] else [v])
      fun parts => ∀ part ∈ parts, ∀ v ∈ part, P v := by
    refine Gives.mapM fun v hv => Gives.any.bind fun k _ => .pure ?_
    split
    · cases helements : h.elements? v with
      | none => exact fun w hw => absurd hw List.not_mem_nil
      | some items => exact hitems v hv items helements
    · exact List.forall_mem_singleton.mpr (hargs v hv)
  refine hparts.bind fun parts hparts => ?_
  split
  · exact .throw
  · refine .pure fun v hv => ?_
    obtain ⟨part, hpart, hv⟩ := List.mem_flatten.mp hv
    exact hparts part hpart v hv

/-- The extreme of some values is one of them, or nothing where there are none. -/
theorem extreme_holds {P : Value → Prop} {h : Heap} {op : OrderOp} {values : List Value}
    (hnothing : P .none) (hvalues : ∀ v ∈ values, P v) : Gives (extreme h op levels values) P := by
  cases values with
  | nil => exact .pure hnothing
  | cons first rest =>
    obtain ⟨hfirst, hrest⟩ := List.forall_mem_cons.mp hvalues
    refine Gives.foldlM hfirst fun v hv best hbest => Gives.any.bind fun isBetter _ => .pure ?_
    cases isBetter with
    | true => exact hrest v hv
    | false => exact hbest

theorem keeps_extreme {args : List Value} {context : Text} (op : OrderOp)
    (hargs : ∀ v ∈ args, v.HasKind) :
    Keeps text (Run.look fun h => do extreme h op levels (← flattened h args context))
      Value.HasKind :=
  .look fun _ hh => (flattened_holds (fun _ _ _ => hh.elements?) hargs).bind fun _ hvalues =>
    extreme_holds rfl hvalues

theorem keeps_absolute : Keeps text (absolute v) Value.HasKind :=
  Tracks.liftAny.bind fun n _ => Operation.keeps_ofNumber n.absolute

theorem keeps_sum (hw : w.HasKind) : Keeps text (sum v w) Value.HasKind := by
  unfold sum
  refine Tracks.liftAny.bind fun _ _ => ?_
  refine Tracks.lookAny.bind fun values _ => Tracks.foldlM hw fun u _ total _ => ?_
  refine Tracks.liftAny.bind fun n _ => ?_
  have hreal := Number.gives_compute .add (by decide) (total.number?.getD (.int 0)) n
  refine (Tracks.lift hreal).bind fun c hc => ?_
  exact (Operation.keeps_ofComputed c).mono fun _ h => h hc

theorem keeps_round : Keeps text (round v w) Value.HasKind := by
  unfold round
  refine Tracks.liftAny.bind fun _ _ => Tracks.liftAny.bind fun places _ => ?_
  refine Tracks.liftAny.bind fun n _ => Tracks.liftAny.bind fun factor _ => ?_
  refine Tracks.liftAny.bind fun product _ => Tracks.liftAny.bind fun shifted _ => ?_
  refine Tracks.liftAny.bind fun whole _ => Tracks.liftAny.bind fun result _ => ?_
  refine .ite (fun _ => Tracks.liftAny.bind fun _ _ => .pure rfl) fun _ => ?_
  exact Operation.keeps_ofNumber result

theorem keeps_powerRemainder (c : Computed) : Keeps text (powerRemainder c v) Value.HasKind := by
  unfold powerRemainder
  refine Tracks.liftAny.bind fun _ _ => ?_
  have hreal : ∀ n : Number, Keeps text (do
      Operation.ofNumber (← compute .mod n (← number v "pow()"))) Value.HasKind :=
    fun n => Tracks.liftAny.bind fun _ _ => Tracks.liftAny.bind fun _ _ =>
      Operation.keeps_ofNumber _
  cases c with
  | int n => exact hreal (.int n)
  | float x => exact hreal (.float x)
  | complex re im => exact .throw

theorem gives_number (context : Text) :
    Gives (number v context) fun n => n = v.number?.getD (.int 0) :=
  Gives.any.bind fun _ _ => .pure rfl

/-- A power keeps the kinds of the state. It has a kind itself if it is one by a modulus, or if the
power of the two numbers is real. -/
theorem keeps_power {limits : Limits} {modulus : Value} :
    Keeps text (power limits v w modulus) fun u =>
      (modulus ≠ .none ∨
        Gives (Number.compute .pow (v.number?.getD (.int 0)) (w.number?.getD (.int 0)))
          Computed.IsReal) → u.HasKind := by
  have hplain : Keeps text (plainPower limits v w modulus) fun u =>
      (modulus ≠ .none ∨
        Gives (Number.compute .pow (v.number?.getD (.int 0)) (w.number?.getD (.int 0)))
          Computed.IsReal) → u.HasKind := by
    refine Tracks.liftAny.bind fun _ _ => (Tracks.lift (gives_number "pow()")).bind fun a ha => ?_
    refine (Tracks.lift (gives_number "pow()")).bind fun b hb => ?_
    subst ha hb
    refine (Tracks.lift fun c hc => hc).bind fun c hc => ?_
    cases modulus with
    | none =>
      refine (Operation.keeps_ofComputed c).mono fun u hu hreal => hu ?_
      rcases hreal with hmodulus | hreal
      · exact absurd rfl hmodulus
      · exact hreal c hc
    | _ => exact (keeps_powerRemainder c).mono fun _ hu _ => hu
  unfold power
  refine Tracks.liftAny.bind fun _ _ => Tracks.liftAny.bind fun _ _ => ?_
  split
  · exact hplain
  · exact Tracks.liftAny.bind fun _ _ => Tracks.liftAny.bind fun _ _ => .pure fun _ => rfl
  · exact hplain

theorem keeps_quotientAndRest : Keeps text (quotientAndRest v w) Value.HasKind := by
  unfold quotientAndRest
  refine Tracks.liftAny.bind fun m _ => Tracks.liftAny.bind fun n _ => ?_
  refine Tracks.liftAny.bind fun parts _ => ?_
  refine (Operation.keeps_ofNumber _).bind fun a ha => (Operation.keeps_ofNumber _).bind fun b hb => ?_
  exact keeps_newTuple (List.forall_mem_cons.mpr ⟨ha, List.forall_mem_singleton.mpr hb⟩)

theorem keeps_range {limits : Limits} {args : List Value} :
    Keeps text (range limits args) Value.HasKind := by
  unfold range
  refine .ite (fun _ => .throwBind) fun _ => ?_
  refine (Tracks.mapM fun v _ => Tracks.lifted .any).bind fun bounds _ => ?_
  refine .ite (fun _ => .throwBind) fun _ => .ite (fun _ => .throwBind) fun _ => ?_
  refine Tracks.liftAny.bind fun _ _ => keeps_newList fun v hv => ?_
  obtain ⟨n, -, rfl⟩ := List.mem_map.mp hv
  rfl

end Reckoning

/-! ## Patterns -/

namespace Searching

theorem keeps_record {pattern : Pattern.Whole} {subject : Text} {found : Option Pattern.Found} :
    Keeps text (record pattern subject found) Value.HasKind := by
  cases found with
  | none => exact .pure rfl
  | some found => exact .make fun _ hh => hh.newRecord _

theorem keeps_subjects {room : Nat} : Keeps text (subjects room v w) fun _ => True :=
  Tracks.liftAny.bind fun _ _ => Tracks.lookAny.bind fun _ _ => .pure trivial

theorem keeps_search {room : Nat} : Keeps text (search room v w) Value.HasKind :=
  keeps_subjects.bind fun _ _ => keeps_record

theorem keeps_matchStart {room : Nat} : Keeps text (matchStart room v w) Value.HasKind :=
  keeps_subjects.bind fun _ _ => keeps_record

theorem keeps_shown {subject : Array CodePoint} {found : Pattern.Found} :
    Keeps text (shown subject found) Value.HasKind := by
  unfold shown
  split
  · exact .pure rfl
  · exact .pure rfl
  · refine keeps_newTuple fun v hv => ?_
    obtain ⟨group, -, rfl⟩ := List.mem_map.mp hv
    rfl

theorem keeps_findAll {room : Nat} : Keeps text (findAll room v w) Value.HasKind :=
  keeps_subjects.bind fun _ _ => (Tracks.mapM fun _ _ => keeps_shown).bind fun _ hvalues =>
    keeps_newList hvalues

theorem keeps_substitute {room : Nat} {subject : Value} :
    Keeps text (substitute room v w subject) Value.HasKind := by
  unfold substitute
  refine Tracks.liftAny.bind fun pattern _ => Tracks.lookAny.bind fun replacement _ => ?_
  refine Tracks.lookAny.bind fun _ _ => ?_
  cases Pattern.parseReplacement pattern replacement with
  | error fault => exact .throw
  | ok parts => exact .pure rfl

theorem groupText_hasKind (subject : Text) (group : Option Group) :
    (groupText subject group).HasKind := by
  cases group <;> rfl

theorem gives_group {subject : Text} {groups : List (Option Group)} :
    Gives (group subject groups v) Value.HasKind :=
  Gives.any.bind fun _ _ => Gives.any.bind fun _ _ => .pure (groupText_hasKind subject _)

end Searching

end Scriptlet
