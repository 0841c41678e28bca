import Scriptlet.Member
import Scriptlet.Proofs.Kinds

/-
  Objects that hold values with kinds.

  What is read from objects whose values have kinds has a kind, and objects stay so when values with
  kinds are put into them.
-/

namespace Scriptlet

variable {h : Heap} {v w : Value}

/-! ## Kinds -/

theorem Value.hasKind_of_kind {k : Kind} (hv : v.kind = .ok k) : v.HasKind := by
  unfold Value.kind at hv
  unfold Value.HasKind
  split at hv
  · rename_i hkind
    rw [hkind]
    rfl
  · cases hv

/-! ## Entries and members -/

theorem Entry.find?_mem {entries : Array Entry} {key : Key} (hv : Entry.find? entries key = some v) :
    ∃ e ∈ entries, e.value = v := by
  obtain ⟨e, he, rfl⟩ := Option.map_eq_some_iff.mp hv
  exact ⟨e, Array.mem_of_find?_eq_some he, rfl⟩

theorem Entry.mem_put {entries : Array Entry} {key : Key} {e : Entry}
    (he : e ∈ Entry.put entries key v w) :
    (e.keyValue = v ∧ e.value = w) ∨ ∃ old ∈ entries, e.keyValue = old.keyValue ∧
      (e.value = old.value ∨ e.value = w) := by
  unfold Entry.put at he
  split at he
  · obtain ⟨i, hi, hget⟩ := Array.getElem_of_mem he
    rw [Array.getElem_modify] at hget
    rw [Array.size_modify] at hi
    split at hget
    · exact .inr ⟨_, Array.getElem_mem hi, by rw [← hget], .inr (by rw [← hget])⟩
    · exact .inr ⟨_, Array.getElem_mem hi, by rw [hget], .inl (by rw [hget])⟩
  · rcases Array.mem_push.mp he with he | rfl
    · exact .inr ⟨e, he, rfl, .inl rfl⟩
    · exact .inl ⟨rfl, rfl⟩

theorem Member.mem_insert {members : Array Member} {key : Key} {m : Member}
    (hm : m ∈ Member.insert members key v) : m.value = v ∨ m ∈ members := by
  unfold Member.insert at hm
  split at hm
  · exact .inr hm
  · rcases Array.mem_push.mp hm with hm | rfl
    · exact .inr hm
    · exact .inl rfl

theorem Entry.HaveKinds.empty : Entry.HaveKinds #[] := by
  intro e he
  cases Array.not_mem_empty e he

theorem Entry.HaveKinds.put {entries : Array Entry} {key : Key} (hentries : HaveKinds entries)
    (hv : v.HasKind) (hw : w.HasKind) : HaveKinds (Entry.put entries key v w) := by
  intro e he
  rcases Entry.mem_put he with ⟨hkey, hvalue⟩ | ⟨old, hold, hkey, hvalue⟩
  · rw [hkey, hvalue]
    exact ⟨hv, hw⟩
  · obtain ⟨hkeyKind, hvalueKind⟩ := hentries old hold
    rw [hkey]
    rcases hvalue with hvalue | hvalue
    · rw [hvalue]
      exact ⟨hkeyKind, hvalueKind⟩
    · rw [hvalue]
      exact ⟨hkeyKind, hw⟩

theorem Member.HaveKinds.empty : Member.HaveKinds #[] := by
  intro m hm
  cases Array.not_mem_empty m hm

theorem Member.HaveKinds.insert {members : Array Member} {key : Key} (hmembers : HaveKinds members)
    (hv : v.HasKind) : HaveKinds (Member.insert members key v) := by
  intro m hm
  rcases Member.mem_insert hm with hm | hm
  · rw [hm]
    exact hv
  · exact hmembers m hm

/-! ## Objects -/

namespace Heap.HasKinds

theorem initial : Heap.initial.HasKinds where
  lists := by
    intro items hitems v hv
    cases List.mem_singleton.mp (Array.mem_toList_iff.mpr hitems)
    cases List.mem_singleton.mp (Array.mem_toList_iff.mpr hv)
    rfl
  tuples := by
    intro items hitems v hv
    cases List.mem_singleton.mp (Array.mem_toList_iff.mpr hitems)
    cases Array.not_mem_empty v hv
  dicts := fun entries hentries => by cases Array.not_mem_empty entries hentries
  sets := fun members hmembers => by cases Array.not_mem_empty members hmembers

/-- What stands at a place, or nothing. -/
theorem getD_of_forall {α : Type} {p : Array α → Prop} {arrays : Array (Array α)} {r : Ref}
    (hall : ∀ items ∈ arrays, p items) (hempty : p #[]) : p (arrays.getD r #[]) := by
  rw [Array.getD_eq_getD_getElem?]
  cases hget : arrays[r]? with
  | none => exact hempty
  | some items => exact hall items (Array.mem_of_getElem? hget)

/-- What stands at a place after it has been changed. -/
theorem modify_of_forall {α : Type} {p : Array α → Prop} {arrays : Array (Array α)} {r : Ref}
    {f : Array α → Array α} (hall : ∀ items ∈ arrays, p items)
    (hf : ∀ items, p items → p (f items)) : ∀ items ∈ arrays.modify r f, p items := by
  intro items hitems
  obtain ⟨i, hi, rfl⟩ := Array.getElem_of_mem hitems
  rw [Array.size_modify] at hi
  rw [Array.getElem_modify]
  split
  · exact hf _ (hall _ (Array.getElem_mem hi))
  · exact hall _ (Array.getElem_mem hi)

/-- What stands at all places with one more. -/
theorem push_of_forall {α : Type} {p : Array α → Prop} {arrays : Array (Array α)} {new : Array α}
    (hall : ∀ items ∈ arrays, p items) (hnew : p new) : ∀ items ∈ arrays.push new, p items := by
  intro items hitems
  rcases Array.mem_push.mp hitems with hitems | rfl
  · exact hall items hitems
  · exact hnew

variable (hh : h.HasKinds)

include hh

theorem list (r : Ref) : ∀ v ∈ h.list r, v.HasKind :=
  getD_of_forall hh.lists fun v hv => by cases Array.not_mem_empty v hv

theorem tuple (r : Ref) : ∀ v ∈ h.tuple r, v.HasKind :=
  getD_of_forall hh.tuples fun v hv => by cases Array.not_mem_empty v hv

theorem dict (r : Ref) : Entry.HaveKinds (h.dict r) := getD_of_forall hh.dicts .empty

theorem set (r : Ref) : Member.HaveKinds (h.set r) := getD_of_forall hh.sets .empty

theorem newList {items : Array Value} (hitems : ∀ v ∈ items, v.HasKind) :
    (h.newList items).1.HasKind ∧ (h.newList items).2.HasKinds :=
  ⟨rfl, push_of_forall hh.lists hitems, hh.tuples, hh.dicts, hh.sets⟩

theorem newTuple {items : Array Value} (hitems : ∀ v ∈ items, v.HasKind) :
    (h.newTuple items).1.HasKind ∧ (h.newTuple items).2.HasKinds := by
  unfold Heap.newTuple
  split
  · exact ⟨rfl, hh⟩
  · exact ⟨rfl, hh.lists, push_of_forall hh.tuples hitems, hh.dicts, hh.sets⟩

theorem newDict {entries : Array Entry} (hentries : Entry.HaveKinds entries) :
    (h.newDict entries).1.HasKind ∧ (h.newDict entries).2.HasKinds :=
  ⟨rfl, hh.lists, hh.tuples, push_of_forall hh.dicts hentries, hh.sets⟩

theorem newSet {members : Array Member} (hmembers : Member.HaveKinds members) :
    (h.newSet members).1.HasKind ∧ (h.newSet members).2.HasKinds :=
  ⟨rfl, hh.lists, hh.tuples, hh.dicts, push_of_forall hh.sets hmembers⟩

theorem newRecord (record : Record) :
    (h.newRecord record).1.HasKind ∧ (h.newRecord record).2.HasKinds :=
  ⟨rfl, hh.lists, hh.tuples, hh.dicts, hh.sets⟩

theorem newFloat (x : Float) : (h.newFloat x).1.HasKind ∧ (h.newFloat x).2.HasKinds := by
  unfold Heap.newFloat
  split
  · exact ⟨rfl, hh⟩
  · exact ⟨rfl, hh.lists, hh.tuples, hh.dicts, hh.sets⟩

theorem pushList (r : Ref) (hv : v.HasKind) : (h.pushList r v).HasKinds := by
  have hpush : ∀ items : Array Value, (∀ w ∈ items, w.HasKind) → ∀ w ∈ items.push v, w.HasKind := by
    intro items hitems w hw
    rcases Array.mem_push.mp hw with hw | rfl
    · exact hitems w hw
    · exact hv
  exact ⟨modify_of_forall hh.lists hpush, hh.tuples, hh.dicts, hh.sets⟩

theorem setListItem (r : Ref) (i : Nat) (hv : v.HasKind) : (h.setListItem r i v).HasKinds := by
  have hset : ∀ items : Array Value, (∀ w ∈ items, w.HasKind) →
      ∀ w ∈ items.setIfInBounds i v, w.HasKind := by
    intro items hitems w hw
    rcases Array.mem_or_eq_of_mem_setIfInBounds hw with hw | rfl
    · exact hitems w hw
    · exact hv
  exact ⟨modify_of_forall hh.lists hset, hh.tuples, hh.dicts, hh.sets⟩

theorem replaceList (r : Ref) {items : Array Value} (hitems : ∀ v ∈ items, v.HasKind) :
    (h.replaceList r items).HasKinds :=
  ⟨modify_of_forall hh.lists fun _ _ => hitems, hh.tuples, hh.dicts, hh.sets⟩

theorem putEntry (r : Ref) (key : Key) (hv : v.HasKind) (hw : w.HasKind) :
    (h.putEntry r key v w).HasKinds := by
  refine ⟨hh.lists, hh.tuples, ?_, hh.sets⟩
  exact modify_of_forall hh.dicts fun entries hentries => .put hentries hv hw

end Heap.HasKinds

/-! ## Reading -/

/-- A kind is only given to what has one. -/
theorem Value.gives_kind (v : Value) : Gives v.kind fun _ => v.HasKind :=
  fun _ hk => hasKind_of_kind hk

theorem mem_of_lookup {α β : Type} [BEq α] [LawfulBEq α] {a : α} {b : β} {entries : List (α × β)}
    (h : entries.lookup a = some b) : (a, b) ∈ entries := by
  obtain ⟨before, behind, rfl, -⟩ := List.lookup_eq_some_iff.mp h
  exact List.mem_append_right _ List.mem_cons_self

theorem Library.members_haveKinds (l : Library) : ∀ p ∈ l.members, p.2.HasKind := by
  intro p hp
  rcases List.mem_append.mp hp with hp | hp
  · cases l with
    | math | datetime | os | system =>
      simp only [List.mem_cons, List.not_mem_nil, or_false] at hp
      rcases hp with rfl | rfl | rfl <;> rfl
    | _ => cases hp
  · obtain ⟨f, -, rfl⟩ := List.mem_map.mp hp
    rfl

theorem Record.members_haveKinds (r : Ref) (record : Record) :
    ∀ p ∈ record.members r, p.2.HasKind := by
  intro p hp
  cases record with
  | file _ _ | moment _ =>
    simp only [Record.members, List.mem_cons, List.not_mem_nil, or_false] at hp
    rcases hp with rfl | rfl | rfl | rfl | rfl | rfl | rfl <;> rfl
  | found _ _ _ =>
    simp only [Record.members, List.mem_cons, List.not_mem_nil, or_false] at hp
    rcases hp with rfl | rfl | rfl | rfl <;> rfl

namespace Heap

theorem module?_find? {m : Module} {name : Text} (hm : h.module? v = some m)
    (hw : m.find? name = some w) : w.HasKind := by
  have hmem := mem_of_lookup hw
  unfold module? at hm
  split at hm
  · cases hm
    exact Library.members_haveKinds _ _ hmem
  · obtain ⟨record, -, rfl⟩ := Option.map_eq_some_iff.mp hm
    exact Record.members_haveKinds _ record _ hmem
  · cases hm

theorem module?_member {m : Module} (name : Text) (hm : h.module? v = some m) :
    Gives (m.member name) Value.HasKind := by
  unfold Module.member
  cases hfind : m.find? name with
  | none => exact .throw
  | some w => exact .pure (module?_find? hm hfind)

namespace HasKinds

variable (hh : h.HasKinds)

include hh

theorem elements? {items : List Value} (hitems : h.elements? v = some items) :
    ∀ w ∈ items, w.HasKind := by
  intro w hw
  cases v with
  | text t =>
    cases hitems
    obtain ⟨c, -, rfl⟩ := List.mem_map.mp hw
    rfl
  | list r =>
    cases hitems
    exact hh.list r w (Array.mem_toList_iff.mp hw)
  | tuple r =>
    cases hitems
    exact hh.tuple r w (Array.mem_toList_iff.mp hw)
  | dict r =>
    cases hitems
    obtain ⟨e, he, rfl⟩ := List.mem_map.mp hw
    exact (hh.dict r e (Array.mem_toList_iff.mp he)).1
  | set r =>
    cases hitems
    obtain ⟨m, hm, rfl⟩ := List.mem_map.mp hw
    exact hh.set r m (Array.mem_toList_iff.mp hm)
  | _ => cases hitems

theorem iterate (context : Text) :
    Gives (h.iterate v context) fun items => ∀ w ∈ items, w.HasKind := by
  unfold Heap.iterate
  refine Gives.any.bind fun k _ => ?_
  cases hitems : h.elements? v with
  | none => exact .throw
  | some items => exact .pure (hh.elements? hitems)

theorem unpack (levels count : Nat) :
    Gives (h.unpack levels v count) fun items => ∀ w ∈ items, w.HasKind := by
  have hrefuse : ∀ {text : Text}, Gives (do
      throw (.badValue (text ++ (← h.repr levels v))) : Except Fault (List Value))
        fun items => ∀ w ∈ items, w.HasKind :=
    fun {text} => Gives.any.bind fun _ _ => .throw
  unfold Heap.unpack
  refine Gives.any.bind fun k _ => ?_
  cases v with
  | list r =>
    refine .ite (fun _ => .pure fun w hw => ?_) fun _ => hrefuse
    exact hh.list r w (Array.mem_toList_iff.mp hw)
  | tuple r =>
    refine .ite (fun _ => .pure fun w hw => ?_) fun _ => hrefuse
    exact hh.tuple r w (Array.mem_toList_iff.mp hw)
  | _ => exact hrefuse

theorem itemAt (index : Int) : Gives (h.itemAt v index) Value.HasKind := by
  -- An item found at its place is one of the sequence's.
  have hpicked : ∀ {items : Array Value} {w : Value}, (∀ w ∈ items, w.HasKind) →
      (placeOf items.size index).bind (items[·]?) = some w → w.HasKind := by
    intro items w hitems hw
    obtain ⟨i, -, hi⟩ := Option.bind_eq_some_iff.mp hw
    exact hitems w (Array.mem_of_getElem? hi)
  unfold Heap.itemAt
  cases v with
  | text t =>
    simp only
    split
    · exact .pure rfl
    · exact .throw
  | list r =>
    simp only
    split
    · rename_i hw
      exact .pure (hpicked (hh.list r) hw)
    · exact .throw
  | tuple r =>
    simp only
    split
    · rename_i hw
      exact .pure (hpicked (hh.tuple r) hw)
    · exact .throw
  | _ => exact .pure rfl

theorem lookUp (levels : Nat) {index : Value} :
    Gives (h.lookUp levels v index) fun found => ∀ w, found = .ok w → w.HasKind := by
  unfold Heap.lookUp
  refine Gives.any.bind fun k _ => ?_
  refine .ite (fun _ => ?_) fun _ => ?_
  · refine Gives.any.bind fun i _ => (hh.itemAt i).bind fun w hw => .pure fun w' h => ?_
    cases h
    exact hw
  · cases v with
    | dict r =>
      refine Gives.any.bind fun key _ => ?_
      cases hfind : Entry.find? (h.dict r) key with
      | some w =>
        obtain ⟨e, he, rfl⟩ := Entry.find?_mem hfind
        refine .pure fun w' hw => ?_
        cases hw
        exact (hh.dict r e he).2
      | none =>
        -- What is not there is no value.
        intro found hfound w hw
        subst hw
        change h.missingKey levels index = _ at hfound
        unfold missingKey at hfound
        split at hfound <;> cases hfound
    | _ => exact .throw

end HasKinds

theorem membersOf_haveKinds {values : List Value} (context : Text)
    (hvalues : ∀ v ∈ values, v.HasKind) :
    Gives (h.membersOf values context) Member.HaveKinds := by
  unfold membersOf
  refine Gives.foldlM .empty fun v hv members hmembers => ?_
  exact Gives.any.bind fun key _ => .pure (hmembers.insert (hvalues v hv))

end Heap

end Scriptlet
