import Scriptlet.Proofs.Escape.Expressions
import Scriptlet.Proofs.Keys.Same
import Scriptlet.Proofs.Keys.Whole

/-
  Storing and reading.

  A store under an index or a key and a subscript read the index or key each by itself. They mean the same
  place by it.

  What is proved:
    1. `Entry.find?_put` — of the entries of a mapping, a store changes what is under its key and no more.
    2. `Heap.render_congr` — what has a key is printed the same, whatever lists and mappings hold.
    3. `State.Reachable.stores` — what is stored is read back, everything else is read as before, and a store
       that fails changes nothing.
-/

namespace Scriptlet

/-! ## Entries -/

section Modify

variable {α : Type} {p : α → Bool} {f : α → α}

theorem find?_modify_self {xs : List α} {i : Nat} (hf : ∀ a, p (f a) = p a)
    (hfirst : xs.findIdx? p = some i) : (xs.modify i f).find? p = (xs.find? p).map f := by
  induction xs generalizing i with
  | nil => cases hfirst
  | cons x xs ih =>
    rw [List.findIdx?_cons] at hfirst
    cases hx : p x with
    | true =>
      rw [hx, if_pos rfl] at hfirst
      cases hfirst
      rw [List.modify_zero_cons, List.find?_cons_of_pos (by rw [hf, hx]), List.find?_cons_of_pos hx]
      rfl
    | false =>
      rw [hx, if_neg Bool.false_ne_true] at hfirst
      obtain ⟨j, hj, rfl⟩ := Option.map_eq_some_iff.mp hfirst
      rw [List.modify_succ_cons, List.find?_cons_of_neg (by rw [hx]; exact Bool.false_ne_true),
        List.find?_cons_of_neg (by rw [hx]; exact Bool.false_ne_true), ih hj]

theorem find?_modify_of_ne {xs : List α} {i : Nat} (hf : ∀ a, p (f a) = p a)
    (hne : ∀ a, xs[i]? = some a → p a = false) : (xs.modify i f).find? p = xs.find? p := by
  induction xs generalizing i with
  | nil => rw [List.modify_nil]
  | cons x xs ih =>
    cases i with
    | zero =>
      have hx : p x = false := hne x rfl
      rw [List.modify_zero_cons, List.find?_cons_of_neg (by rw [hf, hx]; exact Bool.false_ne_true),
        List.find?_cons_of_neg (by rw [hx]; exact Bool.false_ne_true)]
    | succ i =>
      have hrest := ih hne
      rw [List.modify_succ_cons, List.find?_cons, List.find?_cons, hrest]

end Modify

namespace Entry

variable {entries : Array Entry} {key key' : Key} {keyValue value : Value}

theorem find?_eq_toList (entries : Array Entry) (key : Key) :
    find? entries key = (entries.toList.find? (·.key == key)).map Entry.value := by
  rw [find?, Array.find?_toList]

/-- The entry with another value. -/
def withValue (e : Entry) (value : Value) : Entry := { e with value := value }

/-- A store changes what is under its key and no more. -/
theorem find?_put : find? (put entries key keyValue value) key' =
    if key' = key then some value else find? entries key' := by
  rw [find?_eq_toList, find?_eq_toList]
  unfold put
  cases hfound : entries.findIdx? (·.key == key) with
  | some i =>
    have hfirst : entries.toList.findIdx? (·.key == key) = some i := by
      rw [← List.findIdx?_toArray]
      exact hfound
    obtain ⟨hi, hkey, -⟩ := List.findIdx?_eq_some_iff_getElem.mp hfirst
    show Option.map _ ((entries.modify i (withValue · value)).toList.find? _) = _
    rw [Array.toList_modify]
    by_cases heq : key' = key
    · subst heq
      have hsome : (entries.toList.find? (·.key == key')).isSome :=
        List.find?_isSome.mpr ⟨_, List.getElem_mem hi, hkey⟩
      obtain ⟨e, he⟩ := Option.isSome_iff_exists.mp hsome
      rw [if_pos rfl, find?_modify_self (f := (withValue · value)) (fun _ => rfl) hfirst, he]
      rfl
    · rw [if_neg heq, find?_modify_of_ne (f := (withValue · value)) (fun _ => rfl) fun e he => ?_]
      obtain ⟨_, rfl⟩ := List.getElem?_eq_some_iff.mp he
      rw [beq_iff_eq.mp hkey]
      exact beq_eq_false_iff_ne.mpr (Ne.symm heq)
  | none =>
    have hnone : entries.toList.find? (·.key == key) = none := by
      rw [Array.find?_toList]
      exact Array.find?_eq_none.mpr fun e he => Bool.not_eq_true _ ▸ Array.findIdx?_eq_none_iff.mp hfound e he
    show Option.map _ ((entries.push ⟨key, keyValue, value⟩).toList.find? _) = _
    rw [Array.toList_push, List.find?_append]
    by_cases heq : key' = key
    · subst heq
      rw [if_pos rfl, hnone, List.find?_singleton, if_pos (beq_self_eq_true _)]
      rfl
    · rw [if_neg heq, List.find?_singleton, if_neg fun hsame => heq (beq_iff_eq.mp hsame).symm,
        Option.or_none]

/-- A key that is there is kept where it is. -/
theorem keyValues_put_of_mem (hmem : ∃ e ∈ entries, e.key = key) :
    (put entries key keyValue value).toList.map Entry.keyValue = entries.toList.map Entry.keyValue := by
  unfold put
  cases hfound : entries.findIdx? (·.key == key) with
  | some i =>
    refine List.ext_getElem (by simp) fun j hj hj' => ?_
    simp only [List.getElem_map, Array.getElem_toList, Array.getElem_modify]
    split <;> rfl
  | none =>
    obtain ⟨e, he, rfl⟩ := hmem
    exact absurd (Array.findIdx?_eq_none_iff.mp hfound e he) (by simp)

/-- A key that is not there comes last. -/
theorem keyValues_put_of_notMem (hnew : ∀ e ∈ entries, e.key ≠ key) :
    (put entries key keyValue value).toList.map Entry.keyValue =
      entries.toList.map Entry.keyValue ++ [keyValue] := by
  have hnone : entries.findIdx? (·.key == key) = none :=
    Array.findIdx?_eq_none_iff.mpr fun e he => beq_eq_false_iff_ne.mpr (hnew e he)
  rw [put, hnone, Array.toList_push, List.map_append]
  rfl

end Entry

/-! ## Objects that stay -/

namespace Heap

variable {h h' : Heap} {key : Key} {n : Nat} {v : Value}

/-- Keys depend on no objects but tuples. -/
theorem keyWithin_congr (htuples : h'.tuples = h.tuples) (n : Nat) (v : Value) :
    h'.keyWithin n v = h.keyWithin n v := by
  induction n generalizing v with
  | zero => rfl
  | succ n ih =>
    cases v with
    | tuple r =>
      unfold keyWithin
      simp only [htuples, funext ih]
    | _ => rfl

theorem key_congr (htuples : h'.tuples = h.tuples) (v : Value) : h'.key v = h.key v := by
  unfold Heap.key
  rw [htuples, keyWithin_congr htuples]

theorem keyIn_congr (htuples : h'.tuples = h.tuples) (v : Value) (context : Text) :
    h'.keyIn v context = h.keyIn v context := by
  unfold keyIn
  rw [key_congr htuples]

theorem mapM_congr {α β ε : Type} {f g : α → Except ε β} {as : List α} (hfg : ∀ a ∈ as, f a = g a) :
    as.mapM f = as.mapM g := by
  induction as with
  | nil => rfl
  | cons a as ih =>
    obtain ⟨hfirst, hrest⟩ := List.forall_mem_cons.mp hfg
    rw [List.mapM_cons, List.mapM_cons, hfirst, ih hrest]

/-- What has a key is printed the same, whatever lists, mappings and sets hold. -/
theorem render_congr (htuples : h'.tuples = h.tuples) (hrecords : h'.records = h.records)
    (style : PrintStyle) (hv : h.keyWithin n v = .ok key) (levels : Nat) (within : List Value) :
    h'.render style levels within v = h.render style levels within v := by
  induction levels generalizing n v key within with
  | zero => rfl
  | succ levels ih =>
    obtain ⟨n, rfl⟩ := exists_of_keyWithin hv
    cases v with
    | tuple r =>
      obtain ⟨parts, hparts, -⟩ := exists_parts_of_key_tuple hv
      have hitems : (h.tuple r).toList.mapM (h'.render style levels (.tuple r :: within)) =
          (h.tuple r).toList.mapM (h.render style levels (.tuple r :: within)) := by
        refine mapM_congr fun item hitem => ?_
        obtain ⟨part, hpart⟩ := exists_of_mapM_ok hparts item hitem
        exact ih hpart _
      have htuple : h'.tuple r = h.tuple r := by rw [tuple, tuple, htuples]
      unfold render
      simp only [htuple, hitems]
    | record r =>
      unfold render
      simp only [record?, hrecords]
    | list r | dict r | set r => cases hv
    | _ => rfl

end Heap

/-! ## Lists -/

namespace Value

/-- The place that a value is the index of in a sequence of a length. -/
def placeIn? (v : Value) (length : Nat) : Option Nat := v.integer?.bind (placeOf length)

theorem placeOf_eq_some_iff {length i : Nat} {index : Int} : placeOf length index = some i ↔
    i < length ∧ (index = i ∨ index = i - length) := by
  unfold placeOf
  by_cases hsign : index < 0
  · simp only [if_pos hsign, Bool.and_eq_true, decide_eq_true_eq, Option.ite_none_right_eq_some,
      Option.some.injEq]
    omega
  · simp only [if_neg hsign, Bool.and_eq_true, decide_eq_true_eq, Option.ite_none_right_eq_some,
      Option.some.injEq]
    omega

theorem placeIn?_lt {v : Value} {length i : Nat} (hv : v.placeIn? length = some i) : i < length := by
  obtain ⟨index, -, hplace⟩ := Option.bind_eq_some_iff.mp hv
  exact (placeOf_eq_some_iff.mp hplace).1

/-- An index has a place just if it counts to an element, from the front or from the end. -/
theorem exists_placeIn?_iff {v : Value} {length : Nat} : (∃ i, v.placeIn? length = some i) ↔
    ∃ index, v.integer? = some index ∧ -(length : Int) ≤ index ∧ index < length := by
  simp only [placeIn?, Option.bind_eq_some_iff, placeOf_eq_some_iff]
  constructor
  · rintro ⟨i, index, hindex, hplace⟩
    exact ⟨index, hindex, by omega, by omega⟩
  · rintro ⟨index, hindex, hlow, hhigh⟩
    by_cases hsign : 0 ≤ index
    · exact ⟨index.toNat, index, hindex, by omega⟩
    · exact ⟨(index + length).toNat, index, hindex, by omega⟩

end Value

namespace Heap

variable {h h' : Heap} {k : Value} {r : Ref} {i : Nat}

theorem list_setListItem (h : Heap) (r : Ref) (i : Nat) (v : Value) :
    (h.setListItem r i v).list r = (h.list r).setIfInBounds i v := by
  simp only [list, setListItem, Array.getD_eq_getD_getElem?, Array.getElem?_modify, if_pos]
  cases h.lists[r]? with
  | none => rfl
  | some items => rfl

theorem lookUp_list_of_integer? {index : Int} (hk : k.integer? = some index) (h : Heap) (levels : Nat)
    (r : Ref) : h.lookUp levels (.list r) k =
      match (placeOf (h.list r).size index).bind ((h.list r)[·]?) with
      | some v => .ok (.ok v)
      | none => .error (outOfRange "list" index) := by
  have hread : h.lookUp levels (.list r) k = (h.itemAt (.list r) index >>= fun v => .ok (.ok v)) := by
    cases k <;> cases hk <;> rfl
  rw [hread]
  unfold itemAt
  dsimp only
  cases (placeOf (h.list r).size index).bind ((h.list r)[·]?) <;> rfl

theorem lookUp_list_of_none (hk : k.integer? = .none) (levels : Nat) (r : Ref) :
    ∃ fault, ∀ h : Heap, h.lookUp levels (.list r) k = .error fault := by
  cases k <;> first | exact ⟨_, fun _ => rfl⟩ | cases hk

/-- An element is read at the place of the index. -/
theorem lookUp_list_of_place {v : Value} (hplace : k.placeIn? (h.list r).size = some i)
    (hv : (h.list r)[i]? = some v) (levels : Nat) : h.lookUp levels (.list r) k = .ok (.ok v) := by
  obtain ⟨index, hk, hindex⟩ := Option.bind_eq_some_iff.mp hplace
  rw [lookUp_list_of_integer? hk, hindex, Option.bind_some, hv]

/-- What can be read from a list has a place in it. -/
theorem exists_place_of_lookUp {v : Value} {levels : Nat}
    (hv : h.lookUp levels (.list r) k = .ok (.ok v)) : ∃ i, k.placeIn? (h.list r).size = some i := by
  unfold Value.placeIn?
  cases hk : k.integer? with
  | none =>
    obtain ⟨fault, hfault⟩ := lookUp_list_of_none hk levels r
    rw [hfault] at hv
    cases hv
  | some index =>
    rw [lookUp_list_of_integer? hk] at hv
    rw [Option.bind_some]
    cases hplace : placeOf (h.list r).size index with
    | none =>
      rw [hplace] at hv
      cases hv
    | some i => exact ⟨i, rfl⟩

/-- What is read from a list depends on its size and on what stands at the place of the index. -/
theorem lookUp_list_congr (hsize : (h'.list r).size = (h.list r).size)
    (hitem : ∀ i, k.placeIn? (h.list r).size = some i → (h'.list r)[i]? = (h.list r)[i]?) (levels : Nat) :
    h'.lookUp levels (.list r) k = h.lookUp levels (.list r) k := by
  cases hk : k.integer? with
  | none =>
    obtain ⟨fault, hfault⟩ := lookUp_list_of_none hk levels r
    rw [hfault, hfault]
  | some index =>
    rw [lookUp_list_of_integer? hk, lookUp_list_of_integer? hk, hsize]
    cases hplace : placeOf (h.list r).size index with
    | none => rfl
    | some i =>
      rw [Option.bind_some, Option.bind_some, hitem i]
      rw [Value.placeIn?, hk]
      exact hplace

end Heap

namespace Operation

variable {s t : State} {source : Text} {k v : Value} {r : Ref}

theorem store_list_of_integer? {index : Int} (hk : k.integer? = some index) (source : Text) (r : Ref)
    (v : Value) (s : State) : store source (.list r) k v s =
      (match placeOf (s.heap.list r).size index with
      | some i => Run.change (·.setListItem r i v)
      | none => throw ((outOfRange "list assignment" index).within source) : Run Unit) s := by
  cases k <;> cases hk <;> rfl

theorem store_list_of_none (hk : k.integer? = .none) (source : Text) (r : Ref) (v : Value) (s : State) :
    ∃ fault, store source (.list r) k v s = .error fault s := by
  cases k <;> first | exact ⟨_, rfl⟩ | cases hk

/-- A store in a list sets the element at the place of the index, or there is none and nothing changes. -/
theorem store_list_cases (source : Text) (r : Ref) (k v : Value) (s : State) :
    (∃ i, k.placeIn? (s.heap.list r).size = some i ∧
      store source (.list r) k v s = .ok () { s with heap := s.heap.setListItem r i v }) ∨
    (k.placeIn? (s.heap.list r).size = none ∧ ∃ fault, store source (.list r) k v s = .error fault s) := by
  unfold Value.placeIn?
  cases hk : k.integer? with
  | none => exact .inr ⟨rfl, store_list_of_none hk source r v s⟩
  | some index =>
    rw [store_list_of_integer? hk, Option.bind_some]
    cases hplace : placeOf (s.heap.list r).size index with
    | none => exact .inr ⟨rfl, _, rfl⟩
    | some i => exact .inl ⟨i, rfl, rfl⟩

/-- What a store in a list does, and what it comes to for subscripts of the list. -/
structure StoresItem (source : Text) (r : Ref) (k v : Value) (s : State) : Prop where
  /-- It succeeds just when the index can be read. -/
  succeeds_iff : ∀ levels, (∃ t, store source (.list r) k v s = .ok () t) ↔
    ∃ w, s.heap.lookUp levels (.list r) k = .ok (.ok w)
  /-- These are the integers and truth values that count to an element. -/
  index_iff : (∃ t, store source (.list r) k v s = .ok () t) ↔
    ∃ index, k.integer? = some index ∧ -((s.heap.list r).size : Int) ≤ index ∧
      index < (s.heap.list r).size
  fails : ∀ fault t, store source (.list r) k v s = .error fault t → t = s
  size : ∀ t, store source (.list r) k v s = .ok () t → (t.heap.list r).size = (s.heap.list r).size
  read : ∀ t, store source (.list r) k v s = .ok () t → ∀ levels,
    t.heap.lookUp levels (.list r) k = .ok (.ok v)
  /-- Indices of other places, and what is no index of an element, read as before. -/
  others : ∀ t, store source (.list r) k v s = .ok () t → ∀ k',
    k'.placeIn? (s.heap.list r).size ≠ k.placeIn? (s.heap.list r).size → ∀ levels,
      t.heap.lookUp levels (.list r) k' = s.heap.lookUp levels (.list r) k'

theorem storesItem (source : Text) (r : Ref) (k v : Value) (s : State) : StoresItem source r k v s := by
  rcases store_list_cases source r k v s with ⟨i, hplace, hstore⟩ | ⟨hplace, fault, hstore⟩
  · have hi := Value.placeIn?_lt hplace
    obtain ⟨w, hw⟩ : ∃ w, (s.heap.list r)[i]? = some w := ⟨_, Array.getElem?_eq_getElem hi⟩
    have hsize : ((s.heap.setListItem r i v).list r).size = (s.heap.list r).size := by
      rw [Heap.list_setListItem, Array.size_setIfInBounds]
    refine
      { succeeds_iff := fun levels => iff_of_true ⟨_, hstore⟩ ⟨w, Heap.lookUp_list_of_place hplace hw levels⟩
        index_iff := iff_of_true ⟨_, hstore⟩ (Value.exists_placeIn?_iff.mp ⟨i, hplace⟩)
        fails := fun fault t ht => ?_
        size := fun t ht => ?_
        read := fun t ht levels => ?_
        others := fun t ht k' hk' levels => ?_ }
    · rw [hstore] at ht
      cases ht
    · rw [hstore] at ht
      cases ht
      exact hsize
    · rw [hstore] at ht
      cases ht
      refine Heap.lookUp_list_of_place (i := i) (by rw [hsize]; exact hplace) ?_ levels
      rw [Heap.list_setListItem, Array.getElem?_setIfInBounds_self_of_lt hi]
    · rw [hstore] at ht
      cases ht
      refine Heap.lookUp_list_congr hsize (fun j hj => ?_) levels
      have hne : i ≠ j := by
        rintro rfl
        exact hk' (hj.trans hplace.symm)
      rw [Heap.list_setListItem, Array.getElem?_setIfInBounds_ne hne]
  · have hnone : ¬ ∃ t, store source (.list r) k v s = .ok () t := by
      rintro ⟨t, ht⟩
      rw [hstore] at ht
      cases ht
    have hplaces : ¬ ∃ i, k.placeIn? (s.heap.list r).size = some i := by
      rw [hplace]
      rintro ⟨i, hi⟩
      cases hi
    refine
      { succeeds_iff := fun levels => iff_of_false hnone fun ⟨w, hw⟩ => hplaces (Heap.exists_place_of_lookUp hw)
        index_iff := iff_of_false hnone fun hindex => hplaces (Value.exists_placeIn?_iff.mpr hindex)
        fails := fun fault t ht => ?_
        size := fun t ht => absurd ⟨t, ht⟩ hnone
        read := fun t ht => absurd ⟨t, ht⟩ hnone
        others := fun t ht => absurd ⟨t, ht⟩ hnone }
    rw [hstore] at ht
    cases ht
    rfl

end Operation

/-! ## Mappings -/

namespace Heap

variable {h h' : Heap} {k : Value} {r : Ref} {key : Key}

theorem dict_putEntry (hr : r < h.dicts.size) (key : Key) (keyValue value : Value) :
    (h.putEntry r key keyValue value).dict r = Entry.put (h.dict r) key keyValue value := by
  simp only [dict, putEntry, Array.getD_eq_getD_getElem?, Array.getElem?_modify, if_pos,
    Array.getElem?_eq_getElem hr, Option.map_some, Option.getD_some]

theorem keyIn_context {context : Text} (hkey : h.keyIn k context = .ok key) (other : Text) :
    h.keyIn k other = .ok key := by
  cases k <;> first | exact hkey | cases hkey

theorem missingKey_congr (htuples : h'.tuples = h.tuples) (hrecords : h'.records = h.records)
    (hk : h.key k = .ok key) (levels : Nat) : h'.missingKey levels k = h.missingKey levels k := by
  unfold missingKey plainRepr
  rw [render_congr htuples hrecords _ hk]

/-- What is read from a mapping depends on what stands under the key. -/
theorem lookUp_dict_congr (htuples : h'.tuples = h.tuples) (hrecords : h'.records = h.records)
    (hentry : ∀ key, h.key k = .ok key → Entry.find? (h'.dict r) key = Entry.find? (h.dict r) key)
    (levels : Nat) : h'.lookUp levels (.dict r) k = h.lookUp levels (.dict r) k := by
  have hkeys := keyIn_congr htuples k "subscript"
  cases hkey : h.keyIn k "subscript" with
  | error fault =>
    rw [Evaluation.lookUp_dict_error hkey, Evaluation.lookUp_dict_error (hkeys.trans hkey)]
  | ok key =>
    have hfind := hentry key (key_of_keyIn hkey)
    cases hv : Entry.find? (h.dict r) key with
    | some v =>
      rw [Evaluation.lookUp_dict_some hkey hv, Evaluation.lookUp_dict_some (hkeys.trans hkey) (hfind.trans hv)]
    | none =>
      rw [Evaluation.lookUp_dict_none hkey hv, Evaluation.lookUp_dict_none (hkeys.trans hkey) (hfind.trans hv),
        missingKey_congr htuples hrecords (key_of_keyIn hkey)]

end Heap

namespace Operation

/-- A store in a mapping puts an entry under the key, or the value has no key and nothing changes. -/
theorem store_dict_cases (source : Text) (r : Ref) (k v : Value) (s : State) :
    (∃ key, s.heap.keyIn k "item assignment" = .ok key ∧
      store source (.dict r) k v s = .ok () { s with heap := s.heap.putEntry r key k v }) ∨
    ∃ fault, store source (.dict r) k v s = .error fault s := by
  have hstore : store source (.dict r) k v s = (Run.look (·.keyIn k "item assignment") >>= fun key =>
      Run.change (·.putEntry r key k v) : Run Unit) s := rfl
  rw [hstore, Run.bind_apply, Run.look_apply]
  cases s.heap.keyIn k "item assignment" with
  | ok key => exact .inl ⟨key, rfl, rfl⟩
  | error fault => exact .inr ⟨fault, rfl⟩

/-- What a store in a mapping does, and what it comes to for subscripts of the mapping. -/
structure StoresEntry (source : Text) (r : Ref) (k v : Value) (s : State) : Prop where
  fails : ∀ fault t, store source (.dict r) k v s = .error fault t → t = s
  read : ∀ t, store source (.dict r) k v s = .ok () t → ∀ levels,
    t.heap.lookUp levels (.dict r) k = .ok (.ok v)
  /-- What is not equal to the key reads as before. -/
  others : ∀ t, store source (.dict r) k v s = .ok () t → s.heap.IsDefinite k → ∀ k',
    ¬ s.heap.AreEqual k' k → ∀ levels,
      t.heap.lookUp levels (.dict r) k' = s.heap.lookUp levels (.dict r) k'
  /-- An equal key stays, and where it is. -/
  kept : ∀ t, store source (.dict r) k v s = .ok () t →
    (∃ e ∈ s.heap.dict r, s.heap.AreEqual e.keyValue k) →
      (t.heap.dict r).toList.map Entry.keyValue = (s.heap.dict r).toList.map Entry.keyValue
  /-- A key that equals none comes last. -/
  added : ∀ t, store source (.dict r) k v s = .ok () t → s.heap.IsDefinite k →
    (∀ e ∈ s.heap.dict r, ¬ s.heap.AreEqual e.keyValue k) →
      (t.heap.dict r).toList.map Entry.keyValue = (s.heap.dict r).toList.map Entry.keyValue ++ [k]

theorem storesEntry {s : State} (hs : s.heap.IsKeyed) {r : Ref} (hr : r < s.heap.dicts.size)
    (source : Text) (k v : Value) : StoresEntry source r k v s := by
  rcases store_dict_cases source r k v s with ⟨key, hkey, hstore⟩ | ⟨fault, hstore⟩
  · have hk := Heap.key_of_keyIn hkey
    have hdict := Heap.dict_putEntry hr key k v
    have htuples : (s.heap.putEntry r key k v).tuples = s.heap.tuples := rfl
    have hrecords : (s.heap.putEntry r key k v).records = s.heap.records := rfl
    have hkeyed := (hs.dict r).keyed
    refine
      { fails := fun fault t ht => ?_
        read := fun t ht levels => ?_
        others := fun t ht hdefinite k' hk' levels => ?_
        kept := fun t ht hequal => ?_
        added := fun t ht hdefinite hnew => ?_ } <;> rw [hstore] at ht <;> cases ht
    · have hfound := (Heap.keyIn_congr htuples k "subscript").trans (Heap.keyIn_context hkey _)
      refine Evaluation.lookUp_dict_some hfound ?_
      rw [hdict, Entry.find?_put, if_pos rfl]
    · refine Heap.lookUp_dict_congr htuples hrecords (fun key' hkey' => ?_) levels
      rw [hdict, Entry.find?_put, if_neg]
      exact fun heq => hk' ((Heap.areEqual_iff_key hkey' hk hdefinite).mpr heq)
    · obtain ⟨e, he, levels, hequal⟩ := hequal
      rw [hdict, Entry.keyValues_put_of_mem ⟨e, he, Heap.key_of_equal hequal (hkeyed e he) hk⟩]
    · rw [hdict, Entry.keyValues_put_of_notMem fun e he heq => hnew e he ?_]
      exact (Heap.areEqual_iff_key (hkeyed e he) hk hdefinite).mpr heq
  · refine
      { fails := fun fault t ht => ?_
        read := fun t ht => ?_
        others := fun t ht => ?_
        kept := fun t ht => ?_
        added := fun t ht => ?_ } <;> rw [hstore] at ht <;> cases ht
    rfl

end Operation

/-! ## States of runs -/

/-- In every state that comes up, stores in lists and mappings and subscripts of them agree: what is stored
under an index or a key is read under it, other indices and keys read as before, and a store that fails
changes nothing. -/
theorem State.Reachable.stores {limits : Limits} {s : State} (hs : s.Reachable limits) (source : Text)
    (k v : Value) : (∀ r, Operation.StoresItem source r k v s) ∧
      ∀ r, r < s.heap.dicts.size → Operation.StoresEntry source r k v s :=
  ⟨fun r => Operation.storesItem source r k v s,
    fun _ hr => Operation.storesEntry hs.isKeyed hr source k v⟩

/-- A list whose last element is set, and a mapping that has a one for a key and is given a truth. -/
theorem State.Reachable.stores_display :
    let s := ((Session.initial .standard ⟨0⟩ 0).performAll [.run "x = [7, 8]\nd = {1: 2}"]).state
    s.vars.bindings = [(("x" : Text), Value.list 1), (("d" : Text), .dict 0)] ∧
      (∃ t, Operation.store "x[-1]" (.list 1) (.int (-1)) (.int 9) s = .ok () t ∧
        t.heap.lookUp 0 (.list 1) (.int (-1)) = .ok (.ok (.int 9)) ∧
        t.heap.lookUp 0 (.list 1) (.int 0) = s.heap.lookUp 0 (.list 1) (.int 0)) ∧
      ∃ t, Operation.store "d[True]" (.dict 0) (.bool true) (.int 5) s = .ok () t ∧
        t.heap.lookUp 0 (.dict 0) (.bool true) = .ok (.ok (.int 5)) ∧
        (t.heap.dict 0).toList.map Entry.keyValue = [.int 1] := by
  intro s
  have hs : s.Reachable .standard := Session.reachable _ _ _ _
  have hsize : (s.heap.list 1).size = 2 := by decide +kernel
  have hdicts : 0 < s.heap.dicts.size := by decide +kernel
  have hkeys : (s.heap.dict 0).toList.map Entry.keyValue = [.int 1] := by decide +kernel
  refine ⟨by decide +kernel, ?_, ?_⟩
  · have hstores := (stores hs "x[-1]" (.int (-1)) (.int 9)).1 1
    obtain ⟨t, ht⟩ := hstores.index_iff.mpr ⟨-1, rfl, by rw [hsize]; decide, by rw [hsize]; decide⟩
    refine ⟨t, ht, hstores.read t ht 0, hstores.others t ht (.int 0) ?_ 0⟩
    rw [hsize]
    decide
  · have hstores := (stores hs "d[True]" (.bool true) (.int 5)).2 0 hdicts
    obtain ⟨t, ht⟩ : ∃ t, Operation.store "d[True]" (.dict 0) (.bool true) (.int 5) s = .ok () t := ⟨_, rfl⟩
    refine ⟨t, ht, hstores.read t ht 0, (hstores.kept t ht ?_).trans hkeys⟩
    have hmem : Value.int 1 ∈ (s.heap.dict 0).toList.map Entry.keyValue := hkeys ▸ List.mem_singleton_self _
    obtain ⟨e, he, hone⟩ := List.mem_map.mp hmem
    exact ⟨e, Array.mem_toList_iff.mp he, 1, by rw [hone]; rfl⟩

end Scriptlet
