import Scriptlet.Proofs.Kinds.Values

/-
  Keys of mappings and members of sets.

  An entry stands under the key that its value is, and no two entries stand under one key. A value keeps
  its key for good: tuples never change, and new ones leave the old ones as they are.

  What is proved:
    1. `Heap.key_mono` — the key of a value stays the same when tuples are made.
    2. `Entry.AreKeyed.put`, `Member.AreKeyed.insert` — an entry more, or a member, leaves each one under
       a key of its own.
    3. `Heap.gives_membersOf`, `Heap.gives_put` — so has what is made of values and of pairs.
-/

namespace Scriptlet

/-! ## Keys of values -/

namespace Heap

variable {h h' : Heap}

/-- The tuples of the first heap are those of the second one too. -/
def KeepsTuples (h h' : Heap) : Prop :=
  ∀ (r : Ref) (items : Array Value), h.tuples[r]? = some items → h'.tuples[r]? = some items

theorem KeepsTuples.size_le (hkeeps : h.KeepsTuples h') : h.tuples.size ≤ h'.tuples.size := by
  refine Nat.le_of_not_lt fun hlt => ?_
  have hsome := hkeeps _ _ (Array.getElem?_eq_getElem hlt)
  rw [Array.getElem?_size] at hsome
  cases hsome

theorem exists_of_mapM_cons {α β ε : Type} {f : α → Except ε β} {a : α} {as : List α} {bs : List β}
    (h : (a :: as).mapM f = .ok bs) :
    ∃ b rest, f a = .ok b ∧ as.mapM f = .ok rest ∧ bs = b :: rest := by
  rw [List.mapM_cons] at h
  cases ha : f a with
  | error e =>
    rw [ha] at h
    cases h
  | ok b =>
    cases has : as.mapM f with
    | error e =>
      rw [ha, has] at h
      cases h
    | ok rest =>
      rw [ha, has] at h
      cases h
      exact ⟨b, rest, rfl, rfl, rfl⟩

theorem mapM_ok_of_le {α β ε : Type} {f g : α → Except ε β} {as : List α} {bs : List β}
    (h : as.mapM f = .ok bs) (hfg : ∀ a ∈ as, ∀ b, f a = .ok b → g a = .ok b) :
    as.mapM g = .ok bs := by
  induction as generalizing bs with
  | nil => exact h
  | cons a as ih =>
    obtain ⟨b, rest, ha, has, rfl⟩ := exists_of_mapM_cons h
    rw [List.mapM_cons, hfg a List.mem_cons_self b ha,
      ih has fun a' ha' => hfg a' (List.mem_cons_of_mem a ha')]
    rfl

theorem exists_of_mapM_ok {α β ε : Type} {f : α → Except ε β} {as : List α} {bs : List β}
    (h : as.mapM f = .ok bs) : ∀ a ∈ as, ∃ b, f a = .ok b := by
  induction as generalizing bs with
  | nil => exact List.forall_mem_nil _
  | cons a as ih =>
    obtain ⟨b, rest, ha, has, -⟩ := exists_of_mapM_cons h
    exact List.forall_mem_cons.mpr ⟨⟨b, ha⟩, ih has⟩

/-- The key of a tuple is made of the keys of what it holds. -/
theorem keyWithin_tuple_iff {r : Ref} {n : Nat} {key : Key} :
    h.keyWithin (n + 1) (.tuple r) = .ok key ↔
      ∃ items parts, h.tuples[r]? = some items ∧ items.toList.mapM (h.keyWithin n) = .ok parts ∧
        key = .tuple items.size :: parts.flatten := by
  constructor
  · intro hkey
    unfold keyWithin at hkey
    cases hitems : h.tuples[r]? with
    | none =>
      simp only [hitems] at hkey
      cases hkey
    | some items =>
      simp only [hitems] at hkey
      cases hparts : items.toList.mapM (h.keyWithin n) with
      | error fault =>
        rw [hparts] at hkey
        cases hkey
      | ok parts =>
        rw [hparts] at hkey
        cases hkey
        exact ⟨items, parts, rfl, hparts, rfl⟩
  · rintro ⟨items, parts, hitems, hparts, rfl⟩
    unfold keyWithin
    simp only [hitems, hparts]
    rfl

/-- The key of a value is the same with more levels and more tuples. -/
theorem keyWithin_mono (hkeeps : h.KeepsTuples h') {n m : Nat} (hle : n ≤ m) {v : Value} {key : Key}
    (hkey : h.keyWithin n v = .ok key) : h'.keyWithin m v = .ok key := by
  induction n generalizing m v key with
  | zero => cases hkey
  | succ n ih =>
    obtain ⟨m, rfl⟩ : ∃ k, m = k + 1 := ⟨m - 1, by omega⟩
    cases v with
    | tuple r =>
      obtain ⟨items, parts, hitems, hparts, rfl⟩ := keyWithin_tuple_iff.mp hkey
      have hgrown : items.toList.mapM (h'.keyWithin m) = .ok parts :=
        mapM_ok_of_le hparts fun a _ b hb => ih (Nat.le_of_succ_le_succ hle) hb
      exact keyWithin_tuple_iff.mpr ⟨items, parts, hkeeps r items hitems, hgrown, rfl⟩
    | _ => exact hkey

/-- A value has one key, however many levels there are. -/
theorem keyWithin_unique {n m : Nat} {v : Value} {key key' : Key} (hn : h.keyWithin n v = .ok key)
    (hm : h.keyWithin m v = .ok key') : key = key' := by
  have hkeeps : h.KeepsTuples h := fun _ _ hitems => hitems
  have hgrown := keyWithin_mono hkeeps (Nat.le_max_left n m) hn
  rw [keyWithin_mono hkeeps (Nat.le_max_right n m) hm] at hgrown
  exact (Except.ok.inj hgrown).symm

theorem key_mono (hkeeps : h.KeepsTuples h') {v : Value} {key : Key} (hkey : h.key v = .ok key) :
    h'.key v = .ok key :=
  keyWithin_mono hkeeps (Nat.succ_le_succ hkeeps.size_le) hkey

theorem key_of_keyIn {v : Value} {context : Text} {key : Key} (h' : h.keyIn v context = .ok key) :
    h.key v = .ok key := by
  unfold keyIn at h'
  cases hrequired : requireHashable v context with
  | error fault =>
    rw [hrequired] at h'
    cases h'
  | ok u =>
    rw [hrequired] at h'
    exact h'

end Heap

/-! ## Entries -/

theorem nodup_map_push {α β : Type} {key : α → β} {xs : Array α} {x : α}
    (hnodup : (xs.toList.map key).Nodup) (hnew : ∀ y ∈ xs, key y ≠ key x) :
    ((xs.push x).toList.map key).Nodup := by
  rw [Array.toList_push, List.map_append]
  refine List.nodup_append.mpr ⟨hnodup, List.pairwise_singleton _ _, fun k hk k' hk' => ?_⟩
  obtain ⟨y, hy, rfl⟩ := List.mem_map.mp hk
  cases List.mem_singleton.mp hk'
  exact hnew y (Array.mem_toList_iff.mp hy)

/-- Each entry stands under the key that its value is, and each under another one. -/
structure Entry.AreKeyed (h : Heap) (entries : Array Entry) : Prop where
  keyed : ∀ e ∈ entries, h.key e.keyValue = .ok e.key
  nodup : (entries.toList.map Entry.key).Nodup

namespace Entry.AreKeyed

variable {h h' : Heap} {entries : Array Entry}

theorem empty (h : Heap) : AreKeyed h #[] := ⟨fun e he => absurd he (Array.not_mem_empty e), .nil⟩

theorem mono (hkeyed : AreKeyed h entries) (hkeeps : h.KeepsTuples h') : AreKeyed h' entries :=
  ⟨fun e he => Heap.key_mono hkeeps (hkeyed.keyed e he), hkeyed.nodup⟩

theorem keys_modify (entries : Array Entry) (i : Nat) (value : Value) :
    (entries.modify i fun e => { e with value := value }).toList.map Entry.key =
      entries.toList.map Entry.key := by
  refine List.ext_getElem (by simp) fun j hj hj' => ?_
  simp only [List.getElem_map, Array.getElem_toList, Array.getElem_modify]
  split <;> rfl

/-- The value under a key is replaced, or a new entry comes behind the others. -/
theorem put (hkeyed : AreKeyed h entries) {key : Key} {keyValue : Value}
    (hkey : h.key keyValue = .ok key) (value : Value) :
    AreKeyed h (Entry.put entries key keyValue value) := by
  unfold Entry.put
  cases hfound : entries.findIdx? (·.key == key) with
  | some i =>
    refine ⟨fun e he => ?_, (keys_modify entries i value).symm ▸ hkeyed.nodup⟩
    obtain ⟨j, hj, rfl⟩ := Array.getElem_of_mem he
    rw [Array.size_modify] at hj
    have hold := hkeyed.keyed _ (Array.getElem_mem hj)
    rw [Array.getElem_modify]
    split <;> exact hold
  | none =>
    have hnew : ∀ e ∈ entries, e.key ≠ key := fun e he =>
      beq_eq_false_iff_ne.mp (Array.findIdx?_eq_none_iff.mp hfound e he)
    exact ⟨Array.forall_mem_push.mpr ⟨hkey, hkeyed.keyed⟩, nodup_map_push hkeyed.nodup hnew⟩

end Entry.AreKeyed

/-! ## Members -/

/-- Each member stands under the key that it is, and each under another one. -/
structure Member.AreKeyed (h : Heap) (members : Array Member) : Prop where
  keyed : ∀ m ∈ members, h.key m.value = .ok m.key
  nodup : (members.toList.map Member.key).Nodup

namespace Member.AreKeyed

variable {h h' : Heap} {members : Array Member}

theorem empty (h : Heap) : AreKeyed h #[] := ⟨fun m hm => absurd hm (Array.not_mem_empty m), .nil⟩

theorem mono (hkeyed : AreKeyed h members) (hkeeps : h.KeepsTuples h') : AreKeyed h' members :=
  ⟨fun m hm => Heap.key_mono hkeeps (hkeyed.keyed m hm), hkeyed.nodup⟩

theorem filter (hkeyed : AreKeyed h members) (p : Member → Bool) : AreKeyed h (members.filter p) := by
  refine ⟨fun m hm => hkeyed.keyed m (Array.mem_filter.mp hm).1, ?_⟩
  rw [Array.toList_filter]
  exact hkeyed.nodup.sublist (List.filter_sublist.map Member.key)

/-- A member that is not among the others comes behind them. -/
theorem insert (hkeyed : AreKeyed h members) {key : Key} {v : Value} (hkey : h.key v = .ok key) :
    AreKeyed h (Member.insert members key v) := by
  unfold Member.insert
  split
  · exact hkeyed
  · rename_i hnone
    have hnew : ∀ m ∈ members, m.key ≠ key := by
      intro m hm heq
      obtain ⟨i, hi, rfl⟩ := Array.getElem_of_mem hm
      exact hnone (Array.any_eq_true.mpr ⟨i, hi, beq_iff_eq.mpr heq⟩)
    exact ⟨Array.forall_mem_push.mpr ⟨hkey, hkeyed.keyed⟩, nodup_map_push hkeyed.nodup hnew⟩

end Member.AreKeyed

/-! ## Heaps -/

/-- The entries of all mappings and the members of all sets stand under their keys. -/
structure Heap.IsKeyed (h : Heap) : Prop where
  dicts : ∀ entries ∈ h.dicts, Entry.AreKeyed h entries
  sets : ∀ members ∈ h.sets, Member.AreKeyed h members

namespace Heap

variable {h : Heap}

theorem IsKeyed.dict (hh : h.IsKeyed) (r : Ref) : Entry.AreKeyed h (h.dict r) :=
  HasKinds.getD_of_forall hh.dicts (.empty h)

theorem IsKeyed.set (hh : h.IsKeyed) (r : Ref) : Member.AreKeyed h (h.set r) :=
  HasKinds.getD_of_forall hh.sets (.empty h)

theorem gives_keyIn (v : Value) (context : Text) :
    Gives (h.keyIn v context) fun key => h.key v = .ok key :=
  fun _ hkey => key_of_keyIn hkey

theorem gives_membersOf (values : List Value) (context : Text) :
    Gives (h.membersOf values context) (Member.AreKeyed h) := by
  refine Gives.foldlM (.empty h) fun v _ members hmembers => ?_
  exact (gives_keyIn v context).bind fun key hkey => .pure (hmembers.insert hkey)

/-- The entries of keys and values, later ones over earlier ones. -/
theorem gives_put (pairs : List (Value × Value)) (context : Text) :
    Gives (pairs.foldlM (fun entries (key, value) => do
      return Entry.put entries (← h.keyIn key context) key value) #[]) (Entry.AreKeyed h) := by
  refine Gives.foldlM (.empty h) fun pair _ entries hentries => ?_
  exact (gives_keyIn pair.1 context).bind fun key hkey => .pure (hentries.put hkey pair.2)

end Heap

end Scriptlet
