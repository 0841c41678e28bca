import Mathlib.Data.List.Nodup
import Scriptlet.Proofs.Keys.Equality
import Scriptlet.Proofs.ReadBack
import Scriptlet.Proofs.Steps

/-
  Keys cannot change, and each is there once.

  A key of a mapping or a member of a set is no list, mapping or set, and no tuple that holds one at some
  depth, so it stays what it is; and it equals no other key beside it.

  What is proved:
    1. `NamedEffects.isKeyed` — in every state of a run, entries and members stand under their keys.
    2. `Heap.IsKeyed.hasProperKeys` — then they cannot change, and no two are equal.
    3. `State.refuses_key` — an assignment, a display or a conversion that needs a key of something that
       can change stops with a fault and leaves the state as it is.
    4. `Session.keys_proper` — so it is in all states that come up.
-/

namespace Scriptlet

/-! ## What can change -/

namespace Heap

variable {h h' : Heap}

/-- A list, mapping or set, or a tuple that holds one at some depth. -/
inductive HoldsMutable (h : Heap) : Value → Prop
  | list (r : Ref) : HoldsMutable h (.list r)
  | dict (r : Ref) : HoldsMutable h (.dict r)
  | set (r : Ref) : HoldsMutable h (.set r)
  | item {r : Ref} {v : Value} : v ∈ (h.tuple r).toList → HoldsMutable h v → HoldsMutable h (.tuple r)

/-- What has a key cannot change. -/
theorem not_holdsMutable_of_key {n : Nat} {v : Value} {key : Key} (hkey : h.keyWithin n v = .ok key) :
    ¬ h.HoldsMutable v := by
  intro hmutable
  induction hmutable generalizing n key with
  | list r | dict r | set r => cases n <;> cases hkey
  | item hmem _ ih =>
    cases n with
    | zero => cases hkey
    | succ n =>
      obtain ⟨parts, hparts, -⟩ := exists_parts_of_key_tuple hkey
      obtain ⟨part, hpart⟩ := exists_of_mapM_ok hparts _ hmem
      exact ih hpart

/-- The keys of a mapping or the members of a set are as they have to be: they cannot change, and no two
of them are equal. -/
structure AreProperKeys (h : Heap) (keys : List Value) : Prop where
  immutable : ∀ v ∈ keys, ¬ h.HoldsMutable v
  distinct : ∀ i j (hi : i < keys.length) (hj : j < keys.length), i ≠ j → ∀ levels,
    Operation.compare h levels .eq keys[i] keys[j] ≠ .ok true

/-- The keys of all mappings and the members of all sets are as they have to be. -/
structure HasProperKeys (h : Heap) : Prop where
  dicts : ∀ r, h.AreProperKeys ((h.dict r).toList.map Entry.keyValue)
  sets : ∀ r, h.AreProperKeys ((h.set r).toList.map Member.value)

/-- Values that stand under different keys are proper keys. -/
theorem areProperKeys_of_nodup {α : Type} {xs : List α} {value : α → Value} {key : α → Key}
    (hkeys : ∀ x ∈ xs, h.key (value x) = .ok (key x)) (hnodup : (xs.map key).Nodup) :
    h.AreProperKeys (xs.map value) where
  immutable := by
    intro v hv
    obtain ⟨x, hx, rfl⟩ := List.mem_map.mp hv
    exact not_holdsMutable_of_key (hkeys x hx)
  distinct := by
    intro i j hi hj hne levels hequal
    rw [List.length_map] at hi hj
    rw [List.getElem_map, List.getElem_map] at hequal
    -- Equal values have one key, and no key stands at two places.
    have hsame := key_of_equal hequal (hkeys _ (List.getElem_mem hi)) (hkeys _ (List.getElem_mem hj))
    have hi' : i < (xs.map key).length := by rwa [List.length_map]
    have hj' : j < (xs.map key).length := by rwa [List.length_map]
    have hplaces : (xs.map key)[i] = (xs.map key)[j] := by rwa [List.getElem_map, List.getElem_map]
    exact hne ((List.Nodup.getElem_inj_iff hnodup).mp hplaces)

theorem IsKeyed.hasProperKeys (hh : h.IsKeyed) : h.HasProperKeys where
  dicts r := areProperKeys_of_nodup
    (fun e he => (hh.dict r).keyed e (Array.mem_toList_iff.mp he)) (hh.dict r).nodup
  sets r := areProperKeys_of_nodup
    (fun m hm => (hh.set r).keyed m (Array.mem_toList_iff.mp hm)) (hh.set r).nodup

/-! ## Effects -/

theorem Changes.keepsTuples (hchange : h.Changes h') : h.KeepsTuples h' := by
  cases hchange with
  | newTuple items =>
    intro r found hfound
    exact (Extends.newTuple h items).tuples r found hfound
  | newFloat x =>
    unfold Heap.newFloat
    split
    · exact fun _ _ hfound => hfound
    · exact fun _ _ hfound => hfound
  | _ => exact fun _ _ hfound => hfound

theorem IsKeyed.initial : initial.IsKeyed where
  dicts entries hentries := absurd hentries (Array.not_mem_empty entries)
  sets members hmembers := absurd hmembers (Array.not_mem_empty members)

/-- Other tuples leave the keys of mappings and sets as they are. -/
theorem IsKeyed.mono (hh : h.IsKeyed) (hkeeps : h.KeepsTuples h') (hdicts : h'.dicts = h.dicts)
    (hsets : h'.sets = h.sets) : h'.IsKeyed where
  dicts entries hentries := (hh.dicts entries (hdicts ▸ hentries)).mono hkeeps
  sets members hmembers := (hh.sets members (hsets ▸ hmembers)).mono hkeeps

theorem Changes.isKeyed (hchange : h.Changes h') (hh : h.IsKeyed) : h'.IsKeyed := by
  have hkeeps := hchange.keepsTuples
  cases hchange with
  | newDict hentries =>
    exact ⟨HasKinds.push_of_forall (fun entries hmem => (hh.dicts entries hmem).mono hkeeps)
      ((hentries hh).mono hkeeps), fun members hmem => (hh.sets members hmem).mono hkeeps⟩
  | newSet hmembers =>
    exact ⟨fun entries hmem => (hh.dicts entries hmem).mono hkeeps, HasKinds.push_of_forall
      (fun members hmem => (hh.sets members hmem).mono hkeeps) ((hmembers hh).mono hkeeps)⟩
  | putEntry r value hkey =>
    refine ⟨?_, fun members hmem => (hh.sets members hmem).mono hkeeps⟩
    exact HasKinds.modify_of_forall (fun entries hmem => (hh.dicts entries hmem).mono hkeeps)
      fun entries hentries => hentries.put (key_mono hkeeps hkey) value
  | newTuple items | newFloat x =>
    refine hh.mono hkeeps ?_ ?_
    · simp only [Heap.newTuple, Heap.newFloat]
      split <;> rfl
    · simp only [Heap.newTuple, Heap.newFloat]
      split <;> rfl
  | _ => exact hh.mono hkeeps rfl rfl

end Heap

/-- Whatever a run does, entries and members stand under their keys. -/
theorem NamedEffects.isKeyed {limits : Limits} {named : Text → Prop} {s t : State}
    (h : NamedEffects limits named s t) (hs : s.heap.IsKeyed) : t.heap.IsKeyed := by
  induction h with
  | none | bound | refused | written | drawn => exact hs
  | trans _ _ ihs iht => exact iht (ihs hs)
  | object hchange => exact hchange.isKeyed hs
  | block _ _ ih => exact ih hs

theorem State.Reachable.isKeyed {limits : Limits} {s : State} (hs : s.Reachable limits) :
    s.heap.IsKeyed :=
  hs.keeps binds_anyName (fun _ _ => .initial) (fun _ hkeyed => hkeyed) fun _ _ heffects =>
    heffects.isKeyed

/-! ## Refused keys -/

/-- A fold stops at an element on which its step stops whatever came before. -/
theorem exists_fault_of_foldlM {α β : Type} {step : β → α → Except Fault β} {xs : List α} {x : α}
    (hx : x ∈ xs) (hstep : ∀ done, ∃ fault, step done x = .error fault) (done : β) :
    ∃ fault, xs.foldlM step done = .error fault := by
  induction xs generalizing done with
  | nil => exact absurd hx List.not_mem_nil
  | cons first xs ih =>
    rw [List.foldlM_cons]
    cases hfirst : step done first with
    | error fault => exact ⟨fault, rfl⟩
    | ok next =>
      rcases List.mem_cons.mp hx with rfl | hx
      · obtain ⟨fault, hfault⟩ := hstep done
        rw [hfault] at hfirst
        cases hfirst
      · exact ih hx next

theorem Run.look_bind_error {α β : Type} {read : Heap → Except Fault α} {f : α → Run β} {s : State}
    {fault : Fault} (h : read s.heap = .error fault) : (Run.look read >>= f) s = .error fault s := by
  refine Run.bind_of_error ?_ f
  rw [Run.look_apply, h]

namespace Heap.HoldsMutable

variable {h : Heap} {key : Value} (hkey : h.HoldsMutable key)

include hkey

theorem exists_keyIn_fault (context : Text) : ∃ fault, h.keyIn key context = .error fault := by
  cases hfound : h.keyIn key context with
  | error fault => exact ⟨fault, rfl⟩
  | ok found => exact absurd hkey (not_holdsMutable_of_key (key_of_keyIn hfound))

theorem exists_membersOf_fault {values : List Value} (hmem : key ∈ values) (context : Text) :
    ∃ fault, h.membersOf values context = .error fault := by
  refine exists_fault_of_foldlM hmem (fun members => ?_) #[]
  obtain ⟨fault, hfault⟩ := hkey.exists_keyIn_fault context
  exact ⟨fault, by rw [hfault]; rfl⟩

theorem exists_put_fault {pairs : List (Value × Value)} {value : Value} (hmem : (key, value) ∈ pairs)
    (context : Text) :
    ∃ fault, pairs.foldlM (fun entries (key, value) => do
      return Entry.put entries (← h.keyIn key context) key value) #[] = .error fault := by
  refine exists_fault_of_foldlM hmem (fun entries => ?_) #[]
  obtain ⟨fault, hfault⟩ := hkey.exists_keyIn_fault context
  refine ⟨fault, ?_⟩
  show (h.keyIn key context >>= fun found => pure (Entry.put entries found key value)) = _
  rw [hfault]
  rfl

theorem exists_entriesOf_fault {levels : Nat} {pairs : List Value} {pair value : Value}
    (hmem : pair ∈ pairs) (hpair : h.unpack levels pair 2 = .ok [key, value]) :
    ∃ fault, Building.entriesOf h levels pairs = .error fault := by
  refine exists_fault_of_foldlM hmem (fun entries => ?_) #[]
  obtain ⟨fault, hfault⟩ := hkey.exists_keyIn_fault "dict()"
  refine ⟨fault, ?_⟩
  rw [hpair]
  show (h.keyIn key "dict()" >>= fun found => pure (Entry.put entries found key value)) = _
  rw [hfault]
  rfl

end Heap.HoldsMutable

/-- Whatever needs the value as a key in the state stops with a fault there and leaves the state as it
is. -/
structure State.RefusesKey (limits : Limits) (s : State) (key : Value) : Prop where
  /-- An assignment under a key of a mapping, when container and key have been evaluated. -/
  assign : ∀ (engine : Engine) (text : Text) (span : Span) (container index : Expr) (value : Value)
    (r : Ref) (t u : State), engine.evaluateNode text container t = .ok (.dict r) u →
      engine.evaluateNode text index u = .ok key s →
      ∃ fault, Evaluation.assign engine text (.subscript span container index) value t = .error fault s
  setAttribute : ∀ (levels : Nat) (r : Ref) (value : Value),
    ∃ fault, Inspection.setAttribute levels (.dict r) key value s = .error fault s
  /-- A set that is displayed, when its elements have been evaluated. -/
  setDisplay : ∀ (room : Room) (text : Text) (span : Span) (items : List Expr) (vs : List Value) (t : State),
    Evaluation.values (room.below 3) text items t = .ok vs s → key ∈ vs →
      ∃ fault, Evaluation.nodeValue limits room text (.set span items) t = .error fault s
  /-- A mapping that is displayed, when its keys and values have been evaluated. -/
  dictDisplay : ∀ (room : Room) (text : Text) (span : Span) (entries : List (Expr × Expr))
    (ks vs : List Value) (t u : State),
    Evaluation.values (room.below 3) text (entries.map Prod.fst) t = .ok ks u →
      Evaluation.values (room.below 3) text (entries.map Prod.snd) u = .ok vs s → key ∈ ks →
      ∃ fault, Evaluation.nodeValue limits room text (.dict span entries) t = .error fault s
  /-- The set of the elements of a value. -/
  set : ∀ (v : Value) (vs : List Value), Building.elements s.heap v = .ok vs → key ∈ vs →
    ∃ fault, Building.set v s = .error fault s
  /-- The mapping of pairs. -/
  dict : ∀ (levels : Nat) (v : Value) (r : Ref) (pair value : Value),
    v = .list r ∧ pair ∈ s.heap.list r ∨ v = .tuple r ∧ pair ∈ s.heap.tuple r →
      s.heap.unpack levels pair 2 = .ok [key, value] →
      ∃ fault, Building.dict levels v s = .error fault s

theorem Evaluation.length_values {engine : Engine} {text : Text} {items : List Expr} {vs : List Value}
    {s t : State} (hvs : values engine text items s = .ok vs t) : vs.length = items.length := by
  induction items generalizing vs s with
  | nil =>
    cases hvs
    rfl
  | cons e items ih =>
    rw [values, List.mapM_cons] at hvs
    obtain ⟨v, u, -, hrest⟩ := Run.bind_ok_iff.mp hvs
    obtain ⟨rest, u', hmore, hdone⟩ := Run.bind_ok_iff.mp hrest
    cases hdone
    rw [List.length_cons, List.length_cons, ih hmore]

theorem State.refuses_key {s : State} {key : Value} (hkey : s.heap.HoldsMutable key) (limits : Limits) :
    s.RefusesKey limits key where
  assign engine text span container index value r t u hcontainer hindex := by
    obtain ⟨fault, hfault⟩ := hkey.exists_keyIn_fault "item assignment"
    refine ⟨fault, ?_⟩
    show (engine.evaluateNode text container >>= fun c => engine.evaluateNode text index >>= fun k =>
      Operation.store ((Expr.subscript span container index).source text) c k value : Run Unit) t = _
    rw [Run.bind_of_ok hcontainer, Run.bind_of_ok hindex]
    exact Run.look_bind_error hfault
  setAttribute levels r value := by
    obtain ⟨fault, hfault⟩ := hkey.exists_keyIn_fault "setattr()"
    refine ⟨fault, ?_⟩
    show (liftM (s.heap.keyIn key "setattr()") >>= fun found =>
      Run.change (·.putEntry r found key value) : Run Unit) s = _
    rw [hfault]
    rfl
  setDisplay room text span items vs t hvs hmem := by
    obtain ⟨fault, hfault⟩ := hkey.exists_membersOf_fault hmem "set display"
    refine ⟨fault, ?_⟩
    show (Evaluation.values (room.below 3) text items >>= _ : Run Found) t = _
    rw [Run.bind_of_ok hvs]
    exact Run.look_bind_error hfault
  dictDisplay room text span entries ks vs t u hks hvs hmem := by
    have hlength : ks.length ≤ vs.length := by
      rw [Evaluation.length_values hks, Evaluation.length_values hvs, List.length_map, List.length_map]
    rw [← List.map_fst_zip hlength] at hmem
    obtain ⟨⟨_, value⟩, hpair, rfl⟩ := List.mem_map.mp hmem
    obtain ⟨fault, hfault⟩ := hkey.exists_put_fault hpair "dict display"
    refine ⟨fault, ?_⟩
    show (Evaluation.values (room.below 3) text (entries.map Prod.fst) >>= fun keys =>
      Evaluation.values (room.below 3) text (entries.map Prod.snd) >>= _ : Run Found) t = _
    rw [Run.bind_of_ok hks, Run.bind_of_ok hvs]
    exact Run.look_bind_error hfault
  set v vs hvs hmem := by
    obtain ⟨fault, hfault⟩ := hkey.exists_membersOf_fault hmem "set()"
    refine ⟨fault, Run.look_bind_error ?_⟩
    rw [hvs]
    exact hfault
  dict levels v r pair value hv hpair := by
    rcases hv with ⟨rfl, hmem⟩ | ⟨rfl, hmem⟩
    · obtain ⟨fault, hfault⟩ := hkey.exists_entriesOf_fault (Array.mem_toList_iff.mpr hmem) hpair
      exact ⟨fault, Run.look_bind_error hfault⟩
    · obtain ⟨fault, hfault⟩ := hkey.exists_entriesOf_fault (Array.mem_toList_iff.mpr hmem) hpair
      exact ⟨fault, Run.look_bind_error hfault⟩

namespace Session

/-- Behind any steps of a session, and in every state that comes up inside of steps, keys of mappings and
members of sets cannot change and no two that are together are equal, and what can change is refused as
one. -/
theorem keys_proper (limits : Limits) (clock : Moment) (seed : Nat) (steps : List Step) :
    ((initial limits clock seed).performAll steps).state.heap.HasProperKeys ∧
      ∀ t : State, t.Reachable limits → t.heap.HasProperKeys ∧
        ∀ key, t.heap.HoldsMutable key → t.RefusesKey limits key :=
  ⟨(reachable limits clock seed steps).isKeyed.hasProperKeys, fun _ ht =>
    ⟨ht.isKeyed.hasProperKeys, fun _ hkey => State.refuses_key hkey limits⟩⟩

/-- A mapping that keeps its key, a one, when it is given a truth as well, and that refuses a tuple that
holds a list. -/
theorem keys_proper_tuple :
    let s := ((initial .standard ⟨0⟩ 0).performAll [.run "d = {1: 2, True: 3}\nk = (1, [2])"]).state
    s.vars.bindings = [(("d" : Text), Value.dict 0), (("k" : Text), .tuple 1)] ∧
      (s.heap.dict 0).toList.map Entry.keyValue = [.int 1] ∧
      (s.heap.tuple 1).toList = [.int 1, .list 1] ∧
      s.heap.AreProperKeys [.int 1] ∧
      ∃ fault, Inspection.setAttribute 10 (.dict 0) (.tuple 1) (.int 4) s = .error fault s := by
  intro s
  have hbindings : s.vars.bindings = [(("d" : Text), Value.dict 0), (("k" : Text), .tuple 1)] := by
    decide +kernel
  have hkeys : (s.heap.dict 0).toList.map Entry.keyValue = [.int 1] := by decide +kernel
  have hitems : (s.heap.tuple 1).toList = [.int 1, .list 1] := by decide +kernel
  have hholds : s.heap.HoldsMutable (.tuple 1) := by
    refine .item ?_ (.list 1)
    rw [hitems]
    exact List.mem_cons_of_mem _ List.mem_cons_self
  have hproper := keys_proper .standard ⟨0⟩ 0 [.run "d = {1: 2, True: 3}\nk = (1, [2])"]
  have hrefused := (hproper.2 s (reachable _ _ _ _)).2 _ hholds
  exact ⟨hbindings, hkeys, hitems, hkeys ▸ hproper.1.dicts 0, hrefused.setAttribute 10 0 (.int 4)⟩

end Session

end Scriptlet
