import Scriptlet.Proofs.ReadBack
import Scriptlet.Proofs.Run
import Scriptlet.Value.Equality

/-
  The expression of data evaluates to a value that shows the data.

  All objects of that value are new: the heap is extended and nothing else changes. Entries and members
  are filed under the keys of the data, which are found by looking through tuples only; a heap has room
  for that, because every tuple in another one was made before it.

  What is proved:
    1. `Heap.keyIn_of_shows` — the key of a value is that of its data.
    2. `Engine.evaluateNode_makes` — evaluating the expression of data makes it.
    3. `Heap.equal_arranged` — values of the same data are equal, also when the elements of sets stand in
       another order.
-/

namespace Scriptlet

namespace Heap

/-- The tuple without elements stands at its place. -/
def HasUnit (h : Heap) : Prop := h.tuples[emptyTupleRef]? = some #[]

theorem hasUnit_initial : initial.HasUnit := rfl

theorem Extends.hasUnit {h h' : Heap} (hext : h.Extends h') (hunit : h.HasUnit) : h'.HasUnit :=
  hext.tuples emptyTupleRef #[] hunit

theorem Extends.size_tuples_le {h h' : Heap} (hext : h.Extends h') :
    h.tuples.size ≤ h'.tuples.size := by
  refine Nat.le_of_not_lt fun hlt => ?_
  have hsome := hext.tuples _ _ (Array.getElem?_eq_getElem hlt)
  rw [Array.getElem?_size] at hsome
  cases hsome

theorem HasUnit.size_tuples_pos {h : Heap} (hunit : h.HasUnit) : 0 < h.tuples.size :=
  (Array.getElem?_eq_some_iff.mp hunit).1

/-! ## Keys -/

mutual

theorem keyWithin_of_shows {h : Heap} : ∀ {d : Data} {v : Value} {n : Nat}, h.Shows d v →
    d.isHashable = true → d.height < n → h.keyWithin n v = .ok d.key
  | d, v, 0, _, _, hn => absurd hn (Nat.not_lt_zero _)
  | .none, v, n + 1, hv, _, _ | .bool _, v, n + 1, hv, _, _ | .int _, v, n + 1, hv, _, _
  | .text _, v, n + 1, hv, _, _ => by
    simp only [Shows] at hv
    subst hv
    rw [Data.key]
    rfl
  | .tuple items, v, n + 1, hv, hd, hn => by
    simp only [Shows] at hv
    obtain ⟨r, vs, rfl, hr, hvs⟩ := hv
    rw [Data.isHashable] at hd
    rw [Data.height] at hn
    have hitems := keyWithin_of_showAll hvs hd (Nat.lt_of_succ_lt_succ hn)
    rw [keyWithin, Data.key, hvs.length_eq]
    simp only [hr, hitems]
    rfl
  | .list _, _, _ + 1, _, hd, _ | .dict _ _, _, _ + 1, _, hd, _ | .set _, _, _ + 1, _, hd, _ => by
    rw [Data.isHashable] at hd
    cases hd

theorem keyWithin_of_showAll {h : Heap} : ∀ {ds : List Data} {vs : List Value} {n : Nat},
    h.ShowAll ds vs → Data.areHashable ds = true → Data.heights ds < n →
      vs.mapM (h.keyWithin n) = .ok (Data.keys ds)
  | [], [], _, _, _, _ => rfl
  | d :: ds, v :: vs, n, hvs, hds, hn => by
    simp only [ShowAll] at hvs
    rw [Data.areHashable, Bool.and_eq_true] at hds
    rw [Data.heights] at hn
    rw [List.mapM_cons, keyWithin_of_shows hvs.1 hds.1 (by omega),
      keyWithin_of_showAll hvs.2 hds.2 (by omega), Data.keys]
    rfl
  | [], _ :: _, _, hvs, _, _ | _ :: _, [], _, hvs, _, _ => by simp only [ShowAll] at hvs

end

theorem keyIn_of_shows {h : Heap} {d : Data} {v : Value} (hv : h.Shows d v) (hd : d.isHashable = true)
    (hn : d.height ≤ h.tuples.size) (context : Text) : h.keyIn v context = .ok d.key := by
  have hkey : h.key v = .ok d.key := keyWithin_of_shows hv hd (Nat.lt_succ_of_le hn)
  have hhash : requireHashable v context = .ok () := by
    cases d <;> simp only [Shows] at hv
    case tuple items =>
      obtain ⟨r, vs, rfl, -⟩ := hv
      rfl
    case list | dict | set =>
      rw [Data.isHashable] at hd
      cases hd
    all_goals
      subst hv
      rfl
  rw [keyIn, hhash]
  exact hkey

/-! ## Entries and members -/

/-- A new key is put behind the others. -/
theorem put_of_notMem {entries : Array Entry} {key : Key} (h : key ∉ entries.toList.map Entry.key)
    (keyValue value : Value) :
    Entry.put entries key keyValue value = entries.push ⟨key, keyValue, value⟩ := by
  have hnone : entries.findIdx? (·.key == key) = none := by
    rw [Array.findIdx?_eq_none_iff]
    intro e he
    rw [beq_eq_false_iff_ne]
    rintro rfl
    exact h (List.mem_map_of_mem (Array.mem_toList_iff.mpr he))
  rw [Entry.put, hnone]

theorem insert_of_notMem {members : Array Member} {key : Key}
    (h : key ∉ members.toList.map Member.key) (value : Value) :
    Member.insert members key value = members.push ⟨key, value⟩ := by
  rw [Member.insert, if_neg]
  intro hany
  obtain ⟨i, hi, hkey⟩ := Array.any_eq_true.mp hany
  exact h (List.mem_map.mpr ⟨members[i], Array.mem_toList_iff.mpr (Array.getElem_mem hi), beq_iff_eq.mp hkey⟩)

theorem foldlM_put {h : Heap} (context : Text) : ∀ (done : Array Entry) {ks : List Data}
    {keys values : List Value}, h.ShowAll ks keys → Data.areHashable ks = true →
      Data.heights ks ≤ h.tuples.size → keys.length = values.length →
      (done.toList.map Entry.key ++ Data.keys ks).Nodup →
      ∃ entries : Array Entry, (keys.zip values).foldlM (m := Except Fault) (fun done (key, value) => do
          return Entry.put done (← h.keyIn key context) key value) done = .ok entries ∧
        entries.toList.map Entry.key = done.toList.map Entry.key ++ Data.keys ks ∧
        entries.toList.map Entry.keyValue = done.toList.map Entry.keyValue ++ keys ∧
        entries.toList.map Entry.value = done.toList.map Entry.value ++ values
  | done, [], [], values, _, _, _, hlength, _ => by
    have hnil : values = [] := List.length_eq_zero_iff.mp hlength.symm
    subst hnil
    exact ⟨done, rfl, (List.append_nil _).symm, (List.append_nil _).symm, (List.append_nil _).symm⟩
  | done, k :: ks, key :: keys, value :: values, hks, hhash, hheight, hlength, hnodup => by
    simp only [ShowAll] at hks
    rw [Data.areHashable, Bool.and_eq_true] at hhash
    rw [Data.heights] at hheight
    rw [Data.keys] at hnodup
    have hnew : k.key ∉ done.toList.map Entry.key := fun hmem =>
      (List.nodup_append.mp hnodup).2.2 _ hmem _ (List.mem_cons_self ..) rfl
    obtain ⟨entries, hfold, hkeys, hkeyValues, hvalues⟩ := foldlM_put context
      (done.push ⟨k.key, key, value⟩) hks.2 hhash.2 (by omega) (Nat.succ.inj hlength)
      (by simpa using hnodup)
    refine ⟨entries, ?_, ?_, ?_, ?_⟩
    · rw [List.zip_cons_cons, List.foldlM_cons]
      simp only [keyIn_of_shows hks.1 hhash.1 (Nat.le_trans (Nat.le_max_left ..) hheight) context]
      show List.foldlM _ (Entry.put done k.key key value) _ = _
      rw [put_of_notMem hnew]
      exact hfold
    · rw [hkeys, Data.keys]
      simp
    · rw [hkeyValues]
      simp
    · rw [hvalues]
      simp
  | _, [], _ :: _, _, hks, _, _, _, _ | _, _ :: _, [], _, hks, _, _, _, _ => by
    simp only [ShowAll] at hks
  | _, _ :: _, _ :: _, [], _, _, _, hlength, _ => by cases hlength

theorem foldlM_insert {h : Heap} (context : Text) : ∀ (done : Array Member) {ds : List Data}
    {values : List Value}, h.ShowAll ds values → Data.areHashable ds = true →
      Data.heights ds ≤ h.tuples.size → (done.toList.map Member.key ++ Data.keys ds).Nodup →
      ∃ members : Array Member, values.foldlM (m := Except Fault) (fun members v => do
          return Member.insert members (← h.keyIn v context) v) done = .ok members ∧
        members.toList.map Member.key = done.toList.map Member.key ++ Data.keys ds ∧
        members.toList.map Member.value = done.toList.map Member.value ++ values
  | done, [], [], _, _, _, _ => ⟨done, rfl, (List.append_nil _).symm, (List.append_nil _).symm⟩
  | done, d :: ds, v :: values, hds, hhash, hheight, hnodup => by
    simp only [ShowAll] at hds
    rw [Data.areHashable, Bool.and_eq_true] at hhash
    rw [Data.heights] at hheight
    rw [Data.keys] at hnodup
    have hnew : d.key ∉ done.toList.map Member.key := fun hmem =>
      (List.nodup_append.mp hnodup).2.2 _ hmem _ (List.mem_cons_self ..) rfl
    obtain ⟨members, hfold, hkeys, hvalues⟩ := foldlM_insert context
      (done.push ⟨d.key, v⟩) hds.2 hhash.2 (by omega) (by simpa using hnodup)
    refine ⟨members, ?_, ?_, ?_⟩
    · rw [List.foldlM_cons, keyIn_of_shows hds.1 hhash.1 (by omega) context]
      show List.foldlM _ (Member.insert done d.key v) _ = _
      rw [insert_of_notMem hnew]
      exact hfold
    · rw [hkeys, Data.keys]
      simp
    · rw [hvalues]
      simp
  | _, [], _ :: _, hds, _, _, _ | _, _ :: _, [], hds, _, _, _ => by simp only [ShowAll] at hds

/-! ## New values -/

/-- From the heap `h` the value `v` has been made, which shows the data. -/
structure Makes (h : Heap) (d : Data) (v : Value) (h' : Heap) : Prop where
  grows : h.Extends h'
  shows : h'.Shows d v
  roomy : d.isHashable = true → d.height ≤ h'.tuples.size

/-- From the heap `h` the values have been made, which show the data one by one. -/
structure MakesAll (h : Heap) (ds : List Data) (vs : List Value) (h' : Heap) : Prop where
  grows : h.Extends h'
  shows : h'.ShowAll ds vs
  roomy : Data.areHashable ds = true → Data.heights ds ≤ h'.tuples.size

variable {h h' : Heap} {items : List Data} {vs : List Value}

theorem Makes.cons {h'' : Heap} {d : Data} {v : Value} (hv : h.Makes d v h')
    (hvs : h'.MakesAll items vs h'') : h.MakesAll (d :: items) (v :: vs) h'' where
  grows := hv.grows.trans hvs.grows
  shows := by
    simp only [ShowAll]
    exact ⟨hv.shows.extend hvs.grows, hvs.shows⟩
  roomy hhash := by
    rw [Data.areHashable, Bool.and_eq_true] at hhash
    rw [Data.heights]
    exact Nat.max_le.mpr
      ⟨Nat.le_trans (hv.roomy hhash.1) hvs.grows.size_tuples_le, hvs.roomy hhash.2⟩

theorem MakesAll.newList (hvs : h.MakesAll items vs h') :
    h.Makes (.list items) (h'.newList vs.toArray).1 (h'.newList vs.toArray).2 where
  grows := hvs.grows.trans (.newList h' vs.toArray)
  shows := by
    simp only [Shows]
    exact ⟨h'.lists.size, vs.toArray, rfl, Array.getElem?_push_size, hvs.shows.extend (.newList h' _)⟩
  roomy hhash := by
    rw [Data.isHashable] at hhash
    cases hhash

theorem MakesAll.newTuple (hunit : h.HasUnit) (hvs : h.MakesAll items vs h') :
    h.Makes (.tuple items) (h'.newTuple vs.toArray).1 (h'.newTuple vs.toArray).2 := by
  have hgrows := Extends.newTuple h' vs.toArray
  cases vs with
  | nil =>
    have hnil : items = [] := List.length_eq_zero_iff.mp hvs.shows.length_eq
    subst hnil
    have hunit' := hvs.grows.hasUnit hunit
    refine ⟨hvs.grows, ?_, fun _ => ?_⟩
    · simp only [Shows]
      exact ⟨emptyTupleRef, #[], rfl, hunit', hvs.shows⟩
    · rw [Data.height, Data.heights]
      exact hunit'.size_tuples_pos
  | cons v vs =>
    refine ⟨hvs.grows.trans hgrows, ?_, fun hhash => ?_⟩
    · simp only [Shows]
      exact ⟨h'.tuples.size, (v :: vs).toArray, rfl, Array.getElem?_push_size, hvs.shows.extend hgrows⟩
    · rw [Data.isHashable] at hhash
      rw [Data.height]
      show _ ≤ (h'.tuples.push _).size
      rw [Array.size_push]
      exact Nat.succ_le_succ (hvs.roomy hhash)

theorem MakesAll.newSet (hvs : h.MakesAll items vs h') (hhash : Data.areHashable items = true)
    (hnodup : (Data.keys items).Nodup) (context : Text) :
    ∃ members, h'.membersOf vs context = .ok members ∧
      h.Makes (.set items) (h'.newSet members).1 (h'.newSet members).2 := by
  obtain ⟨members, hfold, hkeys, hvalues⟩ := foldlM_insert context #[] hvs.shows hhash
    (hvs.roomy hhash) (by simpa using hnodup)
  refine ⟨members, hfold, hvs.grows.trans (.newSet h' members), ?_, fun hset => ?_⟩
  · simp only [Shows]
    refine ⟨h'.sets.size, members, rfl, Array.getElem?_push_size, ?_, by simpa using hkeys⟩
    rw [hvalues]
    exact hvs.shows.extend (.newSet h' members)
  · rw [Data.isHashable] at hset
    cases hset

theorem MakesAll.newDict {h'' : Heap} {ks : List Data} {keys : List Value}
    (hks : h.MakesAll ks keys h') (hvs : h'.MakesAll items vs h'') (hlength : ks.length = items.length)
    (hhash : Data.areHashable ks = true) (hnodup : (Data.keys ks).Nodup) (context : Text) :
    ∃ entries, (keys.zip vs).foldlM (m := Except Fault) (fun done (key, value) => do
          return Entry.put done (← h''.keyIn key context) key value) #[] = .ok entries ∧
      h.Makes (.dict ks items) (h''.newDict entries).1 (h''.newDict entries).2 := by
  have hroomy : Data.heights ks ≤ h''.tuples.size :=
    Nat.le_trans (hks.roomy hhash) hvs.grows.size_tuples_le
  have hsame : keys.length = vs.length := by
    rw [← hks.shows.length_eq, hlength, hvs.shows.length_eq]
  obtain ⟨entries, hfold, hkeys, hkeyValues, hvalues⟩ := foldlM_put context #[]
    (hks.shows.extend hvs.grows) hhash hroomy hsame (by simpa using hnodup)
  refine ⟨entries, hfold, (hks.grows.trans hvs.grows).trans (.newDict h'' entries), ?_, fun hdict => ?_⟩
  · simp only [Shows]
    refine ⟨h''.dicts.size, entries, rfl, Array.getElem?_push_size, ?_, ?_, by simpa using hkeys⟩
    · rw [hkeyValues]
      exact (hks.shows.extend hvs.grows).extend (.newDict h'' entries)
    · rw [hvalues]
      exact hvs.shows.extend (.newDict h'' entries)
  · rw [Data.isHashable] at hdict
    cases hdict

end Heap

theorem Data.length_exprs (ds : List Data) : (Data.exprs ds).length = ds.length := by
  induction ds with
  | nil => rfl
  | cons d ds ih => rw [Data.exprs, List.length_cons, List.length_cons, ih]

/-! ## Expressions that are what they are without spans -/

namespace Expr

variable {e : Expr}

theorem eq_literal {c : Literal} (h : e.bare = .literal nowhere c) : ∃ span, e = .literal span c := by
  cases e <;> simp only [bare, reduceCtorEq] at h
  case literal span value =>
    cases h
    exact ⟨span, rfl⟩

theorem eq_unary {op : UnaryOp} {operand : Expr} (h : e.bare = .unary nowhere op operand) :
    ∃ span inner, e = .unary span op inner ∧ inner.bare = operand := by
  cases e <;> simp only [bare, reduceCtorEq] at h
  case unary span _ inner =>
    cases h
    exact ⟨span, inner, rfl, rfl⟩

theorem eq_list {items : List Expr} (h : e.bare = .list nowhere items) :
    ∃ span es, e = .list span es ∧ bareItems es = items := by
  cases e <;> simp only [bare, reduceCtorEq] at h
  case list span es =>
    cases h
    exact ⟨span, es, rfl, rfl⟩

theorem eq_tuple {items : List Expr} (h : e.bare = .tuple nowhere items) :
    ∃ span es, e = .tuple span es ∧ bareItems es = items := by
  cases e <;> simp only [bare, reduceCtorEq] at h
  case tuple span es =>
    cases h
    exact ⟨span, es, rfl, rfl⟩

theorem eq_set {items : List Expr} (h : e.bare = .set nowhere items) :
    ∃ span es, e = .set span es ∧ bareItems es = items := by
  cases e <;> simp only [bare, reduceCtorEq] at h
  case set span es =>
    cases h
    exact ⟨span, es, rfl, rfl⟩

theorem bareItems_eq_map : ∀ es : List Expr, bareItems es = es.map bare
  | [] => rfl
  | e :: es => by rw [bareItems, List.map_cons, bareItems_eq_map es]

theorem bareEntries_eq_map : ∀ es : List (Expr × Expr), bareEntries es = es.map fun p => (p.1.bare, p.2.bare)
  | [] => rfl
  | (key, value) :: es => by rw [bareEntries, List.map_cons, bareEntries_eq_map es]

theorem eq_dict {keys values : List Expr} (h : e.bare = .dict nowhere (keys.zip values))
    (hlength : keys.length = values.length) :
    ∃ span es, e = .dict span es ∧ bareItems (es.map (·.1)) = keys ∧ bareItems (es.map (·.2)) = values := by
  cases e <;> simp only [bare, reduceCtorEq] at h
  case dict span es =>
    have hentries : es.map (fun p => (p.1.bare, p.2.bare)) = keys.zip values := by
      rw [← bareEntries_eq_map]
      injection h
    refine ⟨span, es, rfl, ?_, ?_⟩
    · rw [bareItems_eq_map, List.map_map, ← List.map_fst_zip (Nat.le_of_eq hlength), ← hentries, List.map_map]
      rfl
    · rw [bareItems_eq_map, List.map_map, ← List.map_snd_zip (Nat.le_of_eq hlength.symm), ← hentries,
        List.map_map]
      rfl

end Expr

/-! ## Evaluation -/

namespace Engine

open Evaluation

variable {limits : Limits} {text : Text}

/-- The value of a node is what it evaluates to. -/
theorem evaluateNode_of_nodeValue {n : Nat} {e : Expr} {s t : State} {v : Value}
    (h : nodeValue limits ⟨tower limits n, n⟩ text e s = .ok (.ok v) t) :
    (tower limits (n + 1) 0).evaluateNode text e s = .ok v t := by
  show node limits ⟨tower limits n, n⟩ text e s = _
  rw [node, Run.bind_apply, Run.mapFault_apply, h]
  rfl

theorem evaluateNode_literal {n : Nat} {span : Span} {c : Literal} (s : State) :
    (tower limits (n + 1) 0).evaluateNode text (.literal span c) s = .ok (constant c) s :=
  evaluateNode_of_nodeValue rfl

/-- A value that is no object shows its data wherever it is. -/
theorem makes_atom {h : Heap} {d : Data} {v : Value} (hshows : h.Shows d v) (hheight : d.height = 0) :
    h.Makes d v h :=
  ⟨.refl h, hshows, fun _ => by rw [hheight]; exact Nat.zero_le _⟩

theorem evaluateNode_negative {n : Nat} {span inner : Span} {m : Nat} (s : State) :
    (tower limits (n + 3) 0).evaluateNode text (.unary span .negative (.literal inner (.int m))) s =
      .ok (.int (-m)) s := by
  refine evaluateNode_of_nodeValue ?_
  show ((do return .ok (← Operation.unary .negative
    (← (tower limits (n + 2) 1).evaluateNode text (.literal inner (.int m)))) : Run Found) s) = _
  rw [tower_below]
  exact Run.bind_of_ok (evaluateNode_literal s) _

mutual

/-- The expression of data evaluates to a new value that shows it, and nothing else changes. Each level of
the data takes four levels of the run: one for the display, and three to its elements. -/
theorem evaluateNode_makes : ∀ {d : Data} {e : Expr} {s : State} {n : Nat}, e.bare = d.expr →
    d.IsReadable → s.heap.HasUnit → 4 * d.height + 3 ≤ n →
      ∃ v h, (tower limits n 0).evaluateNode text e s = .ok v { s with heap := h } ∧
        s.heap.Makes d v h
  | d, e, s, 0, _, _, _, hn => by omega
  | .none, e, s, n + 1, he, _, _, _ => by
    rw [Data.expr] at he
    obtain ⟨span, rfl⟩ := Expr.eq_literal he
    exact ⟨.none, s.heap, evaluateNode_literal s, makes_atom (by simp only [Heap.Shows]) rfl⟩
  | .bool b, e, s, n + 1, he, _, _, _ => by
    rw [Data.expr] at he
    obtain ⟨span, rfl⟩ := Expr.eq_literal he
    exact ⟨.bool b, s.heap, evaluateNode_literal s, makes_atom (by simp only [Heap.Shows]) rfl⟩
  | .text t, e, s, n + 1, he, _, _, _ => by
    rw [Data.expr] at he
    obtain ⟨span, rfl⟩ := Expr.eq_literal he
    exact ⟨.text t, s.heap, evaluateNode_literal s, makes_atom (by simp only [Heap.Shows]) rfl⟩
  | .int m, e, s, n + 1, he, _, _, hn => by
    rw [Data.expr] at he
    have hmakes : s.heap.Makes (.int m) (.int m) s.heap := makes_atom (by simp only [Heap.Shows]) rfl
    split at he
    · obtain ⟨span, inner, rfl, hinner⟩ := Expr.eq_unary he
      obtain ⟨span', rfl⟩ := Expr.eq_literal hinner
      obtain ⟨k, rfl⟩ : ∃ k, n = k + 2 := ⟨n - 2, by omega⟩
      refine ⟨.int m, s.heap, ?_, hmakes⟩
      have hvalue : -(m.natAbs : Int) = m := by omega
      rw [evaluateNode_negative, hvalue]
    · obtain ⟨span, rfl⟩ := Expr.eq_literal he
      have hvalue : (m.natAbs : Int) = m := by omega
      refine ⟨.int m, s.heap, ?_, hmakes⟩
      rw [evaluateNode_literal, constant, hvalue]
  | .list items, e, s, n + 1, he, hd, hunit, hn => by
    rw [Data.expr] at he
    rw [Data.IsReadable] at hd
    rw [Data.height] at hn
    obtain ⟨span, es, rfl, hes⟩ := Expr.eq_list he
    obtain ⟨vs, h, hvalues, hmakes⟩ := values_makes (n := n - 3) hes hd hunit (by omega)
    refine ⟨_, _, evaluateNode_of_nodeValue ?_, hmakes.newList⟩
    show ((do return .ok (← Run.newList (← values (tower limits n 3) text es)) : Run Found) s) = _
    rw [tower_below]
    exact Run.bind_of_ok hvalues _
  | .tuple items, e, s, n + 1, he, hd, hunit, hn => by
    rw [Data.expr] at he
    rw [Data.IsReadable] at hd
    rw [Data.height] at hn
    obtain ⟨span, es, rfl, hes⟩ := Expr.eq_tuple he
    obtain ⟨vs, h, hvalues, hmakes⟩ := values_makes (n := n - 3) hes hd hunit (by omega)
    refine ⟨_, _, evaluateNode_of_nodeValue ?_, hmakes.newTuple hunit⟩
    show ((do return .ok (← Run.newTuple (← values (tower limits n 3) text es)) : Run Found) s) = _
    rw [tower_below]
    exact Run.bind_of_ok hvalues _
  | .dict ks vs, e, s, n + 1, he, hd, hunit, hn => by
    rw [Data.expr] at he
    rw [Data.IsReadable] at hd
    obtain ⟨hks, hvs, hlength, hhash, hnodup⟩ := hd
    rw [Data.height] at hn
    obtain ⟨span, es, rfl, hkeyItems, hvalueItems⟩ := Expr.eq_dict he (by
      rw [Data.length_exprs, Data.length_exprs, hlength])
    obtain ⟨keys, h, hkeys, hmakesKeys⟩ := values_makes (n := n - 3) hkeyItems hks hunit (by omega)
    obtain ⟨values', h', hvalues, hmakesValues⟩ := values_makes (s := { s with heap := h }) (n := n - 3)
      hvalueItems hvs (hmakesKeys.grows.hasUnit hunit) (by omega)
    obtain ⟨entries, hfold, hmakes⟩ := hmakesKeys.newDict hmakesValues hlength hhash hnodup "dict display"
    refine ⟨_, _, evaluateNode_of_nodeValue ?_, hmakes⟩
    rw [← tower_below] at hkeys hvalues
    rw [nodeValue]
    refine (Run.bind_of_ok hkeys _).trans ((Run.bind_of_ok hvalues _).trans ?_)
    refine (Run.bind_of_ok (a := entries) (t := { s with heap := h' }) ?_ _).trans rfl
    rw [Run.look_apply]
    simp only [hfold]
  | .set items, e, s, n + 1, he, hd, hunit, hn => by
    rw [Data.expr] at he
    rw [Data.IsReadable] at hd
    obtain ⟨hread, -, hhash, hnodup⟩ := hd
    rw [Data.height] at hn
    obtain ⟨span, es, rfl, hes⟩ := Expr.eq_set he
    obtain ⟨vs, h, hvalues, hmakesAll⟩ := values_makes (n := n - 3) hes hread hunit (by omega)
    obtain ⟨members, hmembers, hmakes⟩ := hmakesAll.newSet hhash hnodup "set display"
    have hlook : Run.look (fun h => h.membersOf vs "set display") { s with heap := h } =
        .ok members { s with heap := h } := by
      rw [Run.look_apply]
      simp only [hmembers]
    refine ⟨_, _, evaluateNode_of_nodeValue ?_, hmakes⟩
    rw [← tower_below] at hvalues
    rw [nodeValue]
    exact (Run.bind_of_ok hvalues _).trans ((Run.bind_of_ok hlook _).trans rfl)

theorem values_makes : ∀ {ds : List Data} {es : List Expr} {s : State} {n : Nat},
    Expr.bareItems es = Data.exprs ds → Data.AreReadable ds → s.heap.HasUnit →
      4 * Data.heights ds + 3 ≤ n →
      ∃ vs h, values (tower limits n 0) text es s = .ok vs { s with heap := h } ∧
        s.heap.MakesAll ds vs h
  | [], [], s, n, _, _, _, _ => ⟨[], s.heap, rfl, .refl _, by simp only [Heap.ShowAll], fun _ => Nat.zero_le _⟩
  | d :: ds, e :: es, s, n, he, hds, hunit, hn => by
    rw [Expr.bareItems, Data.exprs] at he
    rw [Data.AreReadable] at hds
    rw [Data.heights] at hn
    obtain ⟨hfirst, hrest⟩ := List.cons_eq_cons.mp he
    obtain ⟨v, h, hvalue, hmakes⟩ := evaluateNode_makes (n := n) hfirst hds.1 hunit (by omega)
    obtain ⟨vs, h', hvalues, hmakesAll⟩ := values_makes (s := { s with heap := h }) (n := n) hrest hds.2
      (hmakes.grows.hasUnit hunit) (by omega)
    refine ⟨v :: vs, h', ?_, hmakes.cons hmakesAll⟩
    rw [values, List.mapM_cons, Run.bind_of_ok hvalue]
    exact Run.bind_of_ok hvalues _
  | [], _ :: _, _, _, he, _, _, _ | _ :: _, [], _, _, he, _, _, _ => by cases he

end

end Engine

end Scriptlet
