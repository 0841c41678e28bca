import Scriptlet.Proofs.ReadBack.Printing
import Scriptlet.Value.Equality

/-
  Values that show the same data are equal, also when the elements of sets stand in another order.

  Lists and tuples are compared element by element, mappings by the values under the same keys, and sets
  by their keys alone.
-/

namespace Scriptlet

theorem allHold_of_forall {α : Type} {test : α → Except Fault Bool} : ∀ {as : List α},
    (∀ a ∈ as, test a = .ok true) → allHold test as = .ok true
  | [], _ => rfl
  | a :: as, h => by
    have hrest := allHold_of_forall fun b hb => h b (List.mem_cons_of_mem a hb)
    rw [allHold, h a (List.mem_cons_self ..)]
    exact hrest

namespace Entry

/-- Of entries with different keys the one under a key is found. -/
theorem find?_of_mem_list : ∀ {entries : List Entry} {e : Entry}, e ∈ entries →
    (entries.map Entry.key).Nodup → entries.find? (·.key == e.key) = some e
  | [], _, he, _ => absurd he List.not_mem_nil
  | first :: entries, e, he, hnodup => by
    rw [List.map_cons, List.nodup_cons] at hnodup
    rcases List.mem_cons.mp he with rfl | he
    · exact List.find?_cons_of_pos (beq_self_eq_true e.key)
    · have hne : first.key ≠ e.key := fun hkey => hnodup.1 (hkey ▸ List.mem_map_of_mem he)
      rw [List.find?_cons, beq_eq_false_iff_ne.mpr hne]
      exact find?_of_mem_list he hnodup.2

theorem find?_of_mem {entries : Array Entry} {e : Entry} (he : e ∈ entries.toList)
    (hnodup : (entries.toList.map Entry.key).Nodup) : find? entries e.key = some e.value := by
  rw [find?, ← Array.find?_toList, find?_of_mem_list he hnodup]
  rfl

end Entry

/-- What stands at the same place of a list of the same length. -/
theorem exists_mem_zip {α β γ : Type} {f : α → γ} {g : β → γ} : ∀ {as : List α} {bs : List β} {a : α},
    as.map f = bs.map g → a ∈ as → ∃ b, (a, b) ∈ as.zip bs ∧ f a = g b
  | a :: as, b :: bs, c, heq, hc => by
    rw [List.map_cons, List.map_cons, List.cons_eq_cons] at heq
    rcases List.mem_cons.mp hc with rfl | hc
    · exact ⟨b, List.mem_cons_self .., heq.1⟩
    · obtain ⟨b', hb', hsame⟩ := exists_mem_zip heq.2 hc
      exact ⟨b', List.mem_cons_of_mem _ hb', hsame⟩
  | _ :: _, [], _, heq, _ => by cases heq

namespace Heap

variable {h : Heap}

/-- Two values are equal as elements: they are the same object or equal. -/
abbrev elementsEqual (h : Heap) (n : Nat) (p : Value × Value) : Except Fault Bool :=
  if p.1 = p.2 then .ok true else h.equal n p.1 p.2

theorem equal_lists {r q : Ref} {n : Nat} (hsize : (h.list r).size = (h.list q).size)
    (hitems : ∀ p ∈ (h.list r).toList.zip (h.list q).toList, h.elementsEqual n p = .ok true) :
    h.equal (n + 1) (.list r) (.list q) = .ok true := by
  rw [equal]
  simp only [hsize, if_true]
  exact allHold_of_forall hitems

theorem equal_tuples {r q : Ref} {n : Nat} (hsize : (h.tuple r).size = (h.tuple q).size)
    (hitems : ∀ p ∈ (h.tuple r).toList.zip (h.tuple q).toList, h.elementsEqual n p = .ok true) :
    h.equal (n + 1) (.tuple r) (.tuple q) = .ok true := by
  rw [equal]
  simp only [hsize, if_true]
  exact allHold_of_forall hitems

theorem equal_dicts {r q : Ref} {n : Nat}
    (hkeys : (h.dict r).toList.map Entry.key = (h.dict q).toList.map Entry.key)
    (hnodup : ((h.dict q).toList.map Entry.key).Nodup)
    (hvalues : ∀ p ∈ ((h.dict r).toList.map Entry.value).zip ((h.dict q).toList.map Entry.value),
      h.elementsEqual n p = .ok true) :
    h.equal (n + 1) (.dict r) (.dict q) = .ok true := by
  have hsize : (h.dict r).size = (h.dict q).size := by
    have hlength := congrArg List.length hkeys
    rwa [List.length_map, List.length_map, Array.length_toList, Array.length_toList] at hlength
  rw [equal]
  simp only [hsize, if_true]
  refine allHold_of_forall fun e he => ?_
  obtain ⟨e', hpair, hkey⟩ := exists_mem_zip hkeys he
  have hfind : Entry.find? (h.dict q) e.key = some e'.value := by
    rw [hkey]
    exact Entry.find?_of_mem (List.of_mem_zip hpair).2 hnodup
  have hvalue : h.elementsEqual n (e.value, e'.value) = .ok true := by
    refine hvalues _ ?_
    rw [List.zip_map]
    exact List.mem_map.mpr ⟨(e, e'), hpair, rfl⟩
  simp only [hfind]
  exact hvalue

theorem equal_sets {r q : Ref} {n : Nat}
    (hperm : ((h.set q).toList.map Member.key).Perm ((h.set r).toList.map Member.key)) :
    h.equal (n + 1) (.set r) (.set q) = .ok true := by
  have hsize : (h.set r).size = (h.set q).size := by
    have hlength := hperm.length_eq
    rw [List.length_map, List.length_map, Array.length_toList, Array.length_toList] at hlength
    exact hlength.symm
  have hall : ((h.set r).all fun m => (h.set q).any fun n => n.key == m.key) = true := by
    rw [← Array.all_toList, List.all_eq_true]
    intro m hm
    obtain ⟨m', hm', hkey⟩ := List.mem_map.mp (hperm.mem_iff.mpr (List.mem_map_of_mem hm))
    rw [← Array.any_toList, List.any_eq_true]
    exact ⟨m', hm', beq_iff_eq.mpr hkey⟩
  have hsame : ((h.set r).size == (h.set q).size &&
      (h.set r).all fun m => (h.set q).any fun n => n.key == m.key) = true := by
    rw [hall, hsize, beq_self_eq_true, Bool.and_self]
  rw [equal]
  exact congrArg Except.ok hsame

/-! ## Values of the same data -/

mutual

theorem equal_arranged : ∀ {d : Data} {v w : Value} {n : Nat}, h.Shows d v → h.Shows d.arranged w →
    d.IsReadable → d.height < n → h.equal n v w = .ok true
  | d, _, _, 0, _, _, _, hn => absurd hn (Nat.not_lt_zero _)
  | .none, v, w, n + 1, hv, hw, _, _ => by
    simp only [Data.arranged, Shows] at hv hw
    subst hv hw
    rfl
  | .bool b, v, w, n + 1, hv, hw, _, _ => by
    simp only [Data.arranged, Shows] at hv hw
    subst hv hw
    cases b <;> rfl
  | .int m, v, w, n + 1, hv, hw, _, _ => by
    simp only [Data.arranged, Shows] at hv hw
    subst hv hw
    simp [equal, Value.compareNumbers?, Value.integer?]
  | .text t, v, w, n + 1, hv, hw, _, _ => by
    simp only [Data.arranged, Shows] at hv hw
    subst hv hw
    simp [equal, Value.compareNumbers?, Value.integer?]
  | .list items, v, w, n + 1, hv, hw, hd, hn => by
    simp only [Data.arranged, Shows] at hv hw
    obtain ⟨r, vs, rfl, hr, hvs⟩ := hv
    obtain ⟨q, ws, rfl, hq, hws⟩ := hw
    rw [Data.IsReadable] at hd
    rw [Data.height] at hn
    have hpairs := equal_arrangedAll (n := n) hvs hws hd (Nat.lt_of_succ_lt_succ hn)
    refine equal_lists ?_ ?_
    · have hsize : vs.toList.length = ws.toList.length := by
        rw [← hvs.length_eq, ← hws.length_eq, Data.length_arrangedAll]
      rw [list_eq hr, list_eq hq]
      exact hsize
    · rw [list_eq hr, list_eq hq]
      exact hpairs
  | .tuple items, v, w, n + 1, hv, hw, hd, hn => by
    simp only [Data.arranged, Shows] at hv hw
    obtain ⟨r, vs, rfl, hr, hvs⟩ := hv
    obtain ⟨q, ws, rfl, hq, hws⟩ := hw
    rw [Data.IsReadable] at hd
    rw [Data.height] at hn
    have hpairs := equal_arrangedAll (n := n) hvs hws hd (Nat.lt_of_succ_lt_succ hn)
    refine equal_tuples ?_ ?_
    · have hsize : vs.toList.length = ws.toList.length := by
        rw [← hvs.length_eq, ← hws.length_eq, Data.length_arrangedAll]
      rw [tuple_eq hr, tuple_eq hq]
      exact hsize
    · rw [tuple_eq hr, tuple_eq hq]
      exact hpairs
  | .dict ks vs, v, w, n + 1, hv, hw, hd, hn => by
    simp only [Data.arranged, Shows] at hv hw
    obtain ⟨r, xs, rfl, hr, -, hxs, hxkeys⟩ := hv
    obtain ⟨q, ys, rfl, hq, -, hys, hykeys⟩ := hw
    rw [Data.IsReadable] at hd
    rw [Data.height] at hn
    have hpairs := equal_arrangedAll (n := n) hxs hys hd.2.1 (by omega)
    refine equal_dicts ?_ ?_ ?_
    · rw [dict_eq hr, dict_eq hq, hxkeys, hykeys]
    · rw [dict_eq hq, hykeys]
      exact hd.2.2.2.2
    · rw [dict_eq hr, dict_eq hq]
      exact hpairs
  | .set items, v, w, n + 1, hv, hw, _, _ => by
    simp only [Data.arranged, Shows] at hv hw
    obtain ⟨r, xs, rfl, hr, -, hxkeys⟩ := hv
    obtain ⟨q, ys, rfl, hq, -, hykeys⟩ := hw
    refine equal_sets ?_
    rw [set_eq hr, set_eq hq, hxkeys, hykeys, Data.keys_eq_map, Data.keys_eq_map]
    exact (Data.inOrder_perm items).map Data.key

theorem equal_arrangedAll : ∀ {ds : List Data} {vs ws : List Value} {n : Nat}, h.ShowAll ds vs →
    h.ShowAll (Data.arrangedAll ds) ws → Data.AreReadable ds → Data.heights ds < n →
      ∀ p ∈ vs.zip ws, h.elementsEqual n p = .ok true
  | [], [], _, _, _, _, _, _ => fun p hp => by cases hp
  | d :: ds, v :: vs, w :: ws, n, hvs, hws, hds, hn => by
    simp only [Data.arrangedAll, ShowAll] at hvs hws
    rw [Data.AreReadable] at hds
    rw [Data.heights] at hn
    rw [List.zip_cons_cons]
    refine List.forall_mem_cons.mpr
      ⟨?_, equal_arrangedAll hvs.2 hws.2 hds.2 (by omega)⟩
    rw [elementsEqual, equal_arranged hvs.1 hws.1 hds.1 (by omega), ite_self]
  | _ :: _, _ :: _, [], _, _, hws, _, _ => by simp only [Data.arrangedAll, ShowAll] at hws
  | [], _ :: _, _, _, hvs, _, _, _ | _ :: _, [], _, _, hvs, _, _, _ => by simp only [ShowAll] at hvs

end

end Heap

end Scriptlet
