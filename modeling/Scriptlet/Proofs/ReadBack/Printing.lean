import Scriptlet.Proofs.ReadBack

/-
  Values are printed as the data that they show is written.

  What is proved:
    1. `Heap.repr_of_shows` — the text of a value is that of its data, with the elements of sets in the
       order in which they are printed, as soon as there are levels enough for it.
    2. `Data.arranged_isReadable` — putting sets in that order keeps data readable.
-/

namespace Scriptlet

namespace Data

theorem writtenAll_eq_map : ∀ ds : List Data, writtenAll ds = ds.map written
  | [] => rfl
  | d :: ds => by rw [writtenAll, writtenAll_eq_map ds, List.map_cons]

theorem keys_eq_map : ∀ ds : List Data, keys ds = ds.map key
  | [] => rfl
  | d :: ds => by rw [keys, keys_eq_map ds, List.map_cons]

theorem length_arrangedAll : ∀ ds : List Data, (arrangedAll ds).length = ds.length
  | [] => rfl
  | d :: ds => by rw [arrangedAll, List.length_cons, List.length_cons, length_arrangedAll ds]

theorem areReadable_iff {ds : List Data} : AreReadable ds ↔ ∀ d ∈ ds, d.IsReadable := by
  induction ds with
  | nil => simp [AreReadable]
  | cons d ds ih => simp [AreReadable, ih]

theorem areHashable_iff {ds : List Data} : areHashable ds = true ↔ ∀ d ∈ ds, d.isHashable = true := by
  induction ds with
  | nil => simp [areHashable]
  | cons d ds ih => simp [areHashable, ih]

/-! ## Data that is printed -/

mutual

/-- Data whose text says what it is: its integers are not too long, keys and elements are hashable, and no
set is empty. -/
def IsPrintable : Data → Prop
  | .none | .bool _ | .text _ => True
  | .int n => n.natAbs < tenTo NumberText.maxDigits
  | .list items | .tuple items => ArePrintable items
  | .dict ks vs => ArePrintable ks ∧ ArePrintable vs ∧ areHashable ks = true
  | .set items => ArePrintable items ∧ items ≠ [] ∧ areHashable items = true

def ArePrintable : List Data → Prop
  | [] => True
  | d :: rest => d.IsPrintable ∧ ArePrintable rest

end

mutual

theorem IsReadable.isPrintable : ∀ {d : Data}, d.IsReadable → d.IsPrintable
  | .none, _ | .bool _, _ | .text _, _ => by simp only [IsPrintable]
  | .int n, h => by
    rw [IsReadable] at h
    rw [IsPrintable]
    exact h
  | .list items, h | .tuple items, h => by
    rw [IsReadable] at h
    rw [IsPrintable]
    exact h.arePrintable
  | .dict ks vs, h => by
    rw [IsReadable] at h
    rw [IsPrintable]
    exact ⟨h.1.arePrintable, h.2.1.arePrintable, h.2.2.2.1⟩
  | .set items, h => by
    rw [IsReadable] at h
    rw [IsPrintable]
    exact ⟨h.1.arePrintable, h.2.1, h.2.2.1⟩

theorem AreReadable.arePrintable : ∀ {ds : List Data}, AreReadable ds → ArePrintable ds
  | [], _ => by simp only [ArePrintable]
  | d :: ds, h => by
    rw [AreReadable] at h
    rw [ArePrintable]
    exact ⟨h.1.isPrintable, h.2.arePrintable⟩

end

/-! ## Sets in order -/

mutual

/-- What is hashable holds no sets. -/
theorem arranged_of_isHashable : ∀ {d : Data}, d.isHashable = true → d.arranged = d
  | .none, _ | .bool _, _ | .int _, _ | .text _, _ => by rw [arranged]
  | .tuple items, h => by
    rw [isHashable] at h
    rw [arranged, arrangedAll_of_areHashable h]
  | .list _, h | .dict _ _, h | .set _, h => by
    rw [isHashable] at h
    cases h

theorem arrangedAll_of_areHashable : ∀ {ds : List Data}, areHashable ds = true → arrangedAll ds = ds
  | [], _ => rfl
  | d :: ds, h => by
    rw [areHashable, Bool.and_eq_true] at h
    rw [arrangedAll, arranged_of_isHashable h.1, arrangedAll_of_areHashable h.2]

end

/-- The order in which the elements of a set are printed. -/
abbrev inOrder (items : List Data) : List Data :=
  items.mergeSort fun a b => !Text.before b.written a.written

theorem inOrder_perm (items : List Data) : (inOrder items).Perm items := List.mergeSort_perm items _

/-- The texts of the elements in order are the texts, sorted. -/
theorem sorted_writtenAll (items : List Data) :
    Text.sorted (writtenAll items) = writtenAll (inOrder items) := by
  have hmap := List.map_mergeSort (l := items) (f := written)
    (r := fun a b => !Text.before b.written a.written) (s := fun s t => !Text.before t s)
    fun _ _ _ _ => rfl
  rw [writtenAll_eq_map, writtenAll_eq_map]
  exact hmap.symm

mutual

theorem arranged_isReadable : ∀ {d : Data}, d.IsReadable → d.arranged.IsReadable
  | .none, h | .bool _, h | .int _, h | .text _, h => by
    rw [arranged]
    exact h
  | .list items, h | .tuple items, h => by
    rw [IsReadable] at h
    rw [arranged, IsReadable]
    exact arrangedAll_areReadable h
  | .dict ks vs, h => by
    rw [IsReadable] at h
    obtain ⟨hks, hvs, hlength, hhash, hkeys⟩ := h
    rw [arranged, IsReadable]
    exact ⟨hks, arrangedAll_areReadable hvs, by rw [hlength, length_arrangedAll], hhash, hkeys⟩
  | .set items, h => by
    rw [IsReadable] at h
    obtain ⟨hitems, hne, hhash, hkeys⟩ := h
    have hperm := inOrder_perm items
    rw [arranged, IsReadable]
    refine ⟨areReadable_iff.mpr fun d hd => ?_, fun hnil => ?_, areHashable_iff.mpr fun d hd => ?_, ?_⟩
    · exact areReadable_iff.mp hitems d (hperm.mem_iff.mp hd)
    · have hempty : inOrder items = [] := hnil
      rw [hempty] at hperm
      exact hne (List.nil_perm.mp hperm)
    · exact areHashable_iff.mp hhash d (hperm.mem_iff.mp hd)
    · rw [keys_eq_map] at hkeys ⊢
      exact (hperm.map key).nodup_iff.mpr hkeys

theorem arrangedAll_areReadable : ∀ {ds : List Data}, AreReadable ds → AreReadable (arrangedAll ds)
  | [], h => h
  | d :: ds, h => by
    rw [AreReadable] at h
    rw [arrangedAll, AreReadable]
    exact ⟨arranged_isReadable h.1, arrangedAll_areReadable h.2⟩

end

end Data

/-! ## Printing -/

namespace Heap

/-- How the language prints values. -/
def printStyle : PrintStyle := ⟨true, true, false⟩

/-- What is made of keys and what is made of values is combined entry by entry. -/
theorem mapM_entries {α β γ : Type} {f : Value → Except Fault α} {g : Value → Except Fault β}
    (combine : α → β → γ) : ∀ {entries : List Entry} {ks : List α} {vs : List β},
    (entries.map Entry.keyValue).mapM f = .ok ks → (entries.map Entry.value).mapM g = .ok vs →
      (entries.mapM fun e => do
        let key ← f e.keyValue
        return combine key (← g e.value)) = .ok (List.zipWith combine ks vs)
  | [], ks, vs, hks, hvs => by
    cases hks
    cases hvs
    rfl
  | e :: entries, ks, vs, hks, hvs => by
    rw [List.map_cons, List.mapM_cons] at hks hvs
    cases hkey : f e.keyValue with
    | error fault => rw [hkey] at hks; cases hks
    | ok key =>
      cases hvalue : g e.value with
      | error fault => rw [hvalue] at hvs; cases hvs
      | ok value =>
        cases hksRest : (entries.map Entry.keyValue).mapM f with
        | error fault => rw [hkey, hksRest] at hks; cases hks
        | ok ksRest =>
          cases hvsRest : (entries.map Entry.value).mapM g with
          | error fault => rw [hvalue, hvsRest] at hvs; cases hvs
          | ok vsRest =>
            rw [hkey, hksRest] at hks
            rw [hvalue, hvsRest] at hvs
            cases hks
            cases hvs
            rw [List.mapM_cons, hkey, hvalue, mapM_entries combine hksRest hvsRest, List.zipWith_cons_cons]
            rfl

theorem integerText_of_short {n : Int} (h : n.natAbs < tenTo NumberText.maxDigits) :
    integerText n = .ok (Text.ofInt n) := by
  unfold integerText NumberText.ofInt?
  rw [if_pos h]

mutual

theorem render_of_shows {h : Heap} : ∀ (within : List Value) {d : Data} {v : Value} {n : Nat},
    h.Shows d v → d.IsPrintable → d.height < n →
      h.render printStyle n within v = .ok d.arranged.written
  | _, d, v, 0, _, _, hn => absurd hn (Nat.not_lt_zero _)
  | _, .none, v, n + 1, hv, _, _ => by
    simp only [Shows] at hv
    subst hv
    rw [Data.arranged, Data.written]
    rfl
  | _, .bool b, v, n + 1, hv, _, _ => by
    simp only [Shows] at hv
    subst hv
    rw [Data.arranged, Data.written]
    rfl
  | _, .int m, v, n + 1, hv, hd, _ => by
    simp only [Shows] at hv
    subst hv
    rw [Data.IsPrintable] at hd
    simp only [Data.arranged, Data.written, render]
    exact integerText_of_short hd
  | _, .text t, v, n + 1, hv, _, _ => by
    simp only [Shows] at hv
    subst hv
    rw [Data.arranged, Data.written]
    rfl
  | within, .list items, v, n + 1, hv, hd, hn => by
    simp only [Shows] at hv
    obtain ⟨r, vs, rfl, hr, hvs⟩ := hv
    rw [Data.IsPrintable] at hd
    rw [Data.height] at hn
    have hitems := renderAll_of_showAll (.list r :: within) hvs hd (Nat.lt_of_succ_lt_succ hn)
    rw [render, Data.arranged, Data.written]
    simp only [printStyle, Bool.false_and, list_eq hr] at hitems ⊢
    rw [hitems]
    simp only [← List.append_assoc]
    rfl
  | within, .tuple items, v, n + 1, hv, hd, hn => by
    simp only [Shows] at hv
    obtain ⟨r, vs, rfl, hr, hvs⟩ := hv
    rw [Data.IsPrintable] at hd
    rw [Data.height] at hn
    have hitems := renderAll_of_showAll (.tuple r :: within) hvs hd (Nat.lt_of_succ_lt_succ hn)
    have hlength : vs.toList.length = (Data.arrangedAll items).length := by
      rw [Data.length_arrangedAll, hvs.length_eq]
    rw [render, Data.arranged, Data.written]
    simp only [printStyle, Bool.false_and, tuple_eq hr, hlength] at hitems ⊢
    rw [hitems]
    simp only [← List.append_assoc]
    rfl
  | within, .dict ks vs, v, n + 1, hv, hd, hn => by
    simp only [Shows] at hv
    obtain ⟨r, entries, rfl, hr, hks, hvs, -⟩ := hv
    rw [Data.IsPrintable] at hd
    obtain ⟨hksPrint, hvsPrint, hhash⟩ := hd
    rw [Data.height] at hn
    have hkeys := renderAll_of_showAll (.dict r :: within) hks hksPrint (n := n) (by omega)
    have hvalues := renderAll_of_showAll (.dict r :: within) hvs hvsPrint (n := n) (by omega)
    rw [Data.arrangedAll_of_areHashable hhash] at hkeys
    have hentries := mapM_entries (fun key value : Text => key ++ ": " ++ value) hkeys hvalues
    have htext : (fun key value : Text => key ++ ": " ++ value) = Data.entryText :=
      funext fun key => funext fun value => List.append_assoc ..
    rw [render, Data.arranged, Data.written]
    simp only [printStyle, Bool.false_and, dict_eq hr] at hentries ⊢
    rw [hentries, htext]
    simp only [← List.append_assoc]
    rfl
  | within, .set items, v, n + 1, hv, hd, hn => by
    simp only [Shows] at hv
    obtain ⟨r, members, rfl, hr, hvs, -⟩ := hv
    rw [Data.IsPrintable] at hd
    obtain ⟨hprint, hne, hhash⟩ := hd
    rw [Data.height] at hn
    have hitems := renderAll_of_showAll (.set r :: within) hvs hprint (Nat.lt_of_succ_lt_succ hn)
    rw [Data.arrangedAll_of_areHashable hhash] at hitems
    have hsome : (members.toList.map Member.value).isEmpty = false := by
      rw [List.isEmpty_eq_false_iff, ← List.length_pos_iff, ← hvs.length_eq, List.length_pos_iff]
      exact hne
    rw [render, Data.arranged, Data.written, ← Data.sorted_writtenAll]
    simp only [printStyle, set_eq hr, hsome] at hitems ⊢
    rw [hitems]
    simp only [← List.append_assoc]
    rfl

theorem renderAll_of_showAll {h : Heap} : ∀ (within : List Value) {ds : List Data} {vs : List Value}
    {n : Nat}, h.ShowAll ds vs → Data.ArePrintable ds → Data.heights ds < n →
      vs.mapM (h.render printStyle n within) = .ok (Data.writtenAll (Data.arrangedAll ds))
  | _, [], [], _, _, _, _ => rfl
  | within, d :: ds, v :: vs, n, hvs, hds, hn => by
    simp only [ShowAll] at hvs
    rw [Data.ArePrintable] at hds
    rw [Data.heights] at hn
    rw [List.mapM_cons, render_of_shows within hvs.1 hds.1 (by omega),
      renderAll_of_showAll within hvs.2 hds.2 (by omega), Data.arrangedAll, Data.writtenAll]
    rfl
  | _, [], _ :: _, _, hvs, _, _ | _, _ :: _, [], _, hvs, _, _ => by simp only [ShowAll] at hvs

end

theorem repr_of_shows {h : Heap} {d : Data} {v : Value} {n : Nat} (hv : h.Shows d v)
    (hd : d.IsPrintable) (hn : d.height < n) : h.repr n v = .ok d.arranged.written :=
  render_of_shows [] hv hd hn

end Heap

end Scriptlet
