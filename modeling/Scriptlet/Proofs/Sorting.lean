import Scriptlet.Call.Sorting
import Scriptlet.Proofs.Kinds

/-
  Sorting moves elements and makes none.

  Every step of the sorting moves elements between lists. So what holds of all elements holds of them when
  they are sorted, and the number of all of them together never grows.

  What is proved:
    1. `Sorting.gives_sort` — what holds of all elements holds of them when they are sorted.
    2. `Sorting.sort_length` — sorted elements are not more than before.
-/

namespace Scriptlet

namespace Sorting

variable {α : Type} {less : α → α → Except Fault Bool} {p : α → Prop}

/-- What holds of all elements holds of all elements of the first run and behind it. -/
theorem gives_firstRun {items : List α} (hitems : ∀ x ∈ items, p x) :
    Gives (firstRun less items) fun parts => (∀ x ∈ parts.1, p x) ∧ ∀ x ∈ parts.2, p x := by
  unfold firstRun
  split
  · refine Gives.any.bind fun falling _ => Gives.any.bind fun length _ => .pure ⟨?_, ?_⟩
    · intro x hx
      cases falling with
      | true => exact hitems x (List.mem_of_mem_take (List.mem_reverse.mp hx))
      | false => exact hitems x (List.mem_of_mem_take hx)
    · exact fun x hx => hitems x (List.mem_of_mem_drop hx)
  · exact .pure ⟨hitems, fun x hx => absurd hx List.not_mem_nil⟩

theorem gives_insertAll {sorted : Array α} {items : List α} (hsorted : ∀ x ∈ sorted, p x)
    (hitems : ∀ x ∈ items, p x) :
    Gives (insertAll less sorted items) fun all => ∀ x ∈ all, p x := by
  refine Gives.foldlM hsorted fun item hitem sorted hsorted => ?_
  refine Gives.any.bind fun place _ => .pure fun x hx => ?_
  unfold Array.insertIdxIfInBounds at hx
  split at hx
  · rcases Array.mem_insertIdx.mp hx with rfl | hx
    · exact hitems x hitem
    · exact hsorted x hx
  · exact hsorted x hx

theorem gives_runs {least steps : Nat} {items : List α} (hitems : ∀ x ∈ items, p x) :
    Gives (runs less least steps items) fun all => ∀ run ∈ all, ∀ x ∈ run, p x := by
  induction steps generalizing items with
  | zero => exact .pure fun run hrun => absurd hrun List.not_mem_nil
  | succ steps ih =>
    unfold runs
    refine .ite (fun _ => .pure fun run hrun => absurd hrun List.not_mem_nil) fun _ => ?_
    refine (gives_firstRun hitems).bind fun parts hparts => ?_
    have htaken : ∀ x ∈ parts.2.take (least - parts.1.length), p x :=
      fun x hx => hparts.2 x (List.mem_of_mem_take hx)
    have hrun : ∀ x ∈ parts.1.toArray, p x := fun x hx => hparts.1 x (List.mem_toArray.mp hx)
    refine (gives_insertAll hrun htaken).bind fun run hrun => ?_
    refine (ih fun x hx => hparts.2 x (List.mem_of_mem_drop hx)).bind fun rest hrest => ?_
    refine .pure (List.forall_mem_cons.mpr ⟨fun x hx => ?_, hrest⟩)
    exact hrun x (Array.mem_toList_iff.mp hx)

theorem gives_mergeOnto {done xs ys : List α} (hdone : ∀ x ∈ done, p x) (hxs : ∀ x ∈ xs, p x)
    (hys : ∀ x ∈ ys, p x) : Gives (mergeOnto less done xs ys) fun all => ∀ x ∈ all, p x := by
  have happend : ∀ {done rest : List α}, (∀ x ∈ done, p x) → (∀ x ∈ rest, p x) →
      ∀ x ∈ done.reverse ++ rest, p x := by
    intro done rest hdone hrest x hx
    rcases List.mem_append.mp hx with hx | hx
    · exact hdone x (List.mem_reverse.mp hx)
    · exact hrest x hx
  fun_induction mergeOnto less done xs ys with
  | case1 done ys => exact .pure (happend hdone hys)
  | case2 done xs hne => exact .pure (happend hdone hxs)
  | case3 done x xs y ys ihy ihx =>
    obtain ⟨hx, hxs'⟩ := List.forall_mem_cons.mp hxs
    obtain ⟨hy, hys'⟩ := List.forall_mem_cons.mp hys
    refine Gives.any.bind fun isLess _ => .ite (fun _ => ?_) fun _ => ?_
    · exact ihy (List.forall_mem_cons.mpr ⟨hy, hdone⟩) hxs hys'
    · exact ihx (List.forall_mem_cons.mpr ⟨hx, hdone⟩) hxs' hys

theorem gives_mergePairs {all : List (List α)} (hall : ∀ run ∈ all, ∀ x ∈ run, p x) :
    Gives (mergePairs less all) fun all => ∀ run ∈ all, ∀ x ∈ run, p x := by
  fun_induction mergePairs less all with
  | case1 xs ys rest ih =>
    obtain ⟨hxs, hmore⟩ := List.forall_mem_cons.mp hall
    obtain ⟨hys, hrest⟩ := List.forall_mem_cons.mp hmore
    refine (gives_mergeOnto (fun _ h => absurd h List.not_mem_nil) hxs hys).bind fun merged hm => ?_
    exact (ih hrest).bind fun others hothers => .pure (List.forall_mem_cons.mpr ⟨hm, hothers⟩)
  | case2 all => exact .pure hall

theorem gives_mergeAll {steps : Nat} {all : List (List α)} (hall : ∀ run ∈ all, ∀ x ∈ run, p x) :
    Gives (mergeAll less steps all) fun items => ∀ x ∈ items, p x := by
  induction steps generalizing all with
  | zero =>
    refine .pure fun x hx => ?_
    obtain ⟨run, hrun, hx⟩ := List.mem_flatten.mp hx
    exact hall run hrun x hx
  | succ steps ih =>
    unfold mergeAll
    split
    · exact .pure fun x hx => absurd hx List.not_mem_nil
    · exact .pure (hall _ List.mem_cons_self)
    · exact (gives_mergePairs hall).bind fun merged hmerged => ih hmerged

/-- What holds of all elements holds of them when they are sorted. -/
theorem gives_sort {items : List α} (hitems : ∀ x ∈ items, p x) :
    Gives (sort less items) fun sorted => ∀ x ∈ sorted, p x :=
  (gives_runs hitems).bind fun _ hall => gives_mergeAll hall

/-! ## The number of elements -/

theorem firstRun_length {items : List α} :
    Gives (firstRun less items) fun parts => parts.1.length + parts.2.length = items.length := by
  unfold firstRun
  split
  · refine Gives.any.bind fun falling _ => Gives.any.bind fun length _ => .pure ?_
    cases falling <;> simp <;> omega
  · exact .pure (by simp)

theorem insertAll_length {sorted : Array α} {items : List α} :
    Gives (insertAll less sorted items) fun all => all.size ≤ sorted.size + items.length := by
  have hgrows : Gives (insertAll less sorted items) fun all =>
      all.size ≤ sorted.size + items.length ∧ True := by
    refine Gives.foldlMSize trivial fun item _ sorted _ => ?_
    refine Gives.any.bind fun place _ => .pure ⟨?_, trivial⟩
    unfold Array.insertIdxIfInBounds
    split
    · exact Nat.le_of_eq (Array.size_insertIdx ..)
    · exact Nat.le_succ _
  exact fun all hall => (hgrows all hall).1

/-- The number of elements of all runs together. -/
theorem runs_length {least steps : Nat} {items : List α} :
    Gives (runs less least steps items) fun all => all.flatten.length ≤ items.length := by
  induction steps generalizing items with
  | zero => exact .pure (Nat.zero_le _)
  | succ steps ih =>
    unfold runs
    refine .ite (fun _ => .pure (Nat.zero_le _)) fun _ => ?_
    refine firstRun_length.bind fun parts hparts => ?_
    refine insertAll_length.bind fun run hrun => (ih).bind fun rest hrest => .pure ?_
    simp only [List.flatten_cons, List.length_append, Array.length_toList, List.length_drop,
      List.length_take, List.size_toArray] at hrun hrest ⊢
    omega

theorem mergeOnto_length {done xs ys : List α} :
    Gives (mergeOnto less done xs ys) fun all =>
      all.length = done.length + xs.length + ys.length := by
  fun_induction mergeOnto less done xs ys with
  | case1 done ys => exact .pure (by simp)
  | case2 done xs hne => exact .pure (by simp)
  | case3 done x xs y ys ihy ihx =>
    refine Gives.any.bind fun isLess _ => .ite (fun _ => ?_) fun _ => ?_
    · intro all hall
      rw [ihy all hall]
      simp only [List.length_cons]
      omega
    · intro all hall
      rw [ihx all hall]
      simp only [List.length_cons]
      omega

theorem mergePairs_length {all : List (List α)} :
    Gives (mergePairs less all) fun merged => merged.flatten.length = all.flatten.length := by
  fun_induction mergePairs less all with
  | case1 xs ys rest ih =>
    refine mergeOnto_length.bind fun merged hmerged => ih.bind fun others hothers => .pure ?_
    simp only [List.flatten_cons, List.length_append, hmerged, hothers, List.length_nil]
    omega
  | case2 all => exact .pure rfl

theorem mergeAll_length {steps : Nat} {all : List (List α)} :
    Gives (mergeAll less steps all) fun items => items.length ≤ all.flatten.length := by
  induction steps generalizing all with
  | zero => exact .pure (Nat.le_refl _)
  | succ steps ih =>
    unfold mergeAll
    split
    · exact .pure (Nat.zero_le _)
    · exact .pure (by simp)
    · refine mergePairs_length.bind fun merged hmerged => ?_
      rw [← hmerged]
      exact ih

/-- Sorted elements are not more than before. -/
theorem sort_length {items : List α} :
    Gives (sort less items) fun sorted => sorted.length ≤ items.length :=
  runs_length.bind fun _ hall sorted hsorted => Nat.le_trans (mergeAll_length sorted hsorted) hall

end Sorting

end Scriptlet
