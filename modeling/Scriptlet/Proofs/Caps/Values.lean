import Scriptlet.Proofs.Caps
import Scriptlet.Proofs.Caps.Numbers
import Scriptlet.Proofs.Kinds.Values

/-
  Objects that fit a cap.

  What is read from objects that fit a cap fits it, and objects go on to fit it when values that fit are
  put into them.
-/

namespace Scriptlet

variable {cap : Cap} {strict : Bool} {limits : Limits} {h : Heap} {v w : Value}

/-- There is one result for each element. -/
theorem Gives.mapMLength {α β ε : Type} {f : α → Except ε β} {as : List α} :
    Gives (as.mapM f) fun bs => bs.length = as.length := by
  induction as with
  | nil => exact .pure rfl
  | cons a as ih =>
    rw [List.mapM_cons]
    refine Gives.any.bind fun b _ => ih.bind fun bs hbs => .pure ?_
    rw [List.length_cons, List.length_cons, hbs]

/-! ## Integers and sizes -/

namespace Cap

theorem AdmitsSize.mono {m n : Nat} (hn : cap.AdmitsSize n) (h : m ≤ n) : cap.AdmitsSize m := by
  cases cap with
  | bits most => trivial
  | size most =>
    have hn : (n : Int) ≤ most := hn
    show (m : Int) ≤ most
    omega

/-- A cap goes by the absolute value of an integer. -/
theorem AdmitsInt.mono {m n : Int} (hn : cap.AdmitsInt n) (h : m.natAbs ≤ n.natAbs) :
    cap.AdmitsInt m := by
  cases cap with
  | size most => trivial
  | bits most =>
    have hbits : Integer.bitLength m ≤ Integer.bitLength n :=
      Integer.bitLength_le_iff.mpr (Nat.lt_of_le_of_lt h (Integer.bitLength_le_iff.mp (Nat.le_refl _)))
    have hn : (Integer.bitLength n : Int) ≤ most := hn
    show (Integer.bitLength m : Int) ≤ most
    omega

namespace IsOf

variable (hcap : cap.IsOf limits)

include hcap

theorem source : 0 < limits.maxSourceLength := by cases hcap <;> assumption

theorem admitsSize_of_source {n : Nat} (hn : n ≤ limits.maxSourceLength) : cap.AdmitsSize n := by
  cases hcap with
  | bits _ _ => trivial
  | size _ hlimit => exact Int.le_trans hn hlimit

theorem admitsSize_of_limit {n : Nat} (hn : n ≤ limits.maxCollectionSize) : cap.AdmitsSize n := by
  cases hcap with
  | bits _ _ => trivial
  | size _ _ => exact hn

theorem admitsInt_of_limit {n : Int} (hn : Integer.bitLength n ≤ limits.maxIntBits) :
    cap.AdmitsInt n := by
  cases hcap with
  | bits _ _ => exact hn
  | size _ _ => trivial

/-- A digit takes at most four bits. -/
theorem admitsInt_of_source {n : Nat} (hn : n < tenTo limits.maxSourceLength.toNat) :
    cap.AdmitsInt n := by
  cases hcap with
  | size _ _ => trivial
  | bits hsource hlimit =>
    have hpow : tenTo limits.maxSourceLength.toNat ≤ 2 ^ (4 * limits.maxSourceLength.toNat) := by
      rw [Nat.pow_mul]
      exact Nat.pow_le_pow_left (by decide) _
    have hbits : Integer.bitLength n ≤ 4 * limits.maxSourceLength.toNat :=
      Integer.bitLength_le_iff.mpr (Nat.lt_of_lt_of_le hn hpow)
    show (Integer.bitLength n : Int) ≤ limits.maxIntBits
    omega

theorem lt_of_not_admitsSize {n : Nat} (hn : ¬ cap.AdmitsSize n) : limits.maxCollectionSize < n :=
  Int.not_le.mp fun h => hn (hcap.admitsSize_of_limit h)

theorem admitsSize_one : cap.AdmitsSize 1 := hcap.admitsSize_of_source hcap.source

theorem admitsSize_zero : cap.AdmitsSize 0 := hcap.admitsSize_one.mono (Nat.zero_le _)

theorem admitsInt_one : cap.AdmitsInt 1 := by
  have hsource := hcap.source
  have hone : 1 < tenTo limits.maxSourceLength.toNat := Nat.one_lt_pow (by omega) (by decide)
  exact hcap.admitsInt_of_source hone

theorem admitsInt_zero : cap.AdmitsInt 0 := hcap.admitsInt_one.mono (by decide)

end IsOf

end Cap

/-! ## Collections of values that fit -/

namespace Value.AllFit

variable {values others : List Value}

/-- Fewer values, all of them among these. -/
theorem mono (hvalues : AllFit cap values) (hlength : others.length ≤ values.length)
    (hmem : ∀ v ∈ others, v ∈ values) : AllFit cap others :=
  ⟨hvalues.size.mono hlength, fun v hv => hvalues.each v (hmem v hv)⟩

theorem nil (hcap : cap.IsOf limits) : AllFit cap [] :=
  ⟨hcap.admitsSize_zero, fun _ hv => absurd hv List.not_mem_nil⟩

theorem singleton (hcap : cap.IsOf limits) (hv : v.Fits cap) : AllFit cap [v] :=
  ⟨hcap.admitsSize_one, List.forall_mem_singleton.mpr hv⟩

theorem map {α : Type} {items : List α} {f : α → Value} (hsize : cap.AdmitsSize items.length)
    (hf : ∀ a ∈ items, (f a).Fits cap) : AllFit cap (items.map f) := by
  refine ⟨by rwa [List.length_map], fun v hv => ?_⟩
  obtain ⟨a, ha, rfl⟩ := List.mem_map.mp hv
  exact hf a ha

end Value.AllFit

theorem Entry.AllFit.empty : Entry.AllFit cap #[] := fun e he => by cases Array.not_mem_empty e he

theorem Entry.AllFit.put {entries : Array Entry} {key : Key} (hentries : AllFit cap entries)
    (hv : v.Fits cap) (hw : w.Fits cap) : AllFit cap (Entry.put entries key v w) := by
  intro e he
  rcases Entry.mem_put he with ⟨hkey, hvalue⟩ | ⟨old, hold, hkey, hvalue⟩
  · rw [hkey, hvalue]
    exact ⟨hv, hw⟩
  · obtain ⟨hkeyFits, hvalueFits⟩ := hentries old hold
    rw [hkey]
    rcases hvalue with hvalue | hvalue
    · rw [hvalue]
      exact ⟨hkeyFits, hvalueFits⟩
    · rw [hvalue]
      exact ⟨hkeyFits, hw⟩

theorem Entry.size_put_le (entries : Array Entry) (key : Key) (v w : Value) :
    (Entry.put entries key v w).size ≤ entries.size + 1 := by
  unfold Entry.put
  split
  · rw [Array.size_modify]
    omega
  · exact Nat.le_of_eq (Array.size_push _)

theorem Member.size_insert_le (members : Array Member) (key : Key) (v : Value) :
    (Member.insert members key v).size ≤ members.size + 1 := by
  unfold Member.insert
  split
  · omega
  · exact Nat.le_of_eq (Array.size_push _)

/-! ## Objects -/

section

variable {α : Type} {p : Ref → Array α → Prop} {arrays : Array (Array α)}

/-- What stands at each place with one more at the end. -/
theorem forall_getD_push {new : Array α} (hall : ∀ r, p r (arrays.getD r #[]))
    (hnew : p arrays.size new) : ∀ r, p r ((arrays.push new).getD r #[]) := by
  intro r
  have hr := hall r
  rw [Array.getD_eq_getD_getElem?] at hr ⊢
  rw [Array.getElem?_push]
  split
  · rename_i hlast
    rw [hlast]
    exact hnew
  · exact hr

/-- What stands at each place with one of them changed. -/
theorem forall_getD_modify {f : Array α → Array α} {i : Ref} (hall : ∀ r, p r (arrays.getD r #[]))
    (hf : p i (f (arrays.getD i #[]))) : ∀ r, p r ((arrays.modify i f).getD r #[]) := by
  intro r
  have hr := hall r
  rw [Array.getD_eq_getD_getElem?] at hr hf ⊢
  rw [Array.getElem?_modify]
  split
  · rename_i hsame
    subst hsame
    cases hget : arrays[i]? with
    | none =>
      rw [hget] at hr
      exact hr
    | some items =>
      rw [hget] at hf
      exact hf
  · exact hr

end

namespace Heap.Fits

theorem initial (hcap : cap.IsOf limits) : Heap.initial.Fits cap strict where
  arguments := Nat.zero_lt_one
  list := by
    intro r hr
    cases r with
    | zero => exact .singleton hcap (hr rfl)
    | succ r => exact .nil hcap
  tuple := by
    intro r
    cases r <;> exact .nil hcap
  dict := fun r => .empty
  dictSize := fun _ r => hcap.admitsSize_zero
  set := fun r => ⟨hcap.admitsSize_zero, fun m hm => by cases Array.not_mem_empty m hm⟩

variable (hh : h.Fits cap strict)

include hh

/-- A list that is new is not the list of arguments. -/
theorem reaches_size : cap.Reaches h.lists.size := by
  intro hsize
  exact absurd hsize (Nat.ne_of_gt hh.arguments)

theorem newList {items : List Value} (hitems : Value.AllFit cap items) :
    (h.newList items.toArray).1.Fits cap ∧ (h.newList items.toArray).2.Fits cap strict := by
  refine ⟨hh.reaches_size, ?_, ?_, hh.tuple, hh.dict, hh.dictSize, hh.set⟩
  · show _ < (h.lists.push _).size
    rw [Array.size_push]
    exact Nat.lt_succ_of_lt hh.arguments
  · exact forall_getD_push (p := fun r items => cap.Reaches r → Value.AllFit cap items.toList)
      hh.list fun _ => hitems

theorem newTuple {items : List Value} (hitems : Value.AllFit cap items) :
    (h.newTuple items.toArray).1.Fits cap ∧ (h.newTuple items.toArray).2.Fits cap strict := by
  unfold Heap.newTuple
  split
  · exact ⟨trivial, hh⟩
  · refine ⟨trivial, hh.arguments, hh.list, ?_, hh.dict, hh.dictSize, hh.set⟩
    exact forall_getD_push (p := fun _ items => Value.AllFit cap items.toList) hh.tuple hitems

theorem newDict {entries : Array Entry} (hentries : Entry.AllFit cap entries)
    (hsize : cap.AdmitsSize entries.size) :
    (h.newDict entries).1.Fits cap ∧ (h.newDict entries).2.Fits cap strict := by
  refine ⟨trivial, hh.arguments, hh.list, hh.tuple, ?_, fun hstrict => ?_, hh.set⟩
  · exact forall_getD_push (p := fun _ entries => Entry.AllFit cap entries) hh.dict hentries
  · exact forall_getD_push (p := fun _ entries => cap.AdmitsSize entries.size)
      (hh.dictSize hstrict) hsize

theorem newSet {members : Array Member} (hmembers : Member.AllFit cap members) :
    (h.newSet members).1.Fits cap ∧ (h.newSet members).2.Fits cap strict := by
  refine ⟨trivial, hh.arguments, hh.list, hh.tuple, hh.dict, hh.dictSize, ?_⟩
  exact forall_getD_push (p := fun _ members => Member.AllFit cap members) hh.set hmembers

theorem newRecord (record : Record) :
    (h.newRecord record).1.Fits cap ∧ (h.newRecord record).2.Fits cap strict :=
  ⟨trivial, hh.arguments, hh.list, hh.tuple, hh.dict, hh.dictSize, hh.set⟩

theorem newFloat (x : Float) : (h.newFloat x).1.Fits cap ∧ (h.newFloat x).2.Fits cap strict := by
  unfold Heap.newFloat
  split
  · exact ⟨trivial, hh⟩
  · exact ⟨trivial, hh.arguments, hh.list, hh.tuple, hh.dict, hh.dictSize, hh.set⟩

/-- The heap with the elements of one list changed to what fits. -/
theorem modifyList {f : Array Value → Array Value} {r : Ref}
    (hf : cap.Reaches r → Value.AllFit cap (f (h.list r)).toList) :
    Heap.Fits cap strict { h with lists := h.lists.modify r f } := by
  refine ⟨?_, ?_, hh.tuple, hh.dict, hh.dictSize, hh.set⟩
  · show _ < (h.lists.modify r f).size
    rw [Array.size_modify]
    exact hh.arguments
  · exact forall_getD_modify (p := fun r items => cap.Reaches r → Value.AllFit cap items.toList)
      hh.list hf

theorem setListItem (r : Ref) (i : Nat) (hv : v.Fits cap) : (h.setListItem r i v).Fits cap strict := by
  refine hh.modifyList fun hr => ⟨?_, fun w hw => ?_⟩
  · have hsize := (hh.list r hr).size
    rw [Array.length_toList] at hsize ⊢
    rwa [Array.size_setIfInBounds]
  · rcases Array.mem_or_eq_of_mem_setIfInBounds (Array.mem_toList_iff.mp hw) with hw | rfl
    · exact (hh.list r hr).each w (Array.mem_toList_iff.mpr hw)
    · exact hv

theorem replaceList (r : Ref) {items : List Value} (hitems : Value.AllFit cap items) :
    (h.replaceList r items.toArray).Fits cap strict :=
  hh.modifyList fun _ => hitems

/-- One more element fits where one more is admitted. -/
theorem pushList (r : Ref) (hv : v.Fits cap) (hsize : cap.AdmitsSize ((h.list r).size + 1)) :
    (h.pushList r v).Fits cap strict := by
  refine hh.modifyList fun hr => ⟨?_, fun w hw => ?_⟩
  · rwa [Array.length_toList, Array.size_push]
  · rcases Array.mem_push.mp (Array.mem_toList_iff.mp hw) with hw | rfl
    · exact (hh.list r hr).each w (Array.mem_toList_iff.mpr hw)
    · exact hv

end Heap.Fits

/-- One more entry may be one too many, unless the cap admits all sizes. -/
theorem Heap.Fits.putEntry (hh : h.Fits cap strict) (r : Ref) (key : Key) (hv : v.Fits cap)
    (hw : w.Fits cap) (hfree : strict = true → ∀ n, cap.AdmitsSize n) :
    (h.putEntry r key v w).Fits cap strict := by
  refine ⟨hh.arguments, hh.list, hh.tuple, ?_, fun hstrict _ => hfree hstrict _, hh.set⟩
  exact forall_getD_modify (p := fun _ entries => Entry.AllFit cap entries) hh.dict
    ((hh.dict r).put hv hw)

/-! ## Reading -/

namespace Heap.Fits

theorem elements? (hcap : cap.IsOf limits) (hh : h.Fits cap true) (hv : v.Fits cap)
    {items : List Value} (hitems : h.elements? v = some items) : Value.AllFit cap items := by
  cases v with
  | text t =>
    cases hitems
    exact .map hv fun c _ => hcap.admitsSize_one
  | list r =>
    cases hitems
    exact hh.list r hv
  | tuple r =>
    cases hitems
    exact hh.tuple r
  | dict r =>
    cases hitems
    exact .map (hh.dictSize rfl r) fun e he => (hh.dict r e (Array.mem_toList_iff.mp he)).1
  | set r =>
    cases hitems
    exact .map (hh.set r).size fun m hm => (hh.set r).each m (Array.mem_toList_iff.mp hm)
  | _ => cases hitems

theorem iterate (hcap : cap.IsOf limits) (hh : h.Fits cap true) (hv : v.Fits cap) (context : Text) :
    Gives (h.iterate v context) (Value.AllFit cap) := by
  unfold Heap.iterate
  refine Gives.any.bind fun k _ => ?_
  cases hitems : h.elements? v with
  | none => exact .throw
  | some items => exact .pure (hh.elements? hcap hv hitems)

variable (hh : h.Fits cap strict)

include hh

theorem unpack (levels count : Nat) (hv : v.Fits cap) :
    Gives (h.unpack levels v count) (Value.AllFit cap) := by
  have hrefuse : ∀ {text : Text}, Gives (do
      throw (.badValue (text ++ (← h.repr levels v))) : Except Fault (List Value))
        (Value.AllFit cap) :=
    fun {text} => Gives.any.bind fun _ _ => .throw
  unfold Heap.unpack
  refine Gives.any.bind fun k _ => ?_
  cases v with
  | list r => exact .ite (fun _ => .pure (hh.list r hv)) fun _ => hrefuse
  | tuple r => exact .ite (fun _ => .pure (hh.tuple r)) fun _ => hrefuse
  | _ => exact hrefuse

theorem itemAt (hcap : cap.IsOf limits) (hv : v.Fits cap) (index : Int) :
    Gives (h.itemAt v index) (Value.Fits cap) := by
  -- An item found at its place is one of the sequence's.
  have hpicked : ∀ {items : Array Value} {w : Value}, Value.AllFit cap items.toList →
      (placeOf items.size index).bind (items[·]?) = some w → w.Fits cap := by
    intro items w hitems hw
    obtain ⟨i, -, hi⟩ := Option.bind_eq_some_iff.mp hw
    exact hitems.each w (Array.mem_toList_iff.mpr (Array.mem_of_getElem? hi))
  unfold Heap.itemAt
  cases v with
  | text t =>
    simp only
    split
    · exact .pure hcap.admitsSize_one
    · exact .throw
  | list r =>
    simp only
    split
    · rename_i hw
      exact .pure (hpicked (hh.list r hv) hw)
    · exact .throw
  | tuple r =>
    simp only
    split
    · rename_i hw
      exact .pure (hpicked (hh.tuple r) hw)
    · exact .throw
  | _ => exact .pure trivial

theorem lookUp (hcap : cap.IsOf limits) (hv : v.Fits cap) (levels : Nat) {index : Value} :
    Gives (h.lookUp levels v index) fun found => ∀ w, found = .ok w → w.Fits cap := by
  unfold Heap.lookUp
  refine Gives.any.bind fun k _ => ?_
  refine .ite (fun _ => ?_) fun _ => ?_
  · refine Gives.any.bind fun i _ => (hh.itemAt hcap hv i).bind fun w hw => .pure fun w' h => ?_
    cases h
    exact hw
  · cases v with
    | dict r =>
      refine Gives.any.bind fun key _ => ?_
      cases hfind : Entry.find? (h.dict r) key with
      | some w =>
        obtain ⟨e, he, rfl⟩ := Entry.find?_mem hfind
        refine .pure fun w' hw => ?_
        cases hw
        exact (hh.dict r e he).2
      | none =>
        -- What is not there is no value.
        intro found hfound w hw
        subst hw
        change h.missingKey levels index = _ at hfound
        unfold missingKey at hfound
        split at hfound <;> cases hfound
    | _ => exact .throw

end Heap.Fits

/-- No more members than values, and all of them among the values. -/
theorem Heap.membersOf_allFit {values : List Value} (context : Text)
    (hvalues : Value.AllFit cap values) : Gives (h.membersOf values context) (Member.AllFit cap) := by
  have hmade : Gives (h.membersOf values context) fun members =>
      members.size ≤ 0 + values.length ∧ ∀ m ∈ members, m.value.Fits cap := by
    refine Gives.foldlMSize (fun m hm => absurd hm (Array.not_mem_empty m)) fun v hv members hmembers => ?_
    refine Gives.any.bind fun key _ => .pure ⟨Member.size_insert_le members key v, fun m hm => ?_⟩
    rcases Member.mem_insert hm with hm | hm
    · rw [hm]
      exact hvalues.each v hv
    · exact hmembers m hm
  intro members hmembers
  obtain ⟨hsize, heach⟩ := hmade members hmembers
  exact ⟨hvalues.size.mono (by omega), heach⟩

/-- No more entries than pairs, with the keys and values of the pairs. -/
theorem Entry.gives_allFit {α : Type} {pairs : List α} {f : Array Entry → α → Except Fault (Array Entry)}
    (hf : ∀ p ∈ pairs, ∀ entries, Entry.AllFit cap entries →
      Gives (f entries p) fun made => made.size ≤ entries.size + 1 ∧ Entry.AllFit cap made) :
    Gives (pairs.foldlM f #[]) fun made => made.size ≤ pairs.length ∧ Entry.AllFit cap made := by
  intro made hmade
  obtain ⟨hsize, hfit⟩ := Gives.foldlMSize .empty hf made hmade
  exact ⟨by simpa using hsize, hfit⟩

end Scriptlet
