import Mathlib.Data.List.Forall2
import Scriptlet.Proofs.Documents.Escapes
import Scriptlet.Proofs.Output.Refusals
import Scriptlet.Proofs.Rendering

/-
  The order of the members of a set is not seen in what is printed.

  A set keeps its members in some order, and its text is made of the texts of its members, sorted. So values
  that differ in such orders only, at any depth, have one text, and everything that is made of it is the
  same: hashes, identities, lines of output. Where a member has no text the set has none; which member stops
  it first depends on the order.

  What is proved:
    1. `Text.sorted_eq_of_perm` — texts in any order are sorted in one way.
    2. `Heap.concurs` — values that differ in the order of sets have the same text, or none.
    3. `Heap.exists_render` — a value that does not hold itself has a text, but for long integers.
    4. `Call.concurs_builtin` — the functions that show values do the same with them.
-/

namespace Scriptlet

/-! ## Sorted texts -/

namespace Text

/-- A text stands before another one exactly if its numbers do. -/
theorem before_iff {s t : Text} : before s t = true ↔ s.map CodePoint.val < t.map CodePoint.val := by
  induction s generalizing t with
  | nil => cases t <;> simp [before]
  | cons a s ih =>
    cases t with
    | nil => simp [before]
    | cons b t =>
      rw [List.map_cons, List.map_cons, List.cons_lt_cons_iff, ← ih, before]
      by_cases hval : a.val = b.val
      · rw [CodePoint.eq_of_val_eq hval]
        simp
      · have hne : a ≠ b := fun heq => hval (congrArg CodePoint.val heq)
        simp [hval, hne]

-- It is said with `<`, since lists of numbers have a second `≤` beside the one that goes with it.
theorem not_before_iff {s t : Text} :
    (!before t s) = true ↔ ¬ t.map CodePoint.val < s.map CodePoint.val := by
  rw [Bool.not_eq_true', ← Bool.not_eq_true, before_iff]

/-- Texts in any order are sorted in one way. -/
theorem sorted_eq_of_perm {ts us : List Text} (h : ts.Perm us) : sorted ts = sorted us := by
  have hpairwise : ∀ ts : List Text,
      (sorted ts).Pairwise fun s t => ¬ t.map CodePoint.val < s.map CodePoint.val := by
    intro ts
    refine (List.pairwise_mergeSort (fun s t u hst htu => ?_) (fun s t => ?_) ts).imp not_before_iff.mp
    · rw [not_before_iff] at hst htu ⊢
      exact List.not_lt.mpr (List.le_trans (List.not_lt.mp hst) (List.not_lt.mp htu))
    · rw [Bool.or_eq_true, not_before_iff, not_before_iff, List.not_lt, List.not_lt]
      exact List.le_total _ _
  have hperm : (sorted ts).Perm (sorted us) :=
    (List.mergeSort_perm ts _).trans (h.trans (List.mergeSort_perm us _).symm)
  refine List.Perm.eq_of_pairwise (fun s t _ _ hst hts => ?_) (hpairwise ts) (hpairwise us) hperm
  have hvals := List.le_antisymm (List.not_lt.mp hst) (List.not_lt.mp hts)
  exact List.map_injective_iff.mpr (fun _ _ => CodePoint.eq_of_val_eq) hvals

end Text

/-! ## Computations that concur -/

/-- Both computations give a result, and the results are related, or both fail. -/
inductive Concur {ε α β : Type} (r : α → β → Prop) : Except ε α → Except ε β → Prop
  | ok {a : α} {b : β} : r a b → Concur r (.ok a) (.ok b)
  | error {e e' : ε} : Concur r (.error e) (.error e')

namespace Concur

variable {ε α β γ δ : Type} {r : α → β → Prop} {q : γ → δ → Prop}

theorem refl (x : Except ε α) : Concur Eq x x := by
  cases x with
  | ok a => exact .ok rfl
  | error e => exact .error

theorem bind {x : Except ε α} {y : Except ε β} {f : α → Except ε γ} {g : β → Except ε δ}
    (hxy : Concur r x y) (hfg : ∀ a b, r a b → Concur q (f a) (g b)) : Concur q (x >>= f) (y >>= g) := by
  cases hxy with
  | ok hab => exact hfg _ _ hab
  | error => exact .error

theorem map {x : Except ε α} {y : Except ε β} {f : α → γ} {g : β → δ} (hxy : Concur r x y)
    (hfg : ∀ a b, r a b → q (f a) (g b)) :
    Concur q (x >>= fun a => pure (f a)) (y >>= fun b => pure (g b)) :=
  hxy.bind fun a b hab => .ok (hfg a b hab)

theorem trans {p : α → γ → Prop} {r' : β → γ → Prop} {x : Except ε α} {y : Except ε β} {z : Except ε γ}
    (hxy : Concur r x y) (hyz : Concur r' y z) (h : ∀ a b c, r a b → r' b c → p a c) : Concur p x z := by
  cases hxy with
  | ok hab =>
    cases hyz with
    | ok hbc => exact .ok (h _ _ _ hab hbc)
  | error =>
    cases hyz with
    | error => exact .error

theorem mapM {f : α → Except ε γ} {g : β → Except ε δ} {as : List α} {bs : List β}
    (h : List.Forall₂ (fun a b => Concur q (f a) (g b)) as bs) :
    Concur (List.Forall₂ q) (as.mapM f) (bs.mapM g) := by
  induction h with
  | nil => exact .ok .nil
  | cons hfirst _ ih =>
    rw [List.mapM_cons, List.mapM_cons]
    exact hfirst.bind fun c d hcd => ih.map fun _ _ hrest => .cons hcd hrest

/-- In whatever order something is done for each element, the results are the same but for their order. -/
theorem mapM_perm {f : α → Except ε γ} {as bs : List α} (h : as.Perm bs) :
    Concur List.Perm (as.mapM f) (bs.mapM f) := by
  induction h with
  | nil => exact .ok .nil
  | cons a _ ih =>
    rw [List.mapM_cons, List.mapM_cons]
    refine (refl (f a)).bind ?_
    rintro c _ rfl
    exact ih.map fun _ _ hrest => hrest.cons c
  | swap a b as =>
    simp only [List.mapM_cons]
    cases f a <;> cases f b <;> cases as.mapM f
    case ok.ok.ok c d cs => exact .ok (.swap c d cs)
    all_goals exact .error
  | trans _ _ ih ih' => exact ih.trans ih' fun _ _ _ => .trans

theorem ok_iff {x y : Except ε α} (h : Concur Eq x y) (a : α) : x = .ok a ↔ y = .ok a := by
  cases h with
  | ok hab => rw [hab]
  | error => exact ⟨nofun, nofun⟩

end Concur

/-! ## Values that differ in the order of sets -/

/-- The value refers to no object but the owner of a function. -/
def Value.IsSimple : Value → Prop
  | .list _ | .tuple _ | .dict _ | .set _ | .record _ => False
  | _ => True

namespace Heap

/-- The values, each in its heap, are the same but for the order of the members of sets, at any depth. Marks
of numbers that are none do not matter, nor do the places of objects. -/
inductive Reordered (h h' : Heap) : Value → Value → Prop
  | simple {v : Value} : v.IsSimple → Reordered h h' v v
  | nan (mark mark' : Ref) : Reordered h h' (.nan mark) (.nan mark')
  | method {r r' : Ref} (m : Method) : h.record? r = h'.record? r' →
      Reordered h h' (.function (.method r m)) (.function (.method r' m))
  | record {r r' : Ref} : h.record? r = h'.record? r' → Reordered h h' (.record r) (.record r')
  | list {r r' : Ref} : List.Forall₂ (Reordered h h') (h.list r).toList (h'.list r').toList →
      Reordered h h' (.list r) (.list r')
  | tuple {r r' : Ref} : List.Forall₂ (Reordered h h') (h.tuple r).toList (h'.tuple r').toList →
      Reordered h h' (.tuple r) (.tuple r')
  | dict {r r' : Ref} :
      List.Forall₂ (Reordered h h') ((h.dict r).toList.map Entry.keyValue)
        ((h'.dict r').toList.map Entry.keyValue) →
      List.Forall₂ (Reordered h h') ((h.dict r).toList.map Entry.value) ((h'.dict r').toList.map Entry.value) →
      Reordered h h' (.dict r) (.dict r')
  | set {r r' : Ref} {members : List Value} :
      List.Forall₂ (Reordered h h') ((h.set r).toList.map Member.value) members →
      members.Perm ((h'.set r').toList.map Member.value) → Reordered h h' (.set r) (.set r')

variable {h h' : Heap} {v v' : Value}

/-- A value that does not hold itself differs in nothing from itself. -/
theorem Reordered.refl (hv : Acc h.IsPart v) : h.Reordered h v v := by
  induction hv with
  | intro v _ ih =>
    cases v with
    | list r => exact .list (List.forall₂_same.mpr fun w hw => ih w (.item hw))
    | tuple r => exact .tuple (List.forall₂_same.mpr fun w hw => ih w (.element hw))
    | dict r =>
      refine .dict (List.forall₂_same.mpr ?_) (List.forall₂_same.mpr ?_)
      · exact List.forall_mem_map.mpr fun e he => ih _ (.key he)
      · exact List.forall_mem_map.mpr fun e he => ih _ (.value he)
    | set r =>
      exact .set (List.forall₂_same.mpr (List.forall_mem_map.mpr fun m hm => ih _ (.member hm))) (.refl _)
    | record r => exact .record rfl
    | _ => exact .simple trivial

/-! ## Their texts -/

section Texts

variable {n : Nat} {within within' : List Value} {r r' : Ref}

/-- With room for so many levels, values that differ in the order of sets have the same text, or none. -/
def Concurs (h h' : Heap) (n : Nat) : Prop := ∀ {v v' : Value} (within within' : List Value),
  h.Reordered h' v v' → Concur Eq (h.render ownStyle n within v) (h'.render ownStyle n within' v')

namespace Concurs

theorem mapM (hn : Concurs h h' n) {vs ws : List Value} (hvs : List.Forall₂ (h.Reordered h') vs ws)
    (within within' : List Value) :
    Concur Eq (vs.mapM (h.render ownStyle n within)) (ws.mapM (h'.render ownStyle n within')) := by
  have hall := Concur.mapM (hvs.imp fun _ _ hvw => hn within within' hvw)
  rwa [List.forall₂_eq_eq_eq] at hall

theorem renderEntry (hn : Concurs h h' n) {e e' : Entry} (hkey : h.Reordered h' e.keyValue e'.keyValue)
    (hvalue : h.Reordered h' e.value e'.value) (within within' : List Value) :
    Concur Eq (renderEntry ownStyle h n within e) (renderEntry ownStyle h' n within' e') := by
  refine (hn within within' hkey).bind ?_
  rintro key _ rfl
  refine (hn within within' hvalue).map ?_
  rintro value _ rfl
  rfl

theorem list (hn : Concurs h h' n)
    (hitems : List.Forall₂ (h.Reordered h') (h.list r).toList (h'.list r').toList) :
    Concur Eq (h.render ownStyle (n + 1) within (.list r)) (h'.render ownStyle (n + 1) within' (.list r')) := by
  rw [render_list_eq rfl, render_list_eq rfl]
  refine (hn.mapM hitems _ _).map ?_
  rintro ts _ rfl
  rfl

theorem tuple (hn : Concurs h h' n)
    (hitems : List.Forall₂ (h.Reordered h') (h.tuple r).toList (h'.tuple r').toList) :
    Concur Eq (h.render ownStyle (n + 1) within (.tuple r))
      (h'.render ownStyle (n + 1) within' (.tuple r')) := by
  rw [render_tuple_eq rfl, render_tuple_eq rfl, hitems.length_eq]
  refine (hn.mapM hitems _ _).map ?_
  rintro ts _ rfl
  rfl

theorem dict (hn : Concurs h h' n)
    (hkeys : List.Forall₂ (h.Reordered h') ((h.dict r).toList.map Entry.keyValue)
      ((h'.dict r').toList.map Entry.keyValue))
    (hvalues : List.Forall₂ (h.Reordered h') ((h.dict r).toList.map Entry.value)
      ((h'.dict r').toList.map Entry.value)) :
    Concur Eq (h.render ownStyle (n + 1) within (.dict r)) (h'.render ownStyle (n + 1) within' (.dict r')) := by
  rw [List.forall₂_map_left_iff, List.forall₂_map_right_iff] at hkeys hvalues
  have hentries := Concur.mapM (hkeys.mp
    (fun e e' hkey hvalue => hn.renderEntry hkey hvalue (.dict r :: within) (.dict r' :: within')) hvalues)
  rw [List.forall₂_eq_eq_eq] at hentries
  rw [render_dict_eq rfl, render_dict_eq rfl]
  refine hentries.map ?_
  rintro ts _ rfl
  rfl

/-- The texts of the members are the same but for their order, and then they are sorted. -/
theorem set (hn : Concurs h h' n) {members : List Value}
    (hmembers : List.Forall₂ (h.Reordered h') ((h.set r).toList.map Member.value) members)
    (horder : members.Perm ((h'.set r').toList.map Member.value)) :
    Concur Eq (h.render ownStyle (n + 1) within (.set r)) (h'.render ownStyle (n + 1) within' (.set r')) := by
  have htexts : Concur List.Perm
      (((h.set r).toList.map Member.value).mapM (h.render ownStyle n (.set r :: within)))
      (((h'.set r').toList.map Member.value).mapM (h'.render ownStyle n (.set r' :: within'))) := by
    refine (hn.mapM hmembers _ _).trans (Concur.mapM_perm horder) ?_
    rintro ts _ us rfl hperm
    exact hperm
  rw [render_set_eq, render_set_eq]
  refine htexts.map fun ts us hperm => ?_
  have hempty : ts = [] ↔ us = [] := by
    rw [← List.length_eq_zero_iff, hperm.length_eq, List.length_eq_zero_iff]
  simp only [hempty, ownStyle, if_true, Text.sorted_eq_of_perm hperm]

end Concurs

/-- Values that differ in the order of sets have the same text, or none. -/
theorem concurs (h h' : Heap) (n : Nat) : Concurs h h' n := by
  induction n with
  | zero => exact fun _ _ _ => .error
  | succ n ih =>
    intro v v' within within' hv
    cases hv with
    | simple hsimple =>
      cases v with
      | int k => exact .refl (integerText k)
      | complex re im => exact .error
      | list _ | tuple _ | dict _ | set _ | record _ => exact hsimple.elim
      | _ => exact .ok rfl
    | nan mark mark' => exact .ok rfl
    | method m hrecord => exact .ok rfl
    | record hrecord =>
      rw [render, render]
      simp only [hrecord]
      exact .refl _
    | list hitems => exact ih.list hitems
    | tuple hitems => exact ih.tuple hitems
    | dict hkeys hvalues => exact ih.dict hkeys hvalues
    | set hmembers horder => exact ih.set hmembers horder

theorem Reordered.repr (hv : h.Reordered h' v v') (levels : Nat) :
    Concur Eq (h.repr levels v) (h'.repr levels v') :=
  concurs h h' levels [] [] hv

/-- A text is printed as it is, and stands for no other value. -/
theorem Reordered.format (hv : h.Reordered h' v v') (levels : Nat) :
    Concur Eq (h.format levels v) (h'.format levels v') := by
  have hrepr := hv.repr levels
  cases hv with
  | @simple v hsimple =>
    cases v with
    | text t => exact .ok rfl
    | _ => exact hrepr
  | _ => exact hrepr

end Texts

/-! ## Values that have a text -/

/-- A value has no text if a part has none, or else by itself. -/
theorem render_error {n : Nat} {within : List Value} {fault : Fault}
    (hv : h.render ownStyle (n + 1) within v = .error fault) :
    (∃ w, h.Contains v w ∧ h.render ownStyle n (v :: within) w = .error fault) ∨
      (∃ k, v = .int k ∧ NumberText.ofInt? k = none) ∨ ¬ v.HasKind := by
  cases v with
  | int k =>
    rw [render] at hv
    exact .inr (.inl ⟨k, rfl, (integerText_failure hv).2⟩)
  | complex re im => exact .inr (.inr nofun)
  | list r =>
    rw [render_list_eq rfl] at hv
    obtain ⟨w, hw, hfault⟩ := mapM_error (bind_pure_error hv)
    exact .inl ⟨w, .item hw, hfault⟩
  | tuple r =>
    rw [render_tuple_eq rfl] at hv
    obtain ⟨w, hw, hfault⟩ := mapM_error (bind_pure_error hv)
    exact .inl ⟨w, .element hw, hfault⟩
  | dict r =>
    rw [render_dict_eq rfl] at hv
    obtain ⟨e, he, hfault⟩ := mapM_error (bind_pure_error hv)
    rcases bind_error hfault with hkey | ⟨_, -, hvalue⟩
    · exact .inl ⟨_, .key he, hkey⟩
    · exact .inl ⟨_, .value he, bind_pure_error hvalue⟩
  | set r =>
    rw [render_set_eq] at hv
    obtain ⟨w, hw, hfault⟩ := mapM_error (bind_pure_error hv)
    obtain ⟨m, hm, rfl⟩ := List.mem_map.mp hw
    exact .inl ⟨_, .member hm, hfault⟩
  | record r =>
    rw [render] at hv
    cases hrecord : h.record? r <;> rw [hrecord] at hv <;> cases hv
  | _ => cases hv

/-- What a value holds directly. -/
def parts (h : Heap) : Value → List Value
  | .list r => (h.list r).toList
  | .tuple r => (h.tuple r).toList
  | .dict r => (h.dict r).toList.map Entry.keyValue ++ (h.dict r).toList.map Entry.value
  | .set r => (h.set r).toList.map Member.value
  | _ => []

theorem mem_parts_iff {w : Value} : w ∈ h.parts v ↔ h.Contains v w := by
  constructor
  · intro hw
    cases v with
    | list r => exact .item hw
    | tuple r => exact .element hw
    | dict r =>
      rcases List.mem_append.mp hw with hkey | hvalue
      · obtain ⟨e, he, rfl⟩ := List.mem_map.mp hkey
        exact .key he
      · obtain ⟨e, he, rfl⟩ := List.mem_map.mp hvalue
        exact .value he
    | set r =>
      obtain ⟨m, hm, rfl⟩ := List.mem_map.mp hw
      exact .member hm
    | _ => cases hw
  · intro hw
    cases hw with
    | item hmem => exact hmem
    | element hmem => exact hmem
    | key hmem => exact List.mem_append_left _ (List.mem_map_of_mem hmem)
    | value hmem => exact List.mem_append_right _ (List.mem_map_of_mem hmem)
    | member hmem => exact List.mem_map_of_mem hmem

/-- What holds of each element from some number on holds of all of them from some number on. -/
theorem exists_bound {α : Type} {p : α → Nat → Prop} (as : List α)
    (h : ∀ a ∈ as, ∃ n, ∀ m, n ≤ m → p a m) : ∃ n, ∀ m, n ≤ m → ∀ a ∈ as, p a m := by
  induction as with
  | nil => exact ⟨0, fun _ _ => List.forall_mem_nil _⟩
  | cons a as ih =>
    obtain ⟨hfirst, hrest⟩ := List.forall_mem_cons.mp h
    obtain ⟨n, hn⟩ := hfirst
    obtain ⟨k, hk⟩ := ih hrest
    exact ⟨max n k, fun m hm => List.forall_mem_cons.mpr ⟨hn m (by omega), hk m (by omega)⟩⟩

/-- A value that does not hold itself has a text, given room for its levels, unless it holds an integer that
is too long for one or something that no script can use. -/
theorem exists_render (hv : Acc h.IsPart v) (hlong : ¬ h.HoldsLong v) (hkinds : h.HoldsKinds v) :
    ∃ n, ∀ levels, n ≤ levels → ∀ within, ∃ t, h.render ownStyle levels within v = .ok t := by
  induction hv with
  | intro v _ ih =>
    obtain ⟨n, hn⟩ : ∃ n, ∀ levels, n ≤ levels → ∀ w ∈ h.parts v, ∀ within,
        ∃ t, h.render ownStyle levels within w = .ok t := by
      refine exists_bound _ fun w hmem => ?_
      have hw := mem_parts_iff.mp hmem
      exact ih w hw (fun hheld => hlong (hheld.of fun _ => hw.holds)) fun u hu => hkinds u (hw.holds hu)
    refine ⟨n + 1, fun levels hlevels within => ?_⟩
    obtain ⟨levels, rfl⟩ := Nat.exists_eq_add_of_lt hlevels
    cases hrender : h.render ownStyle (n + levels + 1) within v with
    | ok t => exact ⟨t, rfl⟩
    | error fault =>
      rcases render_error hrender with ⟨w, hw, hpart⟩ | ⟨k, rfl, hk⟩ | hkind
      · obtain ⟨t, ht⟩ := hn (n + levels) (Nat.le_add_right n levels) w (mem_parts_iff.mpr hw) (v :: within)
        rw [ht] at hpart
        cases hpart
      · exact absurd ⟨k, .self, hk⟩ hlong
      · exact absurd (hkinds v .self) hkind

end Heap

/-! ## Functions that show values -/

/-- From states with the same output both runs give the same, or both fail, and both write the same; they
change nothing else. -/
def Run.Concurs {α : Type} (x y : Run α) (s s' : State) : Prop :=
  ∃ output : Output,
    (∃ a, x s = .ok a { s with output := output } ∧ y s' = .ok a { s' with output := output }) ∨
    ∃ fault fault', x s = .error fault { s with output := output } ∧
      y s' = .error fault' { s' with output := output }

namespace Run.Concurs

variable {α β : Type} {x y : Run α} {f g : α → Run β} {s s' : State}

theorem pure (a : α) (hout : s.output = s'.output) : Run.Concurs (Pure.pure a) (Pure.pure a) s s' :=
  ⟨s.output, .inl ⟨a, rfl, by rw [hout]; rfl⟩⟩

theorem look {read read' : Heap → Except Fault α} (hread : Concur Eq (read s.heap) (read' s'.heap))
    (hout : s.output = s'.output) : Run.Concurs (Run.look read) (Run.look read') s s' := by
  refine ⟨s.output, ?_⟩
  rw [look_apply, look_apply]
  generalize read s.heap = a, read' s'.heap = b at hread
  cases hread with
  | ok hab =>
    subst hab
    exact .inl ⟨_, rfl, by rw [hout]⟩
  | error => exact .inr ⟨_, _, rfl, by rw [hout]⟩

theorem bind (hxy : Run.Concurs x y s s')
    (hfg : ∀ a output, Run.Concurs (f a) (g a) { s with output := output } { s' with output := output }) :
    Run.Concurs (x >>= f) (y >>= g) s s' := by
  obtain ⟨output, ⟨a, hx, hy⟩ | ⟨fault, fault', hx, hy⟩⟩ := hxy
  · obtain ⟨after, hafter⟩ := hfg a output
    refine ⟨after, ?_⟩
    rw [bind_of_ok hx, bind_of_ok hy]
    exact hafter
  · exact ⟨output, .inr ⟨fault, fault', bind_of_error hx f, bind_of_error hy g⟩⟩

theorem map (hxy : Run.Concurs x y s s') (f : α → β) :
    Run.Concurs (x >>= fun a => Pure.pure (f a)) (y >>= fun a => Pure.pure (f a)) s s' :=
  hxy.bind fun a _ => pure (f a) rfl

theorem write (limits : Limits) (line : Text) (hout : s.output = s'.output) :
    Run.Concurs (Run.write limits line) (Run.write limits line) s s' := by
  rw [Run.Concurs, write_apply, write_apply, State.charged, State.charged, State.written, State.written, ← hout]
  split
  · exact ⟨_, .inl ⟨(), rfl, rfl⟩⟩
  · exact ⟨_, .inr ⟨_, _, rfl, rfl⟩⟩

end Run.Concurs

/-- The arguments of two calls differ in the order of sets only. -/
structure Bound.Reordered (h h' : Heap) (b b' : Bound) : Prop where
  values : List.Forall₂ (Option.Rel (h.Reordered h')) b.values b'.values
  rest : List.Forall₂ (h.Reordered h') b.rest b'.rest
  named : List.Forall₂ (Option.Rel (h.Reordered h')) b.named b'.named

namespace Bound.Reordered

variable {h h' : Heap} {b b' : Bound}

theorem join_getElem? {vs ws : List (Option Value)} (hvs : List.Forall₂ (Option.Rel (h.Reordered h')) vs ws)
    (i : Nat) : Option.Rel (h.Reordered h') (vs[i]?).join (ws[i]?).join := by
  induction hvs generalizing i with
  | nil => exact .none
  | cons hfirst _ ih =>
    cases i with
    | zero => exact hfirst
    | succ i => exact ih i

/-- Where an argument is left out the same value stands in for it. -/
theorem getD {v? v'? : Option Value} (hv : Option.Rel (h.Reordered h') v? v'?) {v : Value} (hsimple : v.IsSimple) :
    h.Reordered h' (v?.getD v) (v'?.getD v) := by
  cases hv with
  | some hv => exact hv
  | none => exact .simple hsimple

theorem value (hb : b.Reordered h h' b') (i : Nat) : h.Reordered h' (b.value i) (b'.value i) :=
  getD (join_getElem? hb.values i) trivial

end Bound.Reordered

namespace Call

variable {limits : Limits} {room : Room} {s s' : State}

theorem concurs_print {vs ws : List Value} {v w : Value} (levels : Nat)
    (hvs : List.Forall₂ (s.heap.Reordered s'.heap) vs ws) (hv : s.heap.Reordered s'.heap v w)
    (hout : s.output = s'.output) :
    Run.Concurs (Surroundings.print limits levels vs v) (Surroundings.print limits levels ws w) s s' := by
  have htexts := Concur.mapM (hvs.imp fun _ _ hvw => hvw.format levels)
  rw [List.forall₂_eq_eq_eq] at htexts
  refine (Run.Concurs.look ?_ hout).bind fun line output => .write limits line rfl
  refine (hv.format levels).bind ?_
  rintro separator _ rfl
  refine htexts.map ?_
  rintro ts _ rfl
  rfl

/-- The built-in functions that show their arguments. -/
def showing : List Builtin := [.print, .str, .repr, .ascii, .hash, .id]

theorem concurs_builtin {f : Builtin} (hf : f ∈ showing) {b b' : Bound}
    (hb : b.Reordered s.heap s'.heap b') (hout : s.output = s'.output) :
    Run.Concurs (builtin limits room f b) (builtin limits room f b') s s' := by
  have hrepr := (hb.value 0).repr room.printing
  simp only [showing, List.mem_cons, List.not_mem_nil, or_false] at hf
  rcases hf with rfl | rfl | rfl | rfl | rfl | rfl
  · have hseparator := Bound.Reordered.getD (v := .text " ") (Bound.Reordered.join_getElem? hb.named 0) trivial
    refine Run.Concurs.map ?_ fun _ => Value.none
    exact concurs_print room.printing hb.rest hseparator hout
  · have hvalue := Bound.Reordered.getD (v := .text "") (Bound.Reordered.join_getElem? hb.values 0) trivial
    refine Run.Concurs.map (Run.Concurs.look ?_ hout) Value.text
    exact hvalue.format room.printing
  · refine Run.Concurs.map (Run.Concurs.look ?_ hout) Value.text
    exact hrepr
  · refine Run.Concurs.map (Run.Concurs.look ?_ hout) fun t : Text => Value.text t.asciiEscaped
    exact hrepr
  · refine Run.Concurs.map (Run.Concurs.look ?_ hout) fun n : Nat => Value.int n
    exact hrepr.map fun _ _ h => congrArg Text.hash h
  · refine Run.Concurs.map (Run.Concurs.look ?_ hout) fun n : Nat => Value.int n
    exact hrepr.map fun _ _ h => congrArg Text.hash h

/-- Two calls of a built-in function have arguments that differ in the order of sets only. -/
def Reordered (f : Builtin) (h h' : Heap) (given given' : Arguments) : Prop :=
  ∃ b b', f.signature.bind given = .ok b ∧ f.signature.bind given' = .ok b' ∧ b.Reordered h h' b'

theorem concurs_function {f : Builtin} (hf : f ∈ showing) {given given' : Arguments}
    (hgiven : Reordered f s.heap s'.heap given given') (hout : s.output = s'.output) :
    Run.Concurs (function limits room (.builtin f) given) (function limits room (.builtin f) given') s s' := by
  obtain ⟨b, b', hb, hb', hreordered⟩ := hgiven
  unfold function
  simp only
  rw [hb, hb']
  exact concurs_builtin hf hreordered hout

end Call

/-- The order of sets is not seen in what is printed. Values that differ in it only have the same text or
none; they have one, given room for their levels, if they do not hold themselves, nor a long integer, nor
what no script can use. And the functions that show values give the same for them and write the same. -/
theorem set_order_unseen :
    (∀ (h h' : Heap) (v v' : Value), h.Reordered h' v v' → ∀ (levels : Nat) (text : Text),
      (h.repr levels v = .ok text ↔ h'.repr levels v' = .ok text) ∧
      (h.format levels v = .ok text ↔ h'.format levels v' = .ok text)) ∧
    (∀ (h : Heap) (v : Value), Acc h.IsPart v → ¬ h.HoldsLong v → h.HoldsKinds v →
      ∃ n, ∀ levels, n ≤ levels →
        (∃ text, h.repr levels v = .ok text) ∧ ∃ text, h.format levels v = .ok text) ∧
    ∀ (limits : Limits) (room : Room) (f : Builtin) (given given' : Arguments) (s s' : State),
      f ∈ [Builtin.print, .str, .repr, .ascii, .hash, .id] →
      Call.Reordered f s.heap s'.heap given given' → s.output = s'.output →
      Run.Concurs (Call.function limits room (.builtin f) given)
        (Call.function limits room (.builtin f) given') s s' := by
  refine ⟨fun h h' v v' hv levels text => ?_, fun h v hacyclic hlong hkinds => ?_, ?_⟩
  · exact ⟨(hv.repr levels).ok_iff text, (hv.format levels).ok_iff text⟩
  · obtain ⟨n, hn⟩ := Heap.exists_render hacyclic hlong hkinds
    refine ⟨n, fun levels hlevels => ?_⟩
    obtain ⟨text, htext⟩ := hn levels hlevels []
    refine ⟨⟨text, htext⟩, ?_⟩
    -- A text is formatted as itself, everything else as it is represented.
    cases v with
    | text t => exact ⟨t, rfl⟩
    | _ => exact ⟨text, htext⟩
  · intro limits room f given given' s s' hf hgiven hout
    exact Call.concurs_function hf hgiven hout

/-- Two lists of one set each, with the same members in two orders. -/
def Heap.twoOrders : Heap :=
  let one : Member := ⟨[.int 1], .int 1⟩
  let letter : Member := ⟨[.text "b"], .text "b"⟩
  { Heap.initial with
    lists := #[#[.set 0], #[.set 1]]
    sets := #[#[one, letter], #[letter, one]] }

namespace Heap

theorem twoOrders_reordered : twoOrders.Reordered twoOrders (.list 0) (.list 1) :=
  .list (.cons (.set (.cons (.simple trivial) (.cons (.simple trivial) .nil)) (.swap _ _ _)) .nil)

theorem twoOrders_acc : Acc twoOrders.IsPart (.list 0) := by
  have hmember : ∀ w ∈ twoOrders.parts (.set 0), Acc twoOrders.IsPart w := by
    refine List.forall_mem_cons.mpr ⟨?_, List.forall_mem_singleton.mpr ?_⟩ <;>
      exact .intro _ fun w hw => (by cases hw)
  have hset : ∀ w ∈ twoOrders.parts (.list 0), Acc twoOrders.IsPart w :=
    List.forall_mem_singleton.mpr (.intro _ fun w hw => hmember w (mem_parts_iff.mpr hw))
  exact .intro _ fun w hw => hset w (mem_parts_iff.mpr hw)

theorem eq_of_holds_twoOrders {w : Value} (hw : twoOrders.Holds (.list 0) w) :
    w = .list 0 ∨ w = .set 0 ∨ w = .int 1 ∨ w = .text "b" := by
  rcases hw.cases_part with rfl | ⟨u, hu, hw⟩
  · exact .inl rfl
  obtain rfl : u = .set 0 := List.mem_singleton.mp (mem_parts_iff.mpr hu)
  rcases hw.cases_part with rfl | ⟨u, hu, hw⟩
  · exact .inr (.inl rfl)
  have hmember : u = .int 1 ∨ u = .text "b" := List.mem_pair.mp (mem_parts_iff.mpr hu)
  rcases hmember with rfl | rfl
  · rcases hw.cases_part with rfl | ⟨_, hnone, -⟩
    · exact .inr (.inr (.inl rfl))
    · cases hnone
  · rcases hw.cases_part with rfl | ⟨_, hnone, -⟩
    · exact .inr (.inr (.inr rfl))
    · cases hnone

end Heap

/-- Two lists of one set each have one text, and printing them writes the same. -/
theorem set_order_unseen_two :
    (∃ levels text, Heap.twoOrders.repr levels (.list 0) = .ok text ∧
      Heap.twoOrders.repr levels (.list 1) = .ok text) ∧
    Run.Concurs (Call.function .standard (Engine.room .standard 9) (.builtin .print) ⟨[.list 0], []⟩)
      (Call.function .standard (Engine.room .standard 9) (.builtin .print) ⟨[.list 1], []⟩)
      { State.initial ⟨0⟩ 0 with heap := .twoOrders } { State.initial ⟨0⟩ 0 with heap := .twoOrders } := by
  obtain ⟨hsame, hshown, hcalls⟩ := set_order_unseen
  have hreordered := Heap.twoOrders_reordered
  have hlong : ¬ Heap.twoOrders.HoldsLong (.list 0) := by
    rintro ⟨n, hn, hnone⟩
    have hone : NumberText.ofInt? 1 ≠ none := by decide +kernel
    rcases Heap.eq_of_holds_twoOrders hn with h | h | h | h <;> cases h
    exact hone hnone
  have hkinds : Heap.twoOrders.HoldsKinds (.list 0) := by
    intro w hw
    rcases Heap.eq_of_holds_twoOrders hw with rfl | rfl | rfl | rfl <;> rfl
  constructor
  · obtain ⟨n, hn⟩ := hshown .twoOrders (.list 0) Heap.twoOrders_acc hlong hkinds
    obtain ⟨⟨text, htext⟩, -⟩ := hn n (Nat.le_refl n)
    exact ⟨n, text, htext, (hsame _ _ _ _ hreordered n text).1.mp htext⟩
  · refine hcalls _ _ .print _ _ _ _ (by decide) ?_ rfl
    exact ⟨_, _, rfl, rfl, .nil, .cons hreordered .nil, .cons .none .nil⟩

end Scriptlet
