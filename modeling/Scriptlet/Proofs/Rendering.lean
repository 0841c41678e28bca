import Mathlib.Logic.Relation
import Scriptlet.Proofs.Caps.Values
import Scriptlet.Proofs.Escape.Values
import Scriptlet.Proofs.Keys
import Scriptlet.Proofs.Kinds
import Scriptlet.Proofs.ReadBack.Scanning
import Scriptlet.Proofs.Source.Lines
import Scriptlet.Value.Printing

/-
  The two ways to print a value.

  The language prints by one rule, templates by another one. They differ on records, on the order in sets
  and on objects inside themselves. What the first rule prints is never inside itself, so of values without
  sets of several elements the texts are the same but for records.

  What is proved:
    1. `Heap.acc_of_render` — what the language prints does not hold itself.
    2. `Text.Splits.ne` — texts are told apart by the first record that they show.
    3. `Heap.render_agrees` — the two texts are the same without records, and differ with them.
-/

namespace Scriptlet

/-! ## Texts that part -/

namespace Text

/-- Nothing, or what begins otherwise than the text of a record. -/
def IsTail (t : Text) : Prop := t.head? ≠ some '<'

/-- The texts are the same as far as a point where the second one goes on with the text of a module and the
first one does not. -/
def Splits (s t : Text) : Prop :=
  ∃ front back rest : Text, s = front ++ back ∧ t = front ++ ("<m" ++ rest) ∧
    ∀ tail : Text, tail.IsTail → ¬ ("<m" : Text) <+: back ++ tail

namespace Splits

variable {s t u v : Text}

theorem ne (h : Splits s t) : s ≠ t := by
  obtain ⟨front, back, rest, rfl, rfl, hback⟩ := h
  intro heq
  have hsame : back = "<m" ++ rest := List.append_cancel_left heq
  refine hback [] nofun ?_
  rw [List.append_nil, hsame]
  exact List.prefix_append _ _

theorem prepend (h : Splits s t) (front : Text) : Splits (front ++ s) (front ++ t) := by
  obtain ⟨first, back, rest, rfl, rfl, hback⟩ := h
  exact ⟨front ++ first, back, rest, (List.append_assoc _ _ _).symm, (List.append_assoc _ _ _).symm, hback⟩

theorem IsTail.append (hu : IsTail u) (hv : IsTail v) : IsTail (u ++ v) := by
  cases u with
  | nil => exact hv
  | cons c u => exact hu

theorem append (h : Splits s t) (hu : IsTail u) (v : Text) : Splits (s ++ u) (t ++ v) := by
  obtain ⟨front, back, rest, rfl, rfl, hback⟩ := h
  refine ⟨front, back ++ u, rest ++ v, List.append_assoc _ _ _, ?_, fun tail htail => ?_⟩
  · rw [List.append_assoc, List.append_assoc]
  · rw [List.append_assoc]
    exact hback _ (IsTail.append hu htail)

end Splits

/-- The texts are the same unless something shows, and part where it does. -/
structure Agree (shows : Prop) (s t : Text) : Prop where
  same : ¬ shows → s = t
  splits : shows → Splits s t

namespace Agree

variable {p q : Prop} {s t u v : Text}

theorem refl (hp : ¬ p) (s : Text) : Agree p s s := ⟨fun _ => rfl, fun h => absurd h hp⟩

theorem congr (h : Agree p s t) (hpq : p ↔ q) : Agree q s t :=
  ⟨fun hq => h.same (hpq.not.mpr hq), fun hq => h.splits (hpq.mpr hq)⟩

theorem prepend (h : Agree p s t) (front : Text) : Agree p (front ++ s) (front ++ t) :=
  ⟨fun hp => congrArg (front ++ ·) (h.same hp), fun hp => (h.splits hp).prepend front⟩

/-- One text behind the other: what shows shows in one of the two. -/
theorem append (h : Agree p s t) (h' : Agree q u v) (hu : IsTail u) : Agree (p ∨ q) (s ++ u) (t ++ v) where
  same hpq := by rw [h.same fun hp => hpq (.inl hp), h'.same fun hq => hpq (.inr hq)]
  splits hpq := by
    by_cases hp : p
    · exact (h.splits hp).append hu v
    · rw [h.same hp]
      exact (h'.splits (hpq.resolve_left hp)).prepend t

theorem close (h : Agree p s t) (tail : Text) (htail : IsTail tail) : Agree p (s ++ tail) (t ++ tail) :=
  (h.append (refl not_false tail) htail).congr (or_iff_left not_false)

/-- Texts with commas between them. -/
theorem join {α : Type} {f g : α → Except Fault Text} (shows : α → Prop) {xs : List α} {ts us : List Text}
    (hf : xs.mapM f = .ok ts) (hg : xs.mapM g = .ok us)
    (hagree : ∀ x ∈ xs, ∀ s t, f x = .ok s → g x = .ok t → Agree (shows x) s t) :
    Agree (∃ x ∈ xs, shows x) (Text.join ", " ts) (Text.join ", " us) := by
  induction xs generalizing ts us with
  | nil =>
    cases hf
    cases hg
    exact refl (fun ⟨x, hx, _⟩ => List.not_mem_nil hx) _
  | cons x xs ih =>
    obtain ⟨s, ts, hs, hts, rfl⟩ := Heap.exists_of_mapM_cons hf
    obtain ⟨t, us, ht, hus, rfl⟩ := Heap.exists_of_mapM_cons hg
    obtain ⟨hfirst, hrest⟩ := List.forall_mem_cons.mp hagree
    have hone := hfirst s t hs ht
    have hmore := ih hts hus hrest
    simp only [List.exists_mem_cons_iff]
    cases xs with
    | nil =>
      cases hts
      cases hus
      show Agree _ (Text.join ", " [s]) (Text.join ", " [t])
      rw [join_singleton, join_singleton]
      exact hone.congr (by simp)
    | cons y ys =>
      obtain ⟨s', ts', -, -, rfl⟩ := Heap.exists_of_mapM_cons hts
      obtain ⟨t', us', -, -, rfl⟩ := Heap.exists_of_mapM_cons hus
      rw [join_cons_cons, join_cons_cons]
      refine hone.append (hmore.prepend _) ?_
      exact nofun

end Agree

end Text

/-! ## Records -/

namespace Text

/-- What begins otherwise parts from the text of a module at once. -/
theorem splits_module {back : Text} (hback : ∀ tail : Text, tail.IsTail → ¬ ("<m" : Text) <+: back ++ tail)
    (name : Text) : Splits back (moduleText name) :=
  ⟨[], back, "odule '" ++ (name ++ "'>"), rfl, by rw [moduleText, List.append_assoc]; rfl, hback⟩

theorem not_prefix_of_head {c : CodePoint} (hc : c ≠ '<') (t : Text) : ¬ ("<m" : Text) <+: c :: t := by
  rintro ⟨rest, hrest⟩
  exact hc (List.cons.inj hrest).1.symm

end Text

/-- A date begins with the digits of its year. -/
theorem Calendar.exists_isoText (c : Calendar) (separator : CodePoint) (precision : Precision)
    (tail : Text) : ∃ back, c.isoText separator precision ++ tail =
      (Text.ofNat c.year).padLeft 4 '0' ++ ('-' : CodePoint) :: back := by
  have hdash : ("-" : Text) = ['-'] := rfl
  unfold isoText dateText
  simp only [List.append_assoc, hdash, List.singleton_append]
  exact ⟨_, rfl⟩

/-- The text made for a record is not begun like that of a module. -/
theorem Record.splits (record : Record) : Text.Splits record.text (moduleText record.name) := by
  refine Text.splits_module (fun tail htail => ?_) _
  cases record with
  | file name mode =>
    rintro ⟨rest, hrest⟩
    cases (List.cons.inj (List.cons.inj hrest).2).1
  | found subject groups names =>
    have hnone : ¬ ("<m" : Text) <+: tail := by
      rintro ⟨rest, rfl⟩
      exact htail rfl
    rcases groups with _ | ⟨_ | whole, groups⟩
    · exact hnone
    · exact hnone
    · rintro ⟨rest, hrest⟩
      cases (List.cons.inj (List.cons.inj hrest).2).1
  | moment m =>
    show ¬ ("<m" : Text) <+: m.calendar.isoText 'T' .auto ++ tail
    obtain ⟨back, hback⟩ := m.calendar.exists_isoText 'T' .auto tail
    rw [hback]
    cases hyear : (Text.ofNat m.calendar.year).padLeft 4 '0' with
    | nil => exact Text.not_prefix_of_head (by decide) back
    | cons c year =>
      refine Text.not_prefix_of_head (fun hc => ?_) _
      have hmem : c ∈ (Text.ofNat m.calendar.year).padLeft 4 '0' := hyear ▸ List.mem_cons_self
      subst hc
      rcases List.mem_append.mp hmem with hfill | hdigit
      · cases List.eq_of_mem_replicate hfill
      · cases Text.isAsciiDigit_of_mem_ofNat hdigit

/-! ## Values within themselves -/

namespace Heap

variable {h : Heap} {v w : Value}

/-- What a value holds directly. -/
inductive Contains (h : Heap) : Value → Value → Prop
  | item {r : Ref} {v : Value} : v ∈ (h.list r).toList → Contains h (.list r) v
  | element {r : Ref} {v : Value} : v ∈ (h.tuple r).toList → Contains h (.tuple r) v
  | key {r : Ref} {e : Entry} : e ∈ (h.dict r).toList → Contains h (.dict r) e.keyValue
  | value {r : Ref} {e : Entry} : e ∈ (h.dict r).toList → Contains h (.dict r) e.value
  | member {r : Ref} {m : Member} : m ∈ (h.set r).toList → Contains h (.set r) m.value

/-- A part that is printed inside of a value: it is one of what the value holds. -/
def IsPart (h : Heap) (v w : Value) : Prop := h.Contains w v

theorem not_transGen_of_acc (hv : Acc h.IsPart v) : ¬ Relation.TransGen h.IsPart v v :=
  fun hloop => by
    have hacc := hv.transGen
    induction hacc with
    | intro w _ ih => exact ih w hloop hv hloop

/-- The way in which the language prints. -/
def ownStyle : PrintStyle := ⟨true, true, false⟩

/-- The way in which templates print. -/
def templateStyle : PrintStyle := ⟨false, false, true⟩

section Containers

variable {style : PrintStyle} {levels : Nat} {within : List Value} {r : Ref} {t : Text}

/-- The text of a container is made of those of its parts, which are made in turn. -/
theorem render_list_eq (hlooped : (style.marksCycles && within.contains (.list r)) = false) :
    h.render style (levels + 1) within (.list r) =
      ((h.list r).toList.mapM (h.render style levels (.list r :: within)) >>= fun ts =>
        pure ("[" ++ Text.join ", " ts ++ "]")) := by
  rw [render]
  simp only [hlooped, Bool.false_eq_true, if_false, bind_assoc, pure_bind]

theorem render_tuple_eq (hlooped : (style.marksCycles && within.contains (.tuple r)) = false) :
    h.render style (levels + 1) within (.tuple r) =
      ((h.tuple r).toList.mapM (h.render style levels (.tuple r :: within)) >>= fun ts =>
        pure ("(" ++ Text.join ", " ts ++
          (if (h.tuple r).toList.length = 1 then ("," : Text) else ("" : Text)) ++ ")")) := by
  rw [render]
  simp only [hlooped, Bool.false_eq_true, if_false, bind_assoc, pure_bind]

/-- The text of an entry. -/
def renderEntry (style : PrintStyle) (h : Heap) (levels : Nat) (within : List Value) (e : Entry) :
    Except Fault Text := do
  let key ← h.render style levels within e.keyValue
  return key ++ ": " ++ (← h.render style levels within e.value)

theorem render_dict_eq (hlooped : (style.marksCycles && within.contains (.dict r)) = false) :
    h.render style (levels + 1) within (.dict r) =
      ((h.dict r).toList.mapM (renderEntry style h levels (.dict r :: within)) >>= fun ts =>
        pure ("\x7b" ++ Text.join ", " ts ++ "\x7d")) := by
  rw [render]
  simp only [hlooped, Bool.false_eq_true, if_false]
  rfl

theorem render_set_eq : h.render style (levels + 1) within (.set r) =
    (((h.set r).toList.map Member.value).mapM (h.render style levels (.set r :: within)) >>= fun ts =>
      pure (if ts = [] then ("set()" : Text)
        else "\x7b" ++ Text.join ", " (if style.sortsSets then Text.sorted ts else ts) ++ "\x7d")) := by
  rw [render]
  cases hmembers : (h.set r).toList.map Member.value with
  | nil => rfl
  | cons v rest =>
    simp only [List.isEmpty_cons, Bool.false_eq_true, if_false, List.mapM_cons, bind_assoc, pure_bind,
      List.cons_ne_nil]

theorem render_list (hlooped : (style.marksCycles && within.contains (.list r)) = false)
    (ht : h.render style (levels + 1) within (.list r) = .ok t) :
    ∃ ts, (h.list r).toList.mapM (h.render style levels (.list r :: within)) = .ok ts ∧
      t = "[" ++ Text.join ", " ts ++ "]" := by
  rw [render_list_eq hlooped] at ht
  obtain ⟨ts, hts, hdone⟩ := bind_ok ht
  cases hdone
  exact ⟨ts, hts, rfl⟩

theorem render_tuple (hlooped : (style.marksCycles && within.contains (.tuple r)) = false)
    (ht : h.render style (levels + 1) within (.tuple r) = .ok t) :
    ∃ ts, (h.tuple r).toList.mapM (h.render style levels (.tuple r :: within)) = .ok ts ∧
      t = "(" ++ Text.join ", " ts ++
        (if (h.tuple r).toList.length = 1 then ("," : Text) else ("" : Text)) ++ ")" := by
  rw [render_tuple_eq hlooped] at ht
  obtain ⟨ts, hts, hdone⟩ := bind_ok ht
  cases hdone
  exact ⟨ts, hts, rfl⟩

theorem render_dict (hlooped : (style.marksCycles && within.contains (.dict r)) = false)
    (ht : h.render style (levels + 1) within (.dict r) = .ok t) :
    ∃ ts, (h.dict r).toList.mapM (renderEntry style h levels (.dict r :: within)) = .ok ts ∧
      t = "\x7b" ++ Text.join ", " ts ++ "\x7d" := by
  rw [render_dict_eq hlooped] at ht
  obtain ⟨ts, hts, hdone⟩ := bind_ok ht
  cases hdone
  exact ⟨ts, hts, rfl⟩

theorem render_set (ht : h.render style (levels + 1) within (.set r) = .ok t) :
    ∃ ts, ((h.set r).toList.map Member.value).mapM (h.render style levels (.set r :: within)) = .ok ts ∧
      t = if ts = [] then ("set()" : Text)
        else "\x7b" ++ Text.join ", " (if style.sortsSets then Text.sorted ts else ts) ++ "\x7d" := by
  rw [render_set_eq] at ht
  obtain ⟨ts, hts, hdone⟩ := bind_ok ht
  cases hdone
  exact ⟨ts, hts, rfl⟩

/-- In a set of at most one member there is no order. -/
theorem render_small_set (hsize : (h.set r).size ≤ 1)
    (ht : h.render style (levels + 1) within (.set r) = .ok t) :
    ∃ ts, ((h.set r).toList.map Member.value).mapM (h.render style levels (.set r :: within)) = .ok ts ∧
      t = if (h.set r).size = 0 then ("set()" : Text) else "\x7b" ++ Text.join ", " ts ++ "\x7d" := by
  obtain ⟨ts, hts, rfl⟩ := render_set ht
  have hlength : ts.length = (h.set r).size := (Gives.mapMLength ts hts).trans (by simp)
  refine ⟨ts, hts, ?_⟩
  rw [← hlength] at hsize ⊢
  have hsorted : Text.sorted ts = ts := by
    rcases ts with _ | ⟨s, _ | ⟨s', ts⟩⟩
    · exact List.mergeSort_nil
    · exact List.mergeSort_singleton _
    · exact absurd hsize (by simp)
  rw [hsorted, ite_self]
  simp only [List.length_eq_zero_iff]

end Containers

/-- What the language prints does not hold itself. -/
theorem acc_of_render {levels : Nat} {within : List Value} {t : Text}
    (ht : h.render ownStyle levels within v = .ok t) : Acc h.IsPart v := by
  -- On the levels: each part is printed with one level less.
  induction levels generalizing within v t with
  | zero => cases ht
  | succ levels ih =>
    refine .intro v fun w hw => ?_
    cases hw with
    | item hmem =>
      obtain ⟨ts, hts, -⟩ := render_list rfl ht
      exact (exists_of_mapM_ok hts _ hmem).elim fun _ => ih
    | element hmem =>
      obtain ⟨ts, hts, -⟩ := render_tuple rfl ht
      exact (exists_of_mapM_ok hts _ hmem).elim fun _ => ih
    | key hmem =>
      obtain ⟨ts, hts, -⟩ := render_dict rfl ht
      obtain ⟨_, hentry⟩ := exists_of_mapM_ok hts _ hmem
      obtain ⟨_, hkey, -⟩ := bind_ok hentry
      exact ih hkey
    | value hmem =>
      obtain ⟨ts, hts, -⟩ := render_dict rfl ht
      obtain ⟨_, hentry⟩ := exists_of_mapM_ok hts _ hmem
      obtain ⟨_, -, hrest⟩ := bind_ok hentry
      obtain ⟨_, hvalue, -⟩ := bind_ok hrest
      exact ih hvalue
    | member hmem =>
      obtain ⟨ts, hts, -⟩ := render_set ht
      exact (exists_of_mapM_ok hts _ (List.mem_map_of_mem hmem)).elim fun _ => ih

/-! ## Values that show records -/

/-- The value holds a record at some depth, or is one. -/
def ShowsRecord (h : Heap) (v : Value) : Prop :=
  ∃ r record, h.Holds v (.record r) ∧ h.record? r = some record

/-- The value holds a set of several elements at some depth, or is one. -/
def HoldsLargeSet (h : Heap) (v : Value) : Prop := ∃ r, h.Holds v (.set r) ∧ 1 < (h.set r).size

theorem Contains.holds {u : Value} (hvw : h.Contains v w) (hw : h.Holds w u) : h.Holds v u := by
  cases hvw with
  | item hmem => exact .item hmem hw
  | element hmem => exact .element hmem hw
  | key hmem => exact .key hmem hw
  | value hmem => exact .value hmem hw
  | member hmem => exact .member hmem hw

/-- What a value holds is the value itself or held by a part. -/
theorem Holds.cases_part {u : Value} (hu : h.Holds v u) : v = u ∨ ∃ w, h.Contains v w ∧ h.Holds w u := by
  cases hu with
  | self => exact .inl rfl
  | item hmem hu => exact .inr ⟨_, .item hmem, hu⟩
  | element hmem hu => exact .inr ⟨_, .element hmem, hu⟩
  | key hmem hu => exact .inr ⟨_, .key hmem, hu⟩
  | value hmem hu => exact .inr ⟨_, .value hmem, hu⟩
  | member hmem hu => exact .inr ⟨_, .member hmem, hu⟩

/-- A value that is no record shows one where a part does. -/
theorem showsRecord_iff (hv : ∀ r, v ≠ .record r) :
    h.ShowsRecord v ↔ ∃ w, h.Contains v w ∧ h.ShowsRecord w := by
  constructor
  · rintro ⟨r, record, hholds, hrecord⟩
    rcases hholds.cases_part with hself | ⟨w, hw, hrest⟩
    · exact absurd hself (hv r)
    · exact ⟨w, hw, r, record, hrest, hrecord⟩
  · rintro ⟨w, hw, r, record, hrest, hrecord⟩
    exact ⟨r, record, hw.holds hrest, hrecord⟩

theorem not_showsRecord_of_empty (hv : ∀ r, v ≠ .record r) (hparts : ∀ w, ¬ h.Contains v w) :
    ¬ h.ShowsRecord v := by
  rw [showsRecord_iff hv]
  rintro ⟨w, hw, -⟩
  exact hparts w hw

theorem HoldsLargeSet.of_part (hvw : h.Contains v w) (hw : h.HoldsLargeSet w) : h.HoldsLargeSet v := by
  obtain ⟨r, hr, hsize⟩ := hw
  exact ⟨r, hvw.holds hr, hsize⟩

/-! ## The two ways to print -/

section Agreement

variable {n m : Nat} {within others : List Value} {r : Ref} {s t : Text}

/-- Both texts of each part of a value agree. -/
def PartsAgree (h : Heap) (v : Value) (n m : Nat) (within others : List Value) : Prop :=
  ∀ w, h.Contains v w → ∀ s t, h.render ownStyle n (v :: within) w = .ok s →
    h.render templateStyle m (v :: others) w = .ok t → Text.Agree (h.ShowsRecord w) s t

theorem list_agrees (hparts : h.PartsAgree (.list r) n m within others)
    (hlooped : (templateStyle.marksCycles && others.contains (.list r)) = false)
    (hs : h.render ownStyle (n + 1) within (.list r) = .ok s)
    (ht : h.render templateStyle (m + 1) others (.list r) = .ok t) :
    Text.Agree (h.ShowsRecord (.list r)) s t := by
  obtain ⟨ts, hts, rfl⟩ := render_list rfl hs
  obtain ⟨us, hus, rfl⟩ := render_list hlooped ht
  have hitems := Text.Agree.join h.ShowsRecord hts hus fun w hw => hparts w (.item hw)
  refine ((hitems.prepend "[").close "]" nofun).congr ?_
  rw [showsRecord_iff fun _ heq => by cases heq]
  exact exists_congr fun w => and_congr_left' ⟨.item, fun hw => by cases hw; assumption⟩

theorem tuple_agrees (hparts : h.PartsAgree (.tuple r) n m within others)
    (hlooped : (templateStyle.marksCycles && others.contains (.tuple r)) = false)
    (hs : h.render ownStyle (n + 1) within (.tuple r) = .ok s)
    (ht : h.render templateStyle (m + 1) others (.tuple r) = .ok t) :
    Text.Agree (h.ShowsRecord (.tuple r)) s t := by
  obtain ⟨ts, hts, rfl⟩ := render_tuple rfl hs
  obtain ⟨us, hus, rfl⟩ := render_tuple hlooped ht
  have hitems := Text.Agree.join h.ShowsRecord hts hus fun w hw => hparts w (.element hw)
  have hcomma : Text.IsTail (if (h.tuple r).toList.length = 1 then ("," : Text) else ("" : Text)) := by
    split <;> exact nofun
  refine (((hitems.prepend "(").close _ hcomma).close ")" nofun).congr ?_
  rw [showsRecord_iff fun _ heq => by cases heq]
  exact exists_congr fun w => and_congr_left' ⟨.element, fun hw => by cases hw; assumption⟩

theorem entry_agrees (hparts : h.PartsAgree (.dict r) n m within others) {e : Entry}
    (he : e ∈ (h.dict r).toList) (hs : renderEntry ownStyle h n (.dict r :: within) e = .ok s)
    (ht : renderEntry templateStyle h m (.dict r :: others) e = .ok t) :
    Text.Agree (h.ShowsRecord e.keyValue ∨ h.ShowsRecord e.value) s t := by
  obtain ⟨key, hkey, hrest⟩ := bind_ok hs
  obtain ⟨value, hvalue, hdone⟩ := bind_ok hrest
  obtain ⟨key', hkey', hrest'⟩ := bind_ok ht
  obtain ⟨value', hvalue', hdone'⟩ := bind_ok hrest'
  cases hdone
  cases hdone'
  have hfirst := hparts _ (.key he) _ _ hkey hkey'
  have hsecond := (hparts _ (.value he) _ _ hvalue hvalue').prepend ": "
  rw [List.append_assoc, List.append_assoc]
  exact hfirst.append hsecond nofun

theorem dict_agrees (hparts : h.PartsAgree (.dict r) n m within others)
    (hlooped : (templateStyle.marksCycles && others.contains (.dict r)) = false)
    (hs : h.render ownStyle (n + 1) within (.dict r) = .ok s)
    (ht : h.render templateStyle (m + 1) others (.dict r) = .ok t) :
    Text.Agree (h.ShowsRecord (.dict r)) s t := by
  obtain ⟨ts, hts, rfl⟩ := render_dict rfl hs
  obtain ⟨us, hus, rfl⟩ := render_dict hlooped ht
  have hentries := Text.Agree.join _ hts hus fun e he _ _ => entry_agrees hparts he
  refine ((hentries.prepend "\x7b").close "\x7d" nofun).congr ?_
  rw [showsRecord_iff fun _ heq => by cases heq]
  constructor
  · rintro ⟨e, he, hkey | hvalue⟩
    · exact ⟨_, .key he, hkey⟩
    · exact ⟨_, .value he, hvalue⟩
  · rintro ⟨w, hw, hshows⟩
    cases hw with
    | key he => exact ⟨_, he, .inl hshows⟩
    | value he => exact ⟨_, he, .inr hshows⟩

/-- Sets of one element, since the two ways put more of them in different orders. -/
theorem set_agrees (hparts : h.PartsAgree (.set r) n m within others) (hsize : (h.set r).size ≤ 1)
    (hs : h.render ownStyle (n + 1) within (.set r) = .ok s)
    (ht : h.render templateStyle (m + 1) others (.set r) = .ok t) :
    Text.Agree (h.ShowsRecord (.set r)) s t := by
  obtain ⟨ts, hts, rfl⟩ := render_small_set hsize hs
  obtain ⟨us, hus, rfl⟩ := render_small_set hsize ht
  have hmember : ∀ w, w ∈ (h.set r).toList.map Member.value ↔ h.Contains (.set r) w := by
    intro w
    constructor
    · intro hw
      obtain ⟨m, hm, rfl⟩ := List.mem_map.mp hw
      exact .member hm
    · intro hw
      cases hw with
      | member hm => exact List.mem_map_of_mem hm
  by_cases hempty : (h.set r).size = 0
  · rw [if_pos hempty, if_pos hempty]
    refine .refl (not_showsRecord_of_empty (fun _ heq => by cases heq) fun w hw => ?_) _
    rw [← hmember, Array.eq_empty_of_size_eq_zero hempty] at hw
    cases hw
  · have hmembers := Text.Agree.join h.ShowsRecord hts hus fun w hw => hparts w ((hmember w).mp hw)
    rw [if_neg hempty, if_neg hempty]
    refine ((hmembers.prepend "\x7b").close "\x7d" nofun).congr ?_
    rw [showsRecord_iff fun _ heq => by cases heq]
    exact exists_congr fun w => and_congr_left' (hmember w)

theorem record_agrees (hs : h.render ownStyle (n + 1) within (.record r) = .ok s)
    (ht : h.render templateStyle (m + 1) others (.record r) = .ok t) :
    Text.Agree (h.ShowsRecord (.record r)) s t := by
  unfold render at hs ht
  cases hrecord : h.record? r with
  | none =>
    simp only [hrecord] at hs ht
    cases hs
    cases ht
    refine .refl ?_ _
    rintro ⟨r', record, hholds, hsome⟩
    rcases hholds.cases_part with hself | ⟨w, hw, -⟩
    · cases hself
      rw [hrecord] at hsome
      cases hsome
    · cases hw
  | some record =>
    simp only [hrecord] at hs ht
    cases hs
    cases ht
    exact ⟨fun hnone => absurd ⟨r, record, .self, hrecord⟩ hnone, fun _ => record.splits⟩

end Agreement

/-- The two texts of a value are the same unless it shows a record, and then they part at the first one. -/
theorem render_agrees {n m : Nat} {within others : List Value} {s t : Text}
    (hs : h.render ownStyle n within v = .ok s) (ht : h.render templateStyle m others v = .ok t)
    (hsets : ¬ h.HoldsLargeSet v) (hothers : ∀ u ∈ others, Relation.TransGen h.IsPart v u) :
    Text.Agree (h.ShowsRecord v) s t := by
  -- On the levels of the template, which has the objects around a value for its parts.
  induction m generalizing n within others v s t with
  | zero => cases ht
  | succ m ih =>
    obtain ⟨n, rfl⟩ : ∃ k, n = k + 1 := by
      cases n with
      | zero => cases hs
      | succ n => exact ⟨n, rfl⟩
    have hlooped : (templateStyle.marksCycles && others.contains v) = false := by
      show others.contains v = false
      refine Bool.eq_false_iff.mpr fun hmem => ?_
      exact not_transGen_of_acc (acc_of_render hs) (hothers v (List.contains_iff_mem.mp hmem))
    have hparts : h.PartsAgree v n m within others := by
      intro w hw s t hs ht
      refine ih hs ht (fun hlarge => hsets (.of_part hw hlarge)) (List.forall_mem_cons.mpr ⟨?_, ?_⟩)
      · exact .single hw
      · exact fun u hu => .head hw (hothers u hu)
    cases v with
    | none | bool b | float x | nan mark | text x | library l | function f =>
      cases hs
      cases ht
      exact .refl (not_showsRecord_of_empty (fun _ heq => by cases heq) fun _ hw => by cases hw) _
    | int k =>
      obtain rfl := Except.ok.inj (hs.symm.trans ht)
      exact .refl (not_showsRecord_of_empty (fun _ heq => by cases heq) fun _ hw => by cases hw) _
    | complex re im => cases hs
    | list r => exact list_agrees hparts hlooped hs ht
    | tuple r => exact tuple_agrees hparts hlooped hs ht
    | dict r => exact dict_agrees hparts hlooped hs ht
    | set r =>
      exact set_agrees hparts (Nat.not_lt.mp fun hlarge => hsets ⟨r, .self, hlarge⟩) hs ht
    | record r => exact record_agrees hs ht

end Heap

end Scriptlet
