import Scriptlet.Proofs.Escape

/-
  Which values operations fail on.

  What is proved:
    1. `Heap.render_failure` — of all values only those that hold an integer which is too long for
       text have no text.
    2. `Heap.unpack_failure`, `Heap.format_failure` — so it is with what is reported and shown.
    3. `Heap.keyIn_failure` — a value that is refused as a key by a failure holds what can change.
-/

namespace Scriptlet

namespace Heap

/-- What a value holds at some depth, itself included. -/
inductive Holds (h : Heap) : Value → Value → Prop where
  | self {v : Value} : Holds h v v
  | item {r : Ref} {v w : Value} : v ∈ (h.list r).toList → Holds h v w → Holds h (.list r) w
  | element {r : Ref} {v w : Value} : v ∈ (h.tuple r).toList → Holds h v w → Holds h (.tuple r) w
  | key {r : Ref} {e : Entry} {w : Value} :
      e ∈ (h.dict r).toList → Holds h e.keyValue w → Holds h (.dict r) w
  | value {r : Ref} {e : Entry} {w : Value} :
      e ∈ (h.dict r).toList → Holds h e.value w → Holds h (.dict r) w
  | member {r : Ref} {m : Member} {w : Value} :
      m ∈ (h.set r).toList → Holds h m.value w → Holds h (.set r) w

/-- The value holds an integer that is too long for text. -/
def HoldsLong (h : Heap) (v : Value) : Prop :=
  ∃ n, h.Holds v (.int n) ∧ NumberText.ofInt? n = none

end Heap

/-! ## Loops that stop -/

theorem mapM_error {α β ε : Type} {f : α → Except ε β} {as : List α} {e : ε}
    (h : as.mapM f = .error e) : ∃ a ∈ as, f a = .error e := by
  induction as with
  | nil => cases h
  | cons a as ih =>
    rw [List.mapM_cons] at h
    cases ha : f a with
    | error e' =>
      rw [ha] at h
      cases h
      exact ⟨a, List.mem_cons_self, ha⟩
    | ok b =>
      rw [ha] at h
      cases has : as.mapM f with
      | error e' =>
        obtain ⟨x, hx, hfx⟩ := ih (by rw [has] at h ⊢; cases h; rfl)
        exact ⟨x, List.mem_cons_of_mem _ hx, hfx⟩
      | ok bs =>
        rw [has] at h
        cases h

theorem bind_error {α β ε : Type} {x : Except ε α} {f : α → Except ε β} {e : ε}
    (h : (x >>= f) = .error e) : x = .error e ∨ ∃ a, x = .ok a ∧ f a = .error e := by
  cases x with
  | error e' =>
    cases h
    exact .inl rfl
  | ok a => exact .inr ⟨a, rfl, h⟩

theorem bind_pure_error {α β ε : Type} {x : Except ε α} {f : α → β} {e : ε}
    (h : (x >>= fun a => pure (f a)) = .error e) : x = .error e := by
  rcases bind_error h with h | ⟨a, -, h⟩
  · exact h
  · cases h

/-! ## Texts -/

/-- The failure to make a text of an integer that is too long. -/
def longInteger : Failure := ⟨.badValue, longIntegerText⟩

theorem kind_failure {v : Value} {fault : Fault} {f : Failure} (hv : v.kind = .error fault) :
    fault.failure? ≠ some f := by
  unfold Value.kind at hv
  split at hv <;> cases hv
  exact fun hf => (by cases hf)

theorem integerText_failure {n : Int} {fault : Fault} (hn : integerText n = .error fault) :
    fault = .failure longInteger ∧ NumberText.ofInt? n = none := by
  unfold integerText at hn
  cases hlong : NumberText.ofInt? n with
  | some t =>
    rw [hlong] at hn
    cases hn
  | none =>
    rw [hlong] at hn
    cases hn
    exact ⟨rfl, rfl⟩

namespace Heap

variable {h : Heap} {levels : Nat} {v w : Value} {fault : Fault} {f : Failure}

theorem HoldsLong.of (hholds : ∀ x, h.Holds v x → h.Holds w x) (hlong : h.HoldsLong v) :
    h.HoldsLong w := by
  obtain ⟨n, hn, hnone⟩ := hlong
  exact ⟨n, hholds _ hn, hnone⟩

/-- A value without a text is too deep, or holds an integer that is too long. -/
theorem render_failure {style : PrintStyle} {within : List Value}
    (hv : h.render style levels within v = .error fault) (hf : fault.failure? = some f) :
    fault = .failure longInteger ∧ h.HoldsLong v := by
  -- On the levels: what a value holds is shown one level below it.
  induction levels generalizing within v with
  | zero =>
    cases hv
    cases hf
  | succ levels ih =>
    unfold render at hv
    cases v with
    | int n =>
      obtain ⟨hfault, hnone⟩ := integerText_failure hv
      exact ⟨hfault, n, .self, hnone⟩
    | list r =>
      simp only at hv
      split at hv
      · cases hv
      · obtain ⟨x, hx, hfx⟩ := mapM_error (bind_pure_error (bind_pure_error hv))
        exact (ih hfx).imp_right (HoldsLong.of fun _ => .item hx)
    | tuple r =>
      simp only at hv
      split at hv
      · cases hv
      · obtain ⟨x, hx, hfx⟩ := mapM_error (bind_pure_error (bind_pure_error hv))
        exact (ih hfx).imp_right (HoldsLong.of fun _ => .element hx)
    | dict r =>
      simp only at hv
      split at hv
      · cases hv
      · obtain ⟨e, he, hfe⟩ := mapM_error (bind_pure_error hv)
        rcases bind_error hfe with hkey | ⟨t, -, hvalue⟩
        · exact (ih hkey).imp_right (HoldsLong.of fun _ => .key he)
        · exact (ih (bind_pure_error hvalue)).imp_right (HoldsLong.of fun _ => .value he)
    | set r =>
      simp only at hv
      split at hv
      · cases hv
      · obtain ⟨x, hx, hfx⟩ := mapM_error (bind_pure_error hv)
        obtain ⟨m, hm, rfl⟩ := List.mem_map.mp hx
        exact (ih hfx).imp_right (HoldsLong.of fun _ => .member hm)
    | complex re im =>
      simp only at hv
      split at hv
      · cases hv
      · cases hv
        cases hf
    | record r =>
      simp only at hv
      split at hv <;> cases hv
    | _ => cases hv

theorem format_failure (hv : h.format levels v = .error fault) (hf : fault.failure? = some f) :
    fault = .failure longInteger ∧ h.HoldsLong v := by
  unfold format at hv
  split at hv
  · cases hv
  · exact render_failure hv hf

theorem unpack_failure {count : Nat} (hv : h.unpack levels v count = .error fault)
    (hf : fault.failure? = some f) : fault = .failure longInteger ∧ h.HoldsLong v := by
  have hrefuse : ∀ {text : Text}, (do
      throw (.badValue (text ++ (← h.repr levels v))) : Except Fault (List Value)) = .error fault →
        fault = .failure longInteger ∧ h.HoldsLong v := by
    intro text hv
    rcases bind_error hv with hv | ⟨t, -, hv⟩
    · exact render_failure hv hf
    · cases hv
      cases hf
  unfold unpack at hv
  rcases bind_error hv with hv | ⟨k, -, hv⟩
  · exact absurd hf (kind_failure hv)
  · cases v with
    | list r =>
      simp only at hv
      split at hv
      · cases hv
      · exact hrefuse hv
    | tuple r =>
      simp only at hv
      split at hv
      · cases hv
      · exact hrefuse hv
    | _ => exact hrefuse hv

theorem truthy_failure (hv : h.truthy v = .error fault) : fault.failure? ≠ some f := by
  cases v <;> cases hv
  exact fun hf => (by cases hf)

/-! ## Keys -/

theorem keyWithin_failure (hv : h.keyWithin levels v = .error fault) :
    ∃ w, h.Holds v w ∧ fault = unhashable w := by
  induction levels generalizing v with
  | zero =>
    cases hv
    exact ⟨v, .self, rfl⟩
  | succ levels ih =>
    unfold keyWithin at hv
    cases v with
    | tuple r =>
      cases hitems : h.tuples[r]? with
      | none =>
        simp only [hitems] at hv
        cases hv
        exact ⟨_, .self, rfl⟩
      | some items =>
        simp only [hitems] at hv
        obtain ⟨x, hx, hfx⟩ := mapM_error (bind_pure_error hv)
        obtain ⟨w, hw, hfault⟩ := ih hfx
        have hmem : x ∈ (h.tuple r).toList := by
          rwa [tuple, Array.getD_eq_getD_getElem?, hitems]
        exact ⟨w, .element hmem hw, hfault⟩
    | list _ | dict _ | set _ =>
      cases hv
      exact ⟨_, .self, rfl⟩
    | _ => cases hv

/-- What is accepted as hashable and yet refused as a key is a tuple. -/
theorem keyIn_failure {context : Text} (hv : h.keyIn v context = .error fault)
    (hf : fault.failure? = some f) : ∃ r w, v = .tuple r ∧ h.Holds v w ∧ fault = unhashable w := by
  unfold keyIn at hv
  rcases bind_error hv with hv | ⟨u, haccepted, hv⟩
  · unfold requireHashable at hv
    rcases bind_error hv with hv | ⟨k, -, hv⟩
    · exact absurd hf (kind_failure hv)
    · split at hv <;> cases hv
      cases hf
  · obtain ⟨w, hw, hfault⟩ := keyWithin_failure hv
    cases v with
    | tuple r => exact ⟨r, w, rfl, hw, hfault⟩
    | list _ | dict _ | set _ | complex _ _ => cases haccepted
    | _ => cases hv

end Heap

end Scriptlet
