import Scriptlet.Session

/-
  Steps of a run, applied to a state.

  Small equations for the combinators that runs are written with: what each of them gives in a state.
  Proofs about runs go by these and do not unfold the monad.
-/

namespace Scriptlet

namespace Run

variable {α β : Type} (s : State)

theorem pure_apply (a : α) : (pure a : Run α) s = .ok a s := rfl

theorem bind_apply (x : Run α) (f : α → Run β) :
    (x >>= f) s = match x s with
      | .ok a t => f a t
      | .error fault t => .error fault t := by
  show EStateM.bind x f s = _
  unfold EStateM.bind
  cases x s <;> rfl

/-- What goes on behind a step that has ended. -/
theorem bind_of_ok {x : Run α} {s t : State} {a : α} (h : x s = .ok a t) (f : α → Run β) :
    (x >>= f) s = f a t := by
  rw [bind_apply, h]

theorem bind_of_error {x : Run α} {s t : State} {fault : Fault} (h : x s = .error fault t)
    (f : α → Run β) : (x >>= f) s = .error fault t := by
  rw [bind_apply, h]

/-- What stops a step and what comes behind it stops one of the two. -/
theorem bind_error {x : Run α} {f : α → Run β} {s t : State} {fault : Fault}
    (h : (x >>= f) s = .error fault t) :
    x s = .error fault t ∨ ∃ a u, x s = .ok a u ∧ f a u = .error fault t := by
  rw [bind_apply] at h
  cases hx : x s with
  | ok a u =>
    rw [hx] at h
    exact .inr ⟨a, u, rfl, h⟩
  | error other u =>
    rw [hx] at h
    cases h
    exact .inl rfl

/-- What is made of the result of a step stops nothing. -/
theorem bind_pure_error_iff {x : Run α} {f : α → β} {s t : State} {fault : Fault} :
    (x >>= fun a => (pure (f a) : Run β)) s = .error fault t ↔ x s = .error fault t := by
  rw [bind_apply]
  cases x s with
  | ok a u => exact ⟨fun h => (by cases h), fun h => (by cases h)⟩
  | error other u => exact ⟨fun h => (by cases h; rfl), fun h => (by cases h; rfl)⟩

theorem get_apply : (get : Run State) s = .ok s s := rfl

theorem modify_apply (f : State → State) : (modify f : Run Unit) s = .ok () (f s) := rfl

/-- A computation without a state leaves the state as it is. -/
theorem liftM_apply (x : Except Fault α) :
    (liftM x : Run α) s = match x with
      | .ok a => .ok a s
      | .error fault => .error fault s := by
  cases x <;> rfl

theorem look_apply (read : Heap → Except Fault α) :
    look read s = match read s.heap with
      | .ok a => .ok a s
      | .error fault => .error fault s := by
  show (Run.lift (read s.heap)) s = _
  cases read s.heap <;> rfl

theorem bind_ok_iff {x : Run α} {g : α → Run β} {b : β} {s t : State} :
    (x >>= g) s = .ok b t ↔ ∃ a u, x s = .ok a u ∧ g a u = .ok b t := by
  rw [Run.bind_apply]
  cases x s with
  | ok a u =>
    constructor
    · intro h
      exact ⟨a, u, rfl, h⟩
    · rintro ⟨a', u', h, hg⟩
      cases h
      exact hg
  | error fault u =>
    constructor
    · intro h
      cases h
    · rintro ⟨a', u', h, -⟩
      cases h

theorem liftM_ok_iff {x : Except Fault α} {a : α} {s t : State} :
    (liftM x : Run α) s = .ok a t ↔ x = .ok a ∧ s = t := by
  rw [liftM_apply]
  cases x <;> simp

theorem look_ok_iff {read : Heap → Except Fault α} {a : α} {s t : State} :
    look read s = .ok a t ↔ read s.heap = .ok a ∧ s = t := by
  rw [look_apply]
  cases read s.heap <;> simp

/-- What a run stops with. -/
def fault? : EStateM.Result Fault State α → Option Fault
  | .ok _ _ => none
  | .error fault _ => some fault

/-- The state that a run ends in. -/
def final : EStateM.Result Fault State α → State
  | .ok _ s | .error _ s => s

theorem fault?_eq_some_iff {r : EStateM.Result Fault State α} {fault : Fault} :
    fault? r = some fault ↔ ∃ t, r = .error fault t := by
  cases r <;> simp [fault?]

/-- Trying something for all elements goes through them one after the other. -/
theorem forIn_cons_apply (a : α) (as : List α) (f : α → PUnit → Run (ForInStep PUnit)) :
    (forIn (a :: as) PUnit.unit f) s = match f a PUnit.unit s with
      | .ok (.yield _) t => (forIn as PUnit.unit f) t
      | .ok (.done _) t => .ok PUnit.unit t
      | .error fault t => .error fault t := by
  rw [List.forIn_cons, bind_apply]
  cases f a PUnit.unit s with
  | ok step t => cases step <;> rfl
  | error fault t => rfl

theorem thenAlways_apply (body : Run α) (cleanUp : State → State) :
    thenAlways body cleanUp s = match body s with
      | .ok a t => .ok a (cleanUp t)
      | .error fault t => .error fault (cleanUp t) := rfl

theorem mapFault_apply (f : Fault → Fault) (body : Run α) :
    mapFault f body s = match body s with
      | .ok a t => .ok a t
      | .error fault t => .error (f fault) t := rfl

theorem tested_apply (body : Run α) (test : Heap → α → Except Fault Unit) :
    tested body test s = match body s with
      | .ok a t =>
        match test t.heap a with
        | .ok () => .ok a t
        | .error fault => .error fault s
      | .error fault t => .error fault t := rfl

/-- A step that is tested ends as it does without the test, or is refused in the state that it began in. -/
theorem tested_cases (body : Run α) (test : Heap → α → Except Fault Unit) :
    (∃ a t, body s = .ok a t ∧ test t.heap a = .ok () ∧ tested body test s = .ok a t) ∨
      (∃ fault t, body s = .error fault t ∧ tested body test s = .error fault t) ∨
      ∃ a t fault, body s = .ok a t ∧ test t.heap a = .error fault ∧
        tested body test s = .error fault s := by
  rw [tested_apply]
  cases hbody : body s with
  | error fault t => exact .inr (.inl ⟨fault, t, rfl, rfl⟩)
  | ok a t =>
    simp only
    cases htest : test t.heap a with
    | ok u => exact .inl ⟨a, t, rfl, htest, rfl⟩
    | error fault => exact .inr (.inr ⟨a, t, fault, rfl, htest, rfl⟩)

theorem tested_of_ok {body : Run α} {test : Heap → α → Except Fault Unit} {s t : State} {a : α}
    (hbody : body s = .ok a t) (htest : test t.heap a = .ok ()) : tested body test s = .ok a t := by
  rw [tested_apply, hbody]
  simp only [htest]

theorem tested_of_refused {body : Run α} {test : Heap → α → Except Fault Unit} {s t : State} {a : α}
    {fault : Fault} (hbody : body s = .ok a t) (htest : test t.heap a = .error fault) :
    tested body test s = .error fault s := by
  rw [tested_apply, hbody]
  simp only [htest]

theorem tested_of_error {body : Run α} (test : Heap → α → Except Fault Unit) {s t : State}
    {fault : Fault} (hbody : body s = .error fault t) : tested body test s = .error fault t := by
  rw [tested_apply, hbody]

theorem tested_ok_iff {body : Run α} {test : Heap → α → Except Fault Unit} {s t : State} {a : α} :
    tested body test s = .ok a t ↔ body s = .ok a t ∧ test t.heap a = .ok () := by
  constructor
  · intro h
    rcases tested_cases s body test with ⟨b, u, hbody, htest, hdone⟩ | ⟨fault, u, -, hdone⟩ |
      ⟨b, u, fault, -, -, hdone⟩
    · rw [hdone] at h
      cases h
      exact ⟨hbody, htest⟩
    · rw [hdone] at h
      cases h
    · rw [hdone] at h
      cases h
  · rintro ⟨hbody, htest⟩
    exact tested_of_ok hbody htest

end Run

namespace Traversal

/-- The elements in the order of what a chosen function gives for them, or of themselves. -/
def sortedBy (engine : Engine) (n : Nat) (items reverse : Value) (chosen : Option Function) :
    Run Value := do
  let values ← Run.look fun h => h.iterate items "sorted()"
  let backwards ← Run.look fun h => h.truthy reverse
  let keyed ← values.mapM fun v => do
    match chosen with
    | none => return (v, v)
    | some f => return (← engine.call f ⟨[v], []⟩, v)
  let pairs ← Run.look fun h =>
    let less (a b : Value × Value) : Except Fault Bool := h.ordered .lt n a.1 b.1
    if backwards then return (← Sorting.sort less keyed.reverse).reverse
    else Sorting.sort less keyed
  Run.newList (pairs.map (·.2))

variable {room : Room} {items reverse key : Value}

theorem sorted_none : sorted room items reverse .none =
    sortedBy (room.below 1) room.levels items reverse none := rfl

theorem sorted_keyed (hkey : key ≠ .none) : sorted room items reverse key = (do
    let f ← requireFunction key "sorted() key"
    sortedBy (room.below 1) room.levels items reverse (some f)) := by
  cases key with
  | none => exact absurd rfl hkey
  | _ => rfl

end Traversal

/-- What is left behind a line and a body is shorter. -/
theorem Execution.length_drop_lt {α : Type} (line : α) (rest : List α) (taken : Nat) :
    (rest.drop taken).length < (line :: rest).length := by
  rw [List.length_drop, List.length_cons]
  omega

namespace Engine

variable (limits : Limits)

/-- The room of what is run with so many levels below it. -/
def room (levels : Nat) : Room := ⟨tower limits levels, levels⟩

/-- So many levels further down is the engine with so many levels less. -/
theorem tower_below (n k : Nat) : tower limits n k = tower limits (n - k) 0 := by
  induction n generalizing k with
  | zero => simp only [Nat.zero_sub, tower]
  | succ n ih =>
    cases k with
    | zero => rfl
    | succ k =>
      rw [Nat.succ_sub_succ, ← ih]
      rfl

/-- One level further down is the engine with one level less. -/
theorem tower_one (n : Nat) : tower limits n 1 = tower limits (n - 1) 0 := tower_below limits n 1

end Engine

end Scriptlet
