import Mathlib.Data.List.Basic
import Scriptlet.Server

/-
  The register of tools and the host that holds them.

  A server enters a tool into its register before it offers the function of the tool to a host, and takes
  the name out again if the host refuses the function. The host keeps what it had under that name. So the
  two tables agree as long as no function is refused under a name that is held already; where one is, the
  server forgets a tool that the host still holds.

  What is proved:
    1. `Tables.isQuiet_iff` — one registration leaves the tables in agreement, and the register as it was if
       it fails, exactly if it is not refused under a name that is held.
    2. `Tables.isQuiet_history_iff` — the same for all registrations of a history.
    3. `Tables.not_isQuiet_history` — a history of two registrations after which the tables disagree.
-/

namespace Scriptlet

namespace Server

/-- What takes functions from a server, to offer them as tools. A function that it takes replaces the one
that it had under the name; when it refuses a function, it keeps what it had. -/
structure Host (σ F : Type) where
  /-- The names of the tools that are held. -/
  names : σ → List Text
  /-- Whether the function is refused under the name, and the host afterwards. -/
  offer : σ → Text → F → Bool × σ
  names_of_refused : ∀ s name f, (offer s name f).1 = true → names (offer s name f).2 = names s
  names_of_taken : ∀ s name f, (offer s name f).1 = false →
    names (offer s name f).2 = enter (names s) name

/-- The register of a server and the host of its tools. -/
structure Tables (σ : Type) where
  registered : List Text
  held : σ

variable {σ F : Type}

/-- A host that refuses the functions that are marked and holds nothing but names. -/
def Host.marked : Host (List Text) Bool where
  names held := held
  offer held name isMarked := (isMarked, if isMarked then held else enter held name)
  names_of_refused _ _ _ h := if_pos h
  names_of_taken _ _ _ h := if_neg (ne_true_of_eq_false h)

namespace Tables

variable (host : Host σ F)

/-- All that the host holds is registered. -/
def start (s : σ) : Tables σ := ⟨host.names s, s⟩

/-- Registers a function under a name. The host is asked for names that a tool can have. -/
def register (t : Tables σ) (name : Text) (f : F) : Except Refusal Unit × Tables σ :=
  let (isRefused, held) := if isToolName name then host.offer t.held name f else (false, t.held)
  let (result, registered) := Server.register t.registered name isRefused
  (result, ⟨registered, held⟩)

/-- The tables after some registrations, however they ended. -/
def after (t : Tables σ) (history : List (Text × F)) : Tables σ :=
  history.foldl (fun t entry => (t.register host entry.1 entry.2).2) t

/-- A registration that fails leaves the register as it was, and afterwards the names registered are those
held, in the same order. -/
structure IsQuiet (t : Tables σ) (name : Text) (f : F) : Prop where
  unchanged : (t.register host name f).1 ≠ .ok () → (t.register host name f).2.registered = t.registered
  agrees : (t.register host name f).2.registered = host.names (t.register host name f).2.held

/-- The host refuses the function under a name that it holds. -/
def Ousts (s : σ) (name : Text) (f : F) : Prop :=
  isToolName name = true ∧ (host.offer s name f).1 = true ∧ name ∈ host.names s

variable {host} {s : σ} {name : Text} {f : F}

/-! ## One registration -/

theorem register_of_improper {t : Tables σ} (hname : isToolName name = false) :
    t.register host name f = (.error (.badName name), t) := by
  simp [register, Server.register, hname]

theorem register_of_refused {t : Tables σ} (hname : isToolName name = true)
    (hrefused : (host.offer t.held name f).1 = true) :
    t.register host name f =
      (.error .openArguments, ⟨t.registered.filter (· != name), (host.offer t.held name f).2⟩) := by
  simp [register, Server.register, hname, hrefused]

theorem register_of_taken {t : Tables σ} (hname : isToolName name = true)
    (htaken : (host.offer t.held name f).1 = false) :
    t.register host name f = (.ok (), ⟨enter t.registered name, (host.offer t.held name f).2⟩) := by
  simp [register, Server.register, hname, htaken]

theorem filter_eq_self_iff {tools : List Text} : tools.filter (· != name) = tools ↔ name ∉ tools := by
  rw [List.filter_eq_self]
  constructor
  · intro hall hmem
    simpa using hall name hmem
  · rintro hnot other hother
    exact bne_iff_ne.mpr fun heq => hnot (heq ▸ hother)

/-- Where the register agrees with the host, a registration is quiet unless the host refuses the function
under a name that it holds. -/
theorem isQuiet_iff : (start host s).IsQuiet host name f ↔ ¬ Ousts host s name f := by
  cases hname : isToolName name with
  | false =>
    have hregister : (start host s).register host name f = (.error (.badName name), start host s) :=
      register_of_improper hname
    refine ⟨fun _ housts => ?_, fun _ => ⟨fun _ => ?_, ?_⟩⟩
    · rw [housts.1] at hname
      cases hname
    · rw [hregister]
    · rw [hregister]
      rfl
  | true =>
    cases hrefused : (host.offer s name f).1 with
    | false =>
      have hregister := register_of_taken (t := start host s) hname hrefused
      refine ⟨fun _ housts => ?_, fun _ => ⟨fun hfailed => ?_, ?_⟩⟩
      · rw [housts.2.1] at hrefused
        cases hrefused
      · rw [hregister] at hfailed
        exact absurd rfl hfailed
      · rw [hregister]
        exact (host.names_of_taken s name f hrefused).symm
    | true =>
      have hregister := register_of_refused (t := start host s) hname hrefused
      have hkept := host.names_of_refused s name f hrefused
      constructor
      · intro hquiet housts
        have hsame := hquiet.unchanged (by rw [hregister]; exact fun h => by cases h)
        rw [hregister] at hsame
        exact filter_eq_self_iff.mp hsame housts.2.2
      · intro hfree
        have hsame : (host.names s).filter (· != name) = host.names s :=
          filter_eq_self_iff.mpr fun hmem => hfree ⟨hname, hrefused, hmem⟩
        refine ⟨fun _ => ?_, ?_⟩
        · rw [hregister]
          exact hsame
        · rw [hregister]
          exact hsame.trans hkept.symm

/-! ## Histories -/

/-- What holds of every entry of a list, with those in front of it, holds of the first and of the others. -/
theorem forall_split_cons {α : Type} {P : List α → α → Prop} {a : α} {l : List α} :
    (∀ front b behind, a :: l = front ++ b :: behind → P front b) ↔
      P [] a ∧ ∀ front b behind, l = front ++ b :: behind → P (a :: front) b := by
  constructor
  · exact fun h => ⟨h [] a l rfl, fun front b behind hl => h (a :: front) b behind (by rw [hl]; rfl)⟩
  · rintro ⟨hfirst, hothers⟩ front b behind hl
    cases front with
    | nil =>
      cases hl
      exact hfirst
    | cons c front =>
      cases hl
      exact hothers front b behind rfl

/-- Whatever is registered, one function after the other, in a server that has registered what its host
holds: all registrations that fail leave the register as it was, and the names registered are those held
after each of them, exactly if no function is refused under a name that the host holds at that time. -/
theorem isQuiet_history_iff (host : Host σ F) (s : σ) (history : List (Text × F)) :
    (∀ front entry behind, history = front ++ entry :: behind →
        ((start host s).after host front).IsQuiet host entry.1 entry.2) ↔
      ∀ front entry behind, history = front ++ entry :: behind →
        ¬ Ousts host ((start host s).after host front).held entry.1 entry.2 := by
  induction history generalizing s with
  | nil => simp
  | cons entry rest ih =>
    rw [forall_split_cons (P := fun front entry =>
        ((start host s).after host front).IsQuiet host entry.1 entry.2),
      forall_split_cons (P := fun front entry =>
        ¬ Ousts host ((start host s).after host front).held entry.1 entry.2)]
    refine (and_congr_right fun hquiet => ?_).trans (and_congr_left fun _ => isQuiet_iff)
    -- A quiet registration leaves the tables in agreement, so that the rest starts as the whole did.
    have hnext : ((start host s).register host entry.1 entry.2).2 =
        start host ((start host s).register host entry.1 entry.2).2.held :=
      congrArg (Tables.mk · _) hquiet.agrees
    have hafter : ∀ front, (start host s).after host (entry :: front) =
        (start host ((start host s).register host entry.1 entry.2).2.held).after host front :=
      fun front => congrArg (after host · front) hnext
    simp only [hafter]
    exact ih _

/-- A tool is registered, and a second function is refused under its name: the server forgets the tool,
which the host still holds. -/
theorem not_isQuiet_history :
    ¬ ∀ (σ F : Type) (host : Host σ F) (s : σ) (front : List (Text × F)) (entry : Text × F),
      ((start host s).after host front).IsQuiet host entry.1 entry.2 := by
  intro hclaim
  have hsecond := hclaim _ _ Host.marked [] [("echo", false)] ("echo", true)
  have hrefused : (((start Host.marked []).after Host.marked [("echo", false)]).register Host.marked
      "echo" true).1 ≠ .ok () := by decide
  have hforgotten : (((start Host.marked []).after Host.marked [("echo", false)]).register Host.marked
      "echo" true).2.registered = [] := by decide
  have hheld : ((start Host.marked []).after Host.marked [("echo", false)]).registered =
      [Text.ofString "echo"] := by decide
  have hsame := hsecond.unchanged hrefused
  rw [hforgotten, hheld] at hsame
  cases hsame

end Tables

end Server

end Scriptlet
