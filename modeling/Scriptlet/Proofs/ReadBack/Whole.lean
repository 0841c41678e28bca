import Scriptlet.Proofs.Effects
import Scriptlet.Proofs.ReadBack.Equality
import Scriptlet.Proofs.ReadBack.Evaluating
import Scriptlet.Proofs.ReadBack.Parsing

/-
  Printed data reads back.

  The text of a value that shows readable data is cut into the words of the data (`Data.scan_written`),
  these words are read as its expression (`Data.read_written`), and that expression evaluates to a new
  value that shows the data (`Engine.evaluateNode_makes`). Two values of the same data are equal
  (`Heap.equal_arranged`).

  The states of all runs have the tuple without elements at its place (`NamedEffects.hasUnit`), which is all
  that is asked of the state that the text is evaluated in.
-/

namespace Scriptlet

/-- No change of an object touches the tuple without elements. -/
theorem Heap.Changes.hasUnit {h h' : Heap} (hchange : h.Changes h') (hunit : h.HasUnit) : h'.HasUnit := by
  cases hchange with
  | newTuple items => exact (Heap.Extends.newTuple h items).hasUnit hunit
  | newFloat x =>
    unfold Heap.newFloat
    split
    · exact hunit
    · exact hunit
  | _ => exact hunit

/-- A run leaves the tuple without elements at its place. -/
theorem NamedEffects.hasUnit {limits : Limits} {named : Text → Prop} {s t : State}
    (h : NamedEffects limits named s t)
    (hunit : s.heap.HasUnit) : t.heap.HasUnit := by
  induction h with
  | none | bound | refused | written | drawn => exact hunit
  | trans _ _ ihs iht => exact iht (ihs hunit)
  | object hchange => exact hchange.hasUnit hunit
  | block _ _ ih => exact ih hunit

namespace Engine

/-- Written data evaluates to a new value that shows it, and nothing else changes. -/
theorem evaluate_written {d : Data} (hd : d.IsReadable) (limits : Limits) {s : State}
    (hunit : s.heap.HasUnit) {n : Nat} (hn : 10 * d.words.length + 4 * d.height + 14 ≤ n) :
    ∃ v h, (tower limits n 0).evaluate d.written s = .ok v { s with heap := h } ∧
      s.heap.Makes d v h := by
  obtain ⟨m, rfl⟩ : ∃ m, n = m + 1 := ⟨n - 1, by omega⟩
  obtain ⟨e, hread, hbare⟩ := Data.read_written hd m (by omega)
  obtain ⟨v, h, hvalue, hmakes⟩ :
      ∃ v h, (tower limits m 0).evaluateNode d.written e s = .ok v { s with heap := h } ∧
        s.heap.Makes d v h := evaluateNode_makes hbare hd hunit (by omega)
  refine ⟨v, h, ?_, hmakes⟩
  have htrim : d.written.trim = d.written := (Data.part_written hd).trimmed
  have hsteps : (do
      let e ← liftM (Evaluation.read m d.written)
      (tower limits m 0).evaluateNode d.written e : Run Value) s = .ok v { s with heap := h } := by
    rw [hread]
    exact hvalue
  show Run.mapFault (Fault.leaving d.written.trim) (do
    let e ← liftM (Evaluation.read m d.written.trim)
    (tower limits m 0).evaluateNode d.written.trim e) s = _
  rw [Run.mapFault_apply, htrim, hsteps]

end Engine

/-- The text of a value is read back, in any state: it evaluates to a value that shows the same data,
but for the order of the elements of sets, and is equal to the first value. Only new objects are made;
variables, output and the objects that were there are left as they are. -/
theorem Heap.repr_reads_back {h : Heap} {d : Data} {v : Value} (hv : h.Shows d v)
    (hd : d.IsReadable) :
    ∃ text : Text, (∀ n, d.height < n → h.repr n v = .ok text) ∧
      ∃ levels, ∀ (limits : Limits) (s : State), s.heap.HasUnit → ∀ n, levels ≤ n →
        ∃ w h', (Engine.tower limits n 0).evaluate text s = .ok w { s with heap := h' } ∧
          s.heap.Extends h' ∧ h'.Shows d.arranged w ∧
          (s.heap.Shows d v → ∀ k, d.height < k → h'.equal k v w = .ok true) := by
  have hreadable := Data.arranged_isReadable hd
  refine ⟨d.arranged.written, fun n hn => repr_of_shows hv hd.isPrintable hn,
    10 * d.arranged.words.length + 4 * d.arranged.height + 14, fun limits s hunit n hn => ?_⟩
  obtain ⟨w, h', hvalue, hmakes⟩ := Engine.evaluate_written hreadable limits hunit hn
  refine ⟨w, h', hvalue, hmakes.grows, hmakes.shows, fun hthere k hk => ?_⟩
  exact equal_arranged (hthere.extend hmakes.grows) hmakes.shows hd hk

/-- The list `[-5, (True,)]`, read back where it stands. -/
theorem Heap.repr_reads_back_list :
    let h : Heap :=
      { Heap.initial with lists := #[#[.int (-5), .tuple 1]], tuples := #[#[], #[.bool true]] }
    let s : State := { State.initial ⟨0⟩ 0 with heap := h }
    ∃ (text : Text) (levels : Nat) (w : Value) (h' : Heap), h.repr 3 (.list 0) = .ok text ∧
      (Engine.tower .standard levels 0).evaluate text s = .ok w { s with heap := h' } ∧
      h.Extends h' ∧ h'.equal 3 (.list 0) w = .ok true := by
  intro h s
  have hshows : h.Shows (.list [.int (-5), .tuple [.bool true]]) (.list 0) := by
    simp only [Shows]
    exact ⟨0, _, rfl, rfl, rfl, ⟨1, _, rfl, rfl, rfl, trivial⟩, trivial⟩
  have hshort : ∀ k, 1 ≤ k → (-5 : Int).natAbs < tenTo k := fun k hk =>
    calc (-5 : Int).natAbs < 10 ^ 1 := by decide
      _ ≤ tenTo k := Nat.pow_le_pow_right (by decide) hk
  have hreadable : (Data.list [.int (-5), .tuple [.bool true]]).IsReadable := by
    simp only [Data.IsReadable, Data.AreReadable]
    exact ⟨hshort _ (by decide), ⟨trivial, trivial⟩, trivial⟩
  have hheight : (Data.list [.int (-5), .tuple [.bool true]]).height < 3 := by decide
  obtain ⟨text, hrepr, levels, hback⟩ := repr_reads_back hshows hreadable
  obtain ⟨w, h', hvalue, hgrows, -, hequal⟩ := hback .standard s rfl levels (Nat.le_refl levels)
  exact ⟨text, levels, w, h', hrepr 3 hheight, hvalue, hgrows, hequal hshows 3 hheight⟩

end Scriptlet
