import Scriptlet.Proofs.Documents.Values
import Scriptlet.Proofs.ReadBack.Evaluating
import Scriptlet.Session

/-
  Values written as documents and read back.

  A document that was written for data is made into new objects, which show the data as it comes back
  (`Data.decoded`): tuples are lists, keys are what they were printed as, and halves that stand side by side
  are joined. Keys that are told apart only by such halves become one; the value of the last one stands at
  the place of the first.

  What is proved:
    1. `Heap.files_put` — an entry is put among entries of a mapping as it is put among those of its data.
    2. `ofJson_makes` — the value of a document is new and shows the data as it comes back.
    3. `Data.decoded_eq_listed` — where no halves stand side by side, that is the data with lists for tuples
       and printed keys.
    4. `Notation.loads_dumps` — the text that is written for a value is read back as a new one.
-/

namespace Scriptlet

namespace Data

/-- The mapping of entries. -/
def mapping (entries : List (Text × Data)) : Data :=
  .dict (entries.map fun entry => .text entry.1) (entries.map Prod.snd)

mutual

/-- The data as it comes back from its document. -/
def decoded : Data → Data
  | .none | .set _ => .none
  | .bool b => .bool b
  | .int n => .int n
  | .text t => .text t.joined
  | .list items | .tuple items => .list (decodedAll items)
  | .dict ks vs => mapping (Entries.putAll [] (((ks.map printed).map Text.joined).zip (decodedAll vs)))

def decodedAll : List Data → List Data
  | [] => []
  | d :: rest => d.decoded :: decodedAll rest

end

mutual

/-- The data with lists for tuples and with printed keys. -/
def listed : Data → Data
  | .none => .none
  | .bool b => .bool b
  | .int n => .int n
  | .text t => .text t
  | .list items | .tuple items => .list (listedAll items)
  | .dict ks vs => .dict (ks.map fun k => .text k.printed) (listedAll vs)
  | .set items => .set items

def listedAll : List Data → List Data
  | [] => []
  | d :: rest => d.listed :: listedAll rest

end

mutual

/-- In no text and no printed key a first half stands in front of a second half. -/
def HasNoPair : Data → Prop
  | .none | .bool _ | .int _ => True
  | .text t => t.HasNoPair
  | .list items | .tuple items | .set items => HaveNoPair items
  | .dict ks vs => (∀ k ∈ ks, k.printed.HasNoPair) ∧ HaveNoPair vs

def HaveNoPair : List Data → Prop
  | [] => True
  | d :: rest => d.HasNoPair ∧ HaveNoPair rest

end

/-! ## Where nothing is joined -/

theorem length_decodedAll (ds : List Data) : (decodedAll ds).length = ds.length := by
  induction ds with
  | nil => rfl
  | cons d ds ih => rw [decodedAll, List.length_cons, List.length_cons, ih]

mutual

/-- Where no halves are joined, the data comes back with lists for tuples and with printed keys. -/
theorem decoded_eq_listed : ∀ {d : Data}, d.IsDocument → d.HasNoPair → d.decoded = d.listed
  | .none, _, _ | .bool _, _, _ | .int _, _, _ => by rw [decoded, listed]
  | .text t, _, h => by
    rw [HasNoPair] at h
    rw [decoded, listed, h.joined_eq]
  | .list items, hd, h | .tuple items, hd, h => by
    rw [IsDocument] at hd
    rw [HasNoPair] at h
    rw [decoded, listed, decodedAll_eq_listedAll hd h]
  | .dict ks vs, hd, h => by
    rw [IsDocument] at hd
    rw [HasNoPair] at h
    obtain ⟨-, -, hnodup, hlength, hvs⟩ := hd
    -- Keys that are not joined are as unlike as they were printed, so that no entry replaces another one.
    have hkeys : (ks.map printed).map Text.joined = ks.map printed := by
      rw [List.map_map]
      exact List.map_congr_left fun k hk => (h.1 k hk).joined_eq
    have hsame : (ks.map printed).length = (decodedAll vs).length := by
      rw [List.length_map, length_decodedAll, hlength]
    have hdistinct : (([] ++ (ks.map printed).zip (decodedAll vs)).map Prod.fst).Nodup := by
      rw [List.nil_append, List.map_fst_zip (Nat.le_of_eq hsame)]
      exact hnodup
    have htexts : (((ks.map printed).zip (decodedAll vs)).map fun entry => Data.text entry.1) =
        ks.map fun k => .text k.printed :=
      calc (((ks.map printed).zip (decodedAll vs)).map fun entry => Data.text entry.1)
          = (((ks.map printed).zip (decodedAll vs)).map Prod.fst).map .text := List.map_map.symm
        _ = (ks.map printed).map .text := by rw [List.map_fst_zip (Nat.le_of_eq hsame)]
        _ = ks.map fun k => .text k.printed := List.map_map
    rw [decoded, listed, hkeys, Entries.putAll_of_nodup hdistinct, List.nil_append, mapping, htexts,
      ← decodedAll_eq_listedAll hvs h.2, List.map_snd_zip (Nat.le_of_eq hsame.symm)]
  | .set _, hd, _ => by
    rw [IsDocument] at hd
    exact hd.elim

theorem decodedAll_eq_listedAll : ∀ {ds : List Data}, AreDocuments ds → HaveNoPair ds →
    decodedAll ds = listedAll ds
  | [], _, _ => rfl
  | d :: ds, hds, h => by
    rw [AreDocuments] at hds
    rw [HaveNoPair] at h
    rw [decodedAll, listedAll, decoded_eq_listed hds.1 h.1, decodedAll_eq_listedAll hds.2 h.2]

end

end Data

/-! ## Entries of mappings -/

theorem Entry.toList_put (entries : Array Entry) (key : Key) (keyValue value : Value) :
    (Entry.put entries key keyValue value).toList = match entries.toList.findIdx? (·.key == key) with
      | some i => entries.toList.modify i fun e => { e with value := value }
      | none => entries.toList ++ [⟨key, keyValue, value⟩] := by
  unfold Entry.put
  rw [← List.findIdx?_toArray]
  cases entries.findIdx? (·.key == key) <;> simp

namespace Heap

/-- The entry is filed under a text and shows data. -/
structure Files (h : Heap) (e : Entry) (entry : Text × Data) : Prop where
  key_eq : e.key = [.text entry.1]
  keyValue_eq : e.keyValue = .text entry.1
  shows : h.Shows entry.2 e.value

variable {h h' : Heap}

theorem Files.extend {e : Entry} {entry : Text × Data} (hext : h.Extends h') (hfiles : h.Files e entry) :
    h'.Files e entry :=
  ⟨hfiles.key_eq, hfiles.keyValue_eq, hfiles.shows.extend hext⟩

/-- An entry is put among the entries of a mapping as it is put among those of its data. -/
theorem files_put {done : Array Entry} {entries : List (Text × Data)}
    (hdone : List.Forall₂ h.Files done.toList entries) (key : Text) {d : Data} {v : Value}
    (hv : h.Shows d v) : List.Forall₂ h.Files (Entry.put done [.text key] (.text key) v).toList
      (Entries.putUnder key d entries) := by
  rw [Entry.toList_put]
  generalize done.toList = items at hdone ⊢
  induction hdone with
  | nil => exact .cons ⟨rfl, rfl, hv⟩ .nil
  | @cons e entry items entries he hrest ih =>
    rw [List.findIdx?_cons, he.key_eq]
    by_cases hkey : entry.1 = key
    · subst hkey
      rw [beq_self_eq_true, if_pos rfl]
      show List.Forall₂ h.Files ({ e with value := v } :: items)
        (if entry.1 = entry.1 then (entry.1, d) :: entries else _)
      rw [if_pos rfl]
      exact .cons ⟨he.key_eq, he.keyValue_eq, hv⟩ hrest
    · have hne : (([KeyPart.text entry.1] : Key) == [.text key]) = false := by
        simpa using hkey
      rw [hne, if_neg Bool.false_ne_true]
      show List.Forall₂ h.Files _ (if entry.1 = key then _ else entry :: Entries.putUnder key d entries)
      rw [if_neg hkey]
      cases hfound : items.findIdx? (·.key == [.text key]) with
      | none =>
        rw [hfound] at ih
        exact .cons he ih
      | some i =>
        rw [hfound] at ih
        exact .cons he ih

/-- A mapping of entries that are filed shows the mapping of their data. -/
theorem shows_mapping {r : Ref} {items : Array Entry} {entries : List (Text × Data)}
    (hr : h.dicts[r]? = some items) (hfiles : List.Forall₂ h.Files items.toList entries) :
    h.Shows (Data.mapping entries) (.dict r) := by
  rw [Data.mapping]
  simp only [Shows]
  refine ⟨r, items, rfl, hr, ?_⟩
  generalize items.toList = items at hfiles
  clear hr
  induction hfiles with
  | nil => simp [ShowAll, Data.keys]
  | cons he _ ih =>
    obtain ⟨hkeys, hvalues, hfiled⟩ := ih
    simp only [List.map_cons, ShowAll, Data.keys, Data.key, he.key_eq, he.keyValue_eq, hfiled]
    exact ⟨⟨rfl, hkeys⟩, ⟨he.shows, hvalues⟩, trivial⟩

end Heap

/-! ## Values of documents -/

namespace Notation

mutual

/-- The document of data is made into a new value that shows the data as it comes back. -/
theorem ofJson_makes : ∀ (d : Data) (s : State),
    ∃ v h, ofJson d.document.asRead s = .ok v { s with heap := h } ∧ s.heap.Makes d.decoded v h
  | .none, s | .set _, s => by
    rw [Data.document, Json.asRead, Data.decoded]
    exact ⟨.none, s.heap, rfl, Engine.makes_atom (by simp only [Heap.Shows]) rfl⟩
  | .bool b, s => by
    rw [Data.document, Json.asRead, Data.decoded]
    exact ⟨.bool b, s.heap, rfl, Engine.makes_atom (by simp only [Heap.Shows]) rfl⟩
  | .int n, s => by
    rw [Data.document, Json.asRead, Data.decoded]
    exact ⟨.int n, s.heap, rfl, Engine.makes_atom (by simp only [Heap.Shows]) rfl⟩
  | .text t, s => by
    rw [Data.document, Json.asRead, Data.decoded]
    exact ⟨.text t.joined, s.heap, rfl, Engine.makes_atom (by simp only [Heap.Shows]) rfl⟩
  | .list items, s | .tuple items, s => by
    obtain ⟨vs, h, hvalues, hmakes⟩ := ofItems_makes items s
    rw [Data.document, Json.asRead, Data.decoded, ofJson]
    exact ⟨_, _, Run.bind_of_ok hvalues _, hmakes.newList⟩
  | .dict ks vs, s => by
    have hnone : List.Forall₂ s.heap.Files (#[] : Array Entry).toList [] := .nil
    obtain ⟨items, h, hentries, hgrows, hfiles⟩ :=
      ofEntries_makes vs ((ks.map Data.printed).map Text.joined) s hnone
    rw [Data.document, Json.asRead, Json.asReadIn_zip, Data.decoded, ofJson]
    refine ⟨_, _, Run.bind_of_ok hentries _, ⟨hgrows.trans (.newDict h items), ?_, ?_⟩⟩
    · exact Heap.shows_mapping Array.getElem?_push_size
        (hfiles.imp fun _ _ hfile => hfile.extend (.newDict h items))
    · intro hhash
      rw [Data.mapping, Data.isHashable] at hhash
      cases hhash

theorem ofItems_makes : ∀ (ds : List Data) (s : State),
    ∃ vs h, ofItems (Json.asReadAll (Data.documents ds)) s = .ok vs { s with heap := h } ∧
      s.heap.MakesAll (Data.decodedAll ds) vs h
  | [], s => ⟨[], s.heap, rfl, .refl _, by simp only [Data.decodedAll, Heap.ShowAll], fun _ => Nat.zero_le _⟩
  | d :: ds, s => by
    obtain ⟨v, h, hvalue, hmakes⟩ := ofJson_makes d s
    obtain ⟨vs, h', hvalues, hmakesAll⟩ := ofItems_makes ds { s with heap := h }
    rw [Data.documents, Json.asReadAll, Data.decodedAll, ofItems]
    refine ⟨v :: vs, h', ?_, hmakes.cons hmakesAll⟩
    rw [Run.bind_of_ok hvalue]
    exact Run.bind_of_ok hvalues _

theorem ofEntries_makes : ∀ (ds : List Data) (keys : List Text) {done : Array Entry}
    {entries : List (Text × Data)} (s : State), List.Forall₂ s.heap.Files done.toList entries →
      ∃ items h, ofEntries (keys.zip (Json.asReadAll (Data.documents ds))) done s =
          .ok items { s with heap := h } ∧ s.heap.Extends h ∧
        List.Forall₂ h.Files items.toList (Entries.putAll entries (keys.zip (Data.decodedAll ds)))
  | [], keys, done, entries, s, hdone => by
    rw [Data.documents, Json.asReadAll, Data.decodedAll, List.zip_nil_right, List.zip_nil_right]
    exact ⟨done, s.heap, rfl, .refl _, hdone⟩
  | _ :: _, [], done, entries, s, hdone => ⟨done, s.heap, rfl, .refl _, hdone⟩
  | d :: ds, key :: keys, done, entries, s, hdone => by
    obtain ⟨v, h, hvalue, hmakes⟩ := ofJson_makes d s
    -- What has been filed is still filed when the objects of the value are there.
    have hput := Heap.files_put (hdone.imp fun _ _ hfile => hfile.extend hmakes.grows) key hmakes.shows
    obtain ⟨items, h', hentries, hgrows, hfiles⟩ := ofEntries_makes ds keys { s with heap := h } hput
    rw [Data.documents, Json.asReadAll, Data.decodedAll, List.zip_cons_cons, List.zip_cons_cons, ofEntries]
    refine ⟨items, h', ?_, hmakes.grows.trans hgrows, hfiles⟩
    rw [Run.bind_of_ok hvalue]
    exact hentries

end

end Notation

/-! ## Written and read -/

namespace Notation

variable {limits : Limits} {s : State} {v indent : Value}

theorem call_dumps {n : Nat} {text : Text} (h : dumps s.heap n v indent = .ok text) :
    (Engine.tower limits (n + 1) 0).call (.library .dumps) ⟨[v, indent], []⟩ s = .ok (.text text) s := by
  show (do return .text (← Run.look fun h => dumps h n v indent) : Run Value) s = _
  refine Run.bind_of_ok (a := text) (t := s) ?_ _
  rw [Run.look_apply]
  simp only [h]

theorem call_dumps_error {n : Nat} {fault : Fault} (h : dumps s.heap n v indent = .error fault) :
    (Engine.tower limits (n + 1) 0).call (.library .dumps) ⟨[v, indent], []⟩ s = .error fault s := by
  show (do return .text (← Run.look fun h => dumps h n v indent) : Run Value) s = _
  rw [Run.bind_apply, Run.look_apply]
  simp only [h]

theorem call_loads (n : Nat) (text : Text) :
    (Engine.tower limits (n + 1) 0).call (.library .loads) ⟨[.text text], []⟩ s = loads n (.text text) s :=
  rfl

theorem loads_of_read {n : Nat} {text : Text} {j : Json} (h : Json.read n text = .ok j) :
    loads n (.text text) s = ofJson j s := by
  unfold loads
  simp only [h]
  rfl

/-- A value that holds no sets and no doubles, whose integers are not too long and whose keys are printed
unlike each other, is written as a text with any indentation that fits into an index, and read back. What is
read is new and shows the same data with lists for tuples and with printed keys, but for halves of code
points that stand side by side, which are joined. -/
theorem loads_dumps (limits : Limits) {d : Data} (hv : s.heap.Shows d v) (hd : d.IsDocument)
    (hindent : Fits indent d) :
    ∃ (text : Text) (levels : Nat), ∀ n, levels ≤ n →
      (Engine.tower limits n 0).call (.library .dumps) ⟨[v, indent], []⟩ s = .ok (.text text) s ∧
      ∃ w h, (Engine.tower limits n 0).call (.library .loads) ⟨[.text text], []⟩ s =
          .ok w { s with heap := h } ∧ s.heap.Extends h ∧ h.Shows d.decoded w ∧
        (d.HasNoPair → h.Shows d.listed w) := by
  obtain ⟨layout, hlayout, hspaced⟩ := layoutOf_of_fits hindent
  obtain ⟨w, h, hvalue, hmakes⟩ := ofJson_makes d s
  refine ⟨d.document.render layout 0, 2 * d.height + 3, fun n hn => ?_⟩
  obtain ⟨n, rfl⟩ : ∃ m, n = m + 1 := ⟨n - 1, by omega⟩
  have hheight := Data.height_document_le d
  have hread : Json.read n (d.document.render layout 0) = .ok d.document.asRead :=
    Json.read_render hspaced (Data.document_isExact hd) (by omega)
  have hwritten : dumps s.heap n v indent = .ok (d.document.render layout 0) := by
    rw [dumps_of_shows hv hd (by omega), hlayout]
    rfl
  refine ⟨call_dumps hwritten, w, h, ?_, hmakes.grows, hmakes.shows, fun hpair => ?_⟩
  · rw [call_loads, loads_of_read hread]
    exact hvalue
  · rw [← Data.decoded_eq_listed hd hpair]
    exact hmakes.shows

/-- The mapping `{1: (True, None)}`, written with an indentation and read back. -/
theorem loads_dumps_mapping :
    let h : Heap := { Heap.initial with
      tuples := #[#[], #[.bool true, .none]], dicts := #[#[⟨[.int 1], .int 1, .tuple 1⟩]] }
    let s : State := { State.initial ⟨0⟩ 0 with heap := h }
    ∃ (text : Text) (n : Nat) (w : Value) (h' : Heap),
      (Engine.tower .standard n 0).call (.library .dumps) ⟨[.dict 0, .int 2], []⟩ s = .ok (.text text) s ∧
      (Engine.tower .standard n 0).call (.library .loads) ⟨[.text text], []⟩ s = .ok w { s with heap := h' } ∧
      h'.Shows (.dict [.text "1"] [.list [.bool true, .none]]) w := by
  intro h s
  have hshows : h.Shows (.dict [.int 1] [.tuple [.bool true, .none]]) (.dict 0) := by
    simp only [Heap.Shows]
    refine ⟨0, _, rfl, rfl, ⟨rfl, trivial⟩, ⟨⟨1, _, rfl, rfl, rfl, rfl, trivial⟩, trivial⟩, rfl⟩
  have hdocument : (Data.dict [.int 1] [.tuple [.bool true, .none]]).IsDocument := by
    have hshort : ∀ k, 1 ≤ k → (1 : Int).natAbs < tenTo k := fun k hk =>
      Nat.one_lt_pow (Nat.ne_of_gt hk) (by decide)
    simp only [Data.IsDocument, Data.AreDocuments, Data.ArePrintable, Data.IsPrintable]
    exact ⟨⟨hshort _ (by decide), trivial⟩, rfl, by simp, rfl, ⟨trivial, trivial, trivial⟩, trivial⟩
  have hindent : Fits (.int 2) (.dict [.int 1] [.tuple [.bool true, .none]]) :=
    .inr ⟨2, rfl, .inr (by decide)⟩
  have hpair : (Data.dict [.int 1] [.tuple [.bool true, .none]]).HasNoPair := by
    simp only [Data.HasNoPair, Data.HaveNoPair, List.mem_singleton, forall_eq]
    exact ⟨trivial, ⟨trivial, trivial, trivial⟩, trivial⟩
  obtain ⟨text, levels, hback⟩ := loads_dumps .standard (s := s) hshows hdocument hindent
  obtain ⟨hdumps, w, h', hloads, -, -, hlisted⟩ := hback levels (Nat.le_refl levels)
  exact ⟨text, levels, w, h', hdumps, hloads, hlisted hpair⟩

/-- Two halves of a code point that stand side by side come back as that code point, and an indentation that
does not fit into an index is refused. -/
theorem not_loads_dumps :
    let s := State.initial ⟨0⟩ 0
    let halves : Text := [⟨0xD800, by decide⟩, ⟨0xDC00, by decide⟩]
    let whole : Text := [⟨0x10000, by decide⟩]
    (∃ text, (Engine.start .standard).call (.library .dumps) ⟨[.text halves, .none], []⟩ s = .ok (.text text) s ∧
      (Engine.start .standard).call (.library .loads) ⟨[.text text], []⟩ s = .ok (.text whole) s) ∧
    whole ≠ halves ∧
    (Engine.start .standard).call (.library .dumps) ⟨[.tuple Heap.emptyTupleRef, .int 9223372036854775808], []⟩ s =
      .error (.of .overflow "cannot fit 'int' into an index-sized integer") s := by
  intro s halves whole
  have htext : s.heap.Shows (.text halves) (.text halves) := by simp only [Heap.Shows]
  have hdocument : (Data.text halves).IsDocument := by simp only [Data.IsDocument]
  have hjoined : halves.joined = whole := by decide
  have hwritten : dumps s.heap 959 (.text halves) .none =
      .ok ((Data.text halves).document.render .line 0) := dumps_of_shows htext hdocument (by decide) .none
  have hread : Json.read 959 ((Data.text halves).document.render .line 0) =
      .ok (Data.text halves).document.asRead :=
    Json.read_render Json.Layout.isSpaced_line (Data.document_isExact hdocument) (by decide)
  have hempty : s.heap.Shows (.tuple []) (.tuple Heap.emptyTupleRef) := by
    simp only [Heap.Shows]
    exact ⟨Heap.emptyTupleRef, #[], rfl, Heap.hasUnit_initial, trivial⟩
  have hnone : (Data.tuple []).IsDocument := by simp only [Data.IsDocument, Data.AreDocuments]
  have hindented : dumps s.heap 959 (.tuple Heap.emptyTupleRef) (.int 9223372036854775808) =
      (layoutOf (.int 9223372036854775808) (Data.tuple []).document).map
        fun layout => (Data.tuple []).document.render layout 0 :=
    dumps_of_shows hempty hnone (by decide) (.int 9223372036854775808)
  refine ⟨⟨_, call_dumps hwritten, ?_⟩, by decide, call_dumps_error ?_⟩
  · rw [Data.document, Json.asRead, hjoined] at hread
    exact (call_loads 959 _).trans (loads_of_read hread)
  · rw [hindented, layoutOf_of_integer rfl]
    rfl

end Notation

end Scriptlet
