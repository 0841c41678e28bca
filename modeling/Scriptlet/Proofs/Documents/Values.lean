import Scriptlet.Call.Notation
import Scriptlet.Proofs.Documents.Reading
import Scriptlet.Proofs.ReadBack.Printing

/-
  The document of a value.

  Data that can be written as a document (`Data.IsDocument`) holds no sets, its integers are not too long,
  and no two keys of a mapping are printed alike. Its document (`Data.document`) forgets what tells tuples
  from lists and has the printed keys.

  What is proved:
    1. `toJson_of_shows` — the document of a value is that of the data that it shows.
    2. `layoutOf_of_fits` — every indentation that data is written with gives a layout.
    3. `dumps_of_shows` — a value is written as its document, and `document_isExact` that this can be read.
-/

namespace Scriptlet

namespace Json

/-! ## Objects by their keys and values -/

theorem areExactIn_zip : ∀ {ks : List Text} {js : List Json}, AreExact js → AreExactIn (ks.zip js)
  | [], _, _ | _ :: _, [], _ => by
    simp only [List.zip_nil_left, List.zip_nil_right, AreExactIn]
  | k :: ks, j :: js, h => by
    rw [AreExact] at h
    rw [List.zip_cons_cons, AreExactIn]
    exact ⟨h.1, areExactIn_zip h.2⟩

theorem heightsIn_zip_le : ∀ (ks : List Text) (js : List Json), heightsIn (ks.zip js) ≤ heights js
  | [], _ | _ :: _, [] => by
    simp only [List.zip_nil_left, List.zip_nil_right, heightsIn, Nat.zero_le]
  | k :: ks, j :: js => by
    have hrest := heightsIn_zip_le ks js
    rw [List.zip_cons_cons, heightsIn, heights]
    omega

theorem asReadIn_zip : ∀ (ks : List Text) (js : List Json),
    asReadIn (ks.zip js) = (ks.map Text.joined).zip (asReadAll js)
  | [], _ => rfl
  | _ :: _, [] => by rw [asReadAll, List.zip_nil_right, List.zip_nil_right, asReadIn]
  | k :: ks, j :: js => by
    rw [List.zip_cons_cons, asReadIn, asReadIn_zip ks js, List.map_cons, asReadAll, List.zip_cons_cons]

/-! ## Integers that are written -/

/-- Whether an integer is too long to be written. -/
abbrev isTooLong (n : Int) : Bool := (NumberText.ofInt? n).isNone

mutual

theorem anyInteger_of_isExact : ∀ {j : Json}, j.IsExact → j.anyInteger isTooLong = false
  | .null, _ | .bool _, _ | .text _, _ => by simp only [anyInteger]
  | .float _, h => by
    rw [IsExact] at h
    exact h.elim
  | .int n, h => by
    rw [IsExact] at h
    rw [anyInteger, isTooLong, NumberText.ofInt?, if_pos h]
    rfl
  | .array items, h => by
    rw [IsExact] at h
    rw [anyInteger]
    exact anyIntegerOf_of_areExact h
  | .object entries, h => by
    rw [IsExact] at h
    rw [anyInteger]
    exact anyIntegerIn_of_areExactIn h

theorem anyIntegerOf_of_areExact : ∀ {items : List Json}, AreExact items →
    anyIntegerOf isTooLong items = false
  | [], _ => rfl
  | item :: items, h => by
    rw [AreExact] at h
    rw [anyIntegerOf, anyInteger_of_isExact h.1, anyIntegerOf_of_areExact h.2]
    rfl

theorem anyIntegerIn_of_areExactIn : ∀ {entries : List (Text × Json)}, AreExactIn entries →
    anyIntegerIn isTooLong entries = false
  | [], _ => rfl
  | (key, value) :: entries, h => by
    rw [AreExactIn] at h
    rw [anyIntegerIn, anyInteger_of_isExact h.1, anyIntegerIn_of_areExactIn h.2]
    rfl

end

end Json

/-! ## Entries under texts -/

namespace Entries

variable {α : Type}

/-- The entries with what is under a text replaced, or with a new entry at the end. -/
def putUnder (key : Text) (a : α) : List (Text × α) → List (Text × α)
  | [] => [(key, a)]
  | (other, old) :: rest => if other = key then (other, a) :: rest else (other, old) :: putUnder key a rest

/-- Entries put behind others, one after the other. -/
def putAll (done entries : List (Text × α)) : List (Text × α) :=
  entries.foldl (fun done entry => putUnder entry.1 entry.2 done) done

theorem putUnder_of_notMem {key : Text} {done : List (Text × α)} (h : key ∉ done.map Prod.fst) (a : α) :
    putUnder key a done = done ++ [(key, a)] := by
  induction done with
  | nil => rfl
  | cons entry done ih =>
    rw [List.map_cons, List.mem_cons, not_or] at h
    rw [putUnder, if_neg (Ne.symm h.1), ih h.2, List.cons_append]

/-- Entries with texts of their own are put one behind the other. -/
theorem putAll_of_nodup : ∀ {entries done : List (Text × α)}, ((done ++ entries).map Prod.fst).Nodup →
    putAll done entries = done ++ entries
  | [], done, _ => (List.append_nil done).symm
  | (key, a) :: entries, done, h => by
    have hnew : key ∉ done.map Prod.fst := fun hmem => by
      rw [List.map_append] at h
      exact (List.nodup_append.mp h).2.2 _ hmem _ (List.mem_cons_self ..) rfl
    show putAll (putUnder key a done) entries = _
    rw [putUnder_of_notMem hnew, putAll_of_nodup (by simpa using h), List.append_assoc,
      List.singleton_append]

end Entries

namespace Data

/-- The data as it is printed: a text is itself. -/
def printed : Data → Text
  | .text t => t
  | d => d.written

mutual

/-- Data that can be written as a document. -/
def IsDocument : Data → Prop
  | .none | .bool _ | .text _ => True
  | .int n => n.natAbs < tenTo NumberText.maxDigits
  | .list items | .tuple items => AreDocuments items
  | .dict ks vs =>
    ArePrintable ks ∧ areHashable ks = true ∧ (ks.map printed).Nodup ∧ ks.length = vs.length ∧ AreDocuments vs
  | .set _ => False

def AreDocuments : List Data → Prop
  | [] => True
  | d :: rest => d.IsDocument ∧ AreDocuments rest

end

mutual

/-- The document that the data is written as; a set, which is none, stands as nothing. -/
def document : Data → Json
  | .none | .set _ => .null
  | .bool b => .bool b
  | .int n => .int n
  | .text t => .text t
  | .list items | .tuple items => .array (documents items)
  | .dict ks vs => .object ((ks.map printed).zip (documents vs))

def documents : List Data → List Json
  | [] => []
  | d :: rest => d.document :: documents rest

end

theorem length_documents (ds : List Data) : (documents ds).length = ds.length := by
  induction ds with
  | nil => rfl
  | cons d ds ih => rw [documents, List.length_cons, List.length_cons, ih]

/-! ## What can be read of documents -/

mutual

theorem document_isExact : ∀ {d : Data}, d.IsDocument → d.document.IsExact
  | .none, _ | .bool _, _ | .text _, _ => by
    rw [document, Json.IsExact]
    trivial
  | .int n, h => by
    rw [IsDocument] at h
    rw [document, Json.IsExact]
    exact h
  | .list items, h | .tuple items, h => by
    rw [IsDocument] at h
    rw [document, Json.IsExact]
    exact documents_areExact h
  | .dict ks vs, h => by
    rw [IsDocument] at h
    rw [document, Json.IsExact]
    exact Json.areExactIn_zip (documents_areExact h.2.2.2.2)
  | .set _, h => by
    rw [IsDocument] at h
    exact h.elim

theorem documents_areExact : ∀ {ds : List Data}, AreDocuments ds → Json.AreExact (documents ds)
  | [], _ => by simp only [documents, Json.AreExact]
  | d :: ds, h => by
    rw [AreDocuments] at h
    rw [documents, Json.AreExact]
    exact ⟨document_isExact h.1, documents_areExact h.2⟩

end

mutual

theorem height_document_le : ∀ d : Data, d.document.height ≤ d.height
  | .none | .bool _ | .int _ | .text _ | .set _ => by
    rw [document, Json.height]
    exact Nat.zero_le _
  | .list items | .tuple items => by
    rw [document, Json.height, height]
    exact Nat.succ_le_succ (heights_documents_le items)
  | .dict ks vs => by
    have hvalues := heights_documents_le vs
    have hentries := Json.heightsIn_zip_le (ks.map printed) (documents vs)
    rw [document, Json.height, height]
    omega

theorem heights_documents_le : ∀ ds : List Data, Json.heights (documents ds) ≤ heights ds
  | [] => Nat.le_refl 0
  | d :: ds => by
    have hfirst := height_document_le d
    have hrest := heights_documents_le ds
    rw [documents, Json.heights, heights]
    omega

end

end Data

/-! ## Documents of values -/

namespace Heap

theorem format_of_shows {h : Heap} {d : Data} {v : Value} {n : Nat} (hv : h.Shows d v)
    (hd : d.IsPrintable) (hhash : d.isHashable = true) (hn : d.height < n) :
    h.format n v = .ok d.printed := by
  have hrepr := repr_of_shows hv hd hn
  rw [Data.arranged_of_isHashable hhash] at hrepr
  cases d <;> simp only [Shows] at hv
  case text t =>
    subst hv
    rfl
  case none | bool | int =>
    subst hv
    exact hrepr
  case tuple items =>
    obtain ⟨r, vs, rfl, -⟩ := hv
    exact hrepr
  case list | dict | set =>
    rw [Data.isHashable] at hhash
    cases hhash

theorem format_of_showAll {h : Heap} : ∀ {ds : List Data} {vs : List Value} {n : Nat}, h.ShowAll ds vs →
    Data.ArePrintable ds → Data.areHashable ds = true → Data.heights ds < n →
      vs.mapM (h.format n) = .ok (ds.map Data.printed)
  | [], [], _, _, _, _, _ => rfl
  | d :: ds, v :: vs, n, hvs, hds, hhash, hn => by
    simp only [ShowAll] at hvs
    rw [Data.ArePrintable] at hds
    rw [Data.areHashable, Bool.and_eq_true] at hhash
    rw [Data.heights] at hn
    rw [List.mapM_cons, format_of_shows hvs.1 hds.1 hhash.1 (by omega),
      format_of_showAll hvs.2 hds.2 hhash.2 (by omega)]
    rfl
  | [], _ :: _, _, hvs, _, _, _ | _ :: _, [], _, hvs, _, _, _ => by simp only [ShowAll] at hvs

end Heap

namespace Notation

theorem putEntry_eq_putUnder (key : Text) (value : Json) : ∀ done : List (Text × Json),
    putEntry key value done = Entries.putUnder key value done
  | [] => rfl
  | (other, old) :: rest => by
    rw [putEntry, Entries.putUnder, putEntry_eq_putUnder key value rest]
    by_cases h : other = key
    · rw [if_pos (beq_iff_eq.mpr h), if_pos h, h]
    · rw [if_neg (by simpa using h), if_neg h]

mutual

/-- The document of a value is that of the data that it shows. -/
theorem toJson_of_shows {h : Heap} {printing : Nat} : ∀ {d : Data} {v : Value} {n : Nat}, h.Shows d v →
    d.IsDocument → d.height < n → d.height ≤ printing → toJson h printing n v = .ok d.document
  | d, v, 0, _, _, hn, _ => absurd hn (Nat.not_lt_zero _)
  | .none, v, n + 1, hv, _, _, _ => by
    simp only [Heap.Shows] at hv
    subst hv
    rw [Data.document]
    rfl
  | .bool b, v, n + 1, hv, _, _, _ => by
    simp only [Heap.Shows] at hv
    subst hv
    rw [Data.document]
    rfl
  | .int m, v, n + 1, hv, _, _, _ => by
    simp only [Heap.Shows] at hv
    subst hv
    rw [Data.document]
    rfl
  | .text t, v, n + 1, hv, _, _, _ => by
    simp only [Heap.Shows] at hv
    subst hv
    rw [Data.document]
    rfl
  | .list items, v, n + 1, hv, hd, hn, hprinting => by
    simp only [Heap.Shows] at hv
    obtain ⟨r, vs, rfl, hr, hvs⟩ := hv
    rw [Data.IsDocument] at hd
    rw [Data.height] at hn hprinting
    have hitems := toJson_of_showAll hvs hd (Nat.lt_of_succ_lt_succ hn) (Nat.le_of_succ_le hprinting)
    rw [Data.document, toJson]
    simp only [Heap.list_eq hr, hitems]
    rfl
  | .tuple items, v, n + 1, hv, hd, hn, hprinting => by
    simp only [Heap.Shows] at hv
    obtain ⟨r, vs, rfl, hr, hvs⟩ := hv
    rw [Data.IsDocument] at hd
    rw [Data.height] at hn hprinting
    have hitems := toJson_of_showAll hvs hd (Nat.lt_of_succ_lt_succ hn) (Nat.le_of_succ_le hprinting)
    rw [Data.document, toJson]
    simp only [Heap.tuple_eq hr, hitems]
    rfl
  | .dict ks vs, v, n + 1, hv, hd, hn, hprinting => by
    simp only [Heap.Shows] at hv
    obtain ⟨r, entries, rfl, hr, hks, hvs, -⟩ := hv
    rw [Data.IsDocument] at hd
    obtain ⟨hprint, hhash, hnodup, hlength, hvsDoc⟩ := hd
    rw [Data.height] at hn hprinting
    have hkeys := Heap.format_of_showAll hks hprint hhash (n := printing) (by omega)
    have hvalues : (entries.toList.map Entry.value).mapM (toJson h printing n) = .ok (Data.documents vs) :=
      toJson_of_showAll hvs hvsDoc (by omega) (by omega)
    have hentries := Heap.mapM_entries Prod.mk hkeys hvalues
    -- No two keys are printed alike: each entry is put behind the others.
    have hdistinct : (([] ++ (ks.map Data.printed).zip (Data.documents vs)).map Prod.fst).Nodup := by
      rw [List.nil_append, List.map_fst_zip (by rw [List.length_map, Data.length_documents, hlength])]
      exact hnodup
    rw [Data.document, toJson]
    simp only [Heap.dict_eq hr]
    show (List.mapM (fun e : Entry => do
      let key ← h.format printing e.keyValue
      return (key, ← toJson h printing n e.value)) entries.toList >>= _) = _
    rw [hentries]
    simp only [putEntry_eq_putUnder]
    exact congrArg (fun entries => Except.ok (Json.object entries)) (Entries.putAll_of_nodup hdistinct)
  | .set _, _, _ + 1, _, hd, _, _ => by
    rw [Data.IsDocument] at hd
    exact hd.elim

theorem toJson_of_showAll {h : Heap} {printing : Nat} : ∀ {ds : List Data} {vs : List Value} {n : Nat},
    h.ShowAll ds vs → Data.AreDocuments ds → Data.heights ds < n → Data.heights ds ≤ printing →
      vs.mapM (toJson h printing n) = .ok (Data.documents ds)
  | [], [], _, _, _, _, _ => rfl
  | d :: ds, v :: vs, n, hvs, hds, hn, hprinting => by
    simp only [Heap.ShowAll] at hvs
    rw [Data.AreDocuments] at hds
    rw [Data.heights] at hn hprinting
    rw [List.mapM_cons, toJson_of_shows hvs.1 hds.1 (by omega) (by omega),
      toJson_of_showAll hvs.2 hds.2 (by omega) (by omega), Data.documents]
    rfl
  | [], _ :: _, _, hvs, _, _, _ | _ :: _, [], _, hvs, _, _, _ => by simp only [Heap.ShowAll] at hvs

end

/-! ## Writing -/

/-- An indentation that data is written with: none, or an integer that fits into an index; for a text,
which has no lines of its own, any integer. -/
def Fits (indent : Value) (d : Data) : Prop :=
  indent = .none ∨ ∃ n, indent.integer? = some n ∧ ((∃ t, d = .text t) ∨ -indexBound ≤ n ∧ n < indexBound)

theorem layoutOf_of_integer {indent : Value} {n : Int} (h : indent.integer? = some n) (j : Json) :
    layoutOf indent j = match j with
      | .text _ => .ok .line
      | _ =>
        if n ≥ indexBound || n < -indexBound then
          .error (.of .overflow "cannot fit 'int' into an index-sized integer")
        else .ok (.indented n.toNat) := by
  cases indent <;> simp only [Value.integer?, Option.some.injEq, reduceCtorEq] at h
  all_goals
    subst h
    rfl

theorem layoutOf_of_fits {indent : Value} {d : Data} (h : Fits indent d) :
    ∃ layout : Json.Layout, layoutOf indent d.document = .ok layout ∧ layout.IsSpaced := by
  obtain rfl | ⟨n, hn, hrange⟩ := h
  · exact ⟨.line, rfl, Json.Layout.isSpaced_line⟩
  rw [layoutOf_of_integer hn]
  obtain ⟨t, rfl⟩ | ⟨hlow, hhigh⟩ := hrange
  · rw [Data.document]
    exact ⟨.line, rfl, Json.Layout.isSpaced_line⟩
  · have hindex : (n ≥ indexBound || n < -indexBound) = false := by
      simp only [Bool.or_eq_false_iff, decide_eq_false_iff_not]
      omega
    rw [hindex, if_neg Bool.false_ne_true]
    split
    · exact ⟨.line, rfl, Json.Layout.isSpaced_line⟩
    · exact ⟨_, rfl, Json.Layout.isSpaced_indented _⟩

/-- A value is written as the document of the data that it shows, unless the indentation gives no layout. -/
theorem dumps_of_shows {h : Heap} {d : Data} {v : Value} {room : Nat} (hv : h.Shows d v)
    (hd : d.IsDocument) (hroom : d.height < room / 2) (indent : Value) :
    dumps h room v indent = (layoutOf indent d.document).map fun layout => d.document.render layout 0 := by
  have hshort := Json.anyInteger_of_isExact (Data.document_isExact hd)
  rw [dumps, toJson_of_shows hv hd hroom (Nat.le_of_lt hroom)]
  show (layoutOf indent d.document >>= _) = _
  cases layoutOf indent d.document with
  | error fault => rfl
  | ok layout =>
    show (if d.document.anyInteger Json.isTooLong then _ else _) = _
    rw [hshort]
    rfl

end Notation

end Scriptlet
