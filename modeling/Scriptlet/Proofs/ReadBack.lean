import Scriptlet.Proofs.Grammar
import Scriptlet.Value.Key
import Scriptlet.Value.Printing

/-
  Data and the values that show it.

  Data is a tree: what is left of a value when one looks through the references to its objects. A value
  shows data in a heap (`Heap.Shows`), and when the heap grows it still does. What data is written as,
  in code points, words and expressions, are functions of it that follow the tree.

  Data that can be read back (`Data.IsReadable`) has integers that are not too long, texts that stand
  between quotes as they are, keys that tell entries apart, and no empty sets, which are not written as
  a display.
-/

namespace Scriptlet

/-- What a value is to whoever looks through references. -/
inductive Data where
  | none
  | bool (b : Bool)
  | int (n : Int)
  | text (t : Text)
  | list (items : List Data)
  | tuple (items : List Data)
  /-- Keys, and the values under them in the same order. -/
  | dict (keys values : List Data)
  | set (items : List Data)

namespace Data

mutual

/-- What mappings and sets tell the data apart by, if it is hashable. -/
def key : Data → Key
  | .none => [.none]
  | .bool b => [.int (if b then 1 else 0)]
  | .int n => [.int n]
  | .text t => [.text t]
  | .tuple items => .tuple items.length :: (keys items).flatten
  | .list _ | .dict _ _ | .set _ => []

def keys : List Data → List Key
  | [] => []
  | d :: rest => d.key :: keys rest

end

mutual

/-- Whether a mapping takes the data as a key. -/
def isHashable : Data → Bool
  | .none | .bool _ | .int _ | .text _ => true
  | .tuple items => areHashable items
  | .list _ | .dict _ _ | .set _ => false

def areHashable : List Data → Bool
  | [] => true
  | d :: rest => d.isHashable && areHashable rest

end

end Data

/-- A text that stands between quotes as it is: its code points are printable and no backslash is among
them, and one of the two quotes is not in it. -/
structure Text.IsPlain (t : Text) : Prop where
  printable : ∀ c ∈ t, c.isPrintable = true
  noBackslash : ∀ c ∈ t, c.val ≠ 92
  oneQuote : (∀ c ∈ t, c.val ≠ 39) ∨ ∀ c ∈ t, c.val ≠ 34

namespace Data

mutual

/-- How deep containers stand inside each other. -/
def height : Data → Nat
  | .none | .bool _ | .int _ | .text _ => 0
  | .list items | .tuple items | .set items => heights items + 1
  | .dict ks vs => max (heights ks) (heights vs) + 1

def heights : List Data → Nat
  | [] => 0
  | d :: rest => max d.height (heights rest)

end

mutual

/-- Data that is written so that it can be read back. -/
def IsReadable : Data → Prop
  | .none | .bool _ => True
  | .int n => n.natAbs < tenTo NumberText.maxDigits
  | .text t => t.IsPlain
  | .list items | .tuple items => AreReadable items
  | .dict ks vs =>
    AreReadable ks ∧ AreReadable vs ∧ ks.length = vs.length ∧ areHashable ks = true ∧ (keys ks).Nodup
  | .set items =>
    AreReadable items ∧ items ≠ [] ∧ areHashable items = true ∧ (keys items).Nodup

def AreReadable : List Data → Prop
  | [] => True
  | d :: rest => d.IsReadable ∧ AreReadable rest

end

end Data

/-! ## Values that show data -/

namespace Heap

mutual

/-- The value is the data when its references are looked through. Entries and members are filed under
the keys of what they show. -/
def Shows (h : Heap) : Data → Value → Prop
  | .none, v => v = .none
  | .bool b, v => v = .bool b
  | .int n, v => v = .int n
  | .text t, v => v = .text t
  | .list items, v => ∃ r vs, v = .list r ∧ h.lists[r]? = some vs ∧ h.ShowAll items vs.toList
  | .tuple items, v => ∃ r vs, v = .tuple r ∧ h.tuples[r]? = some vs ∧ h.ShowAll items vs.toList
  | .dict ks vs, v => ∃ r entries, v = .dict r ∧ h.dicts[r]? = some entries ∧
      h.ShowAll ks (entries.toList.map Entry.keyValue) ∧
      h.ShowAll vs (entries.toList.map Entry.value) ∧ entries.toList.map Entry.key = Data.keys ks
  | .set items, v => ∃ r members, v = .set r ∧ h.sets[r]? = some members ∧
      h.ShowAll items (members.toList.map Member.value) ∧
      members.toList.map Member.key = Data.keys items

/-- The values show the data one by one. -/
def ShowAll (h : Heap) : List Data → List Value → Prop
  | [], [] => True
  | d :: ds, v :: vs => h.Shows d v ∧ h.ShowAll ds vs
  | [], _ :: _ | _ :: _, [] => False

end

/-- The second heap has all objects of the first one as they are. -/
structure Extends (h h' : Heap) : Prop where
  lists : ∀ (r : Ref) vs, h.lists[r]? = some vs → h'.lists[r]? = some vs
  tuples : ∀ (r : Ref) vs, h.tuples[r]? = some vs → h'.tuples[r]? = some vs
  dicts : ∀ (r : Ref) entries, h.dicts[r]? = some entries → h'.dicts[r]? = some entries
  sets : ∀ (r : Ref) members, h.sets[r]? = some members → h'.sets[r]? = some members
  records : h'.records = h.records
  marks : h'.marks = h.marks

namespace Extends

theorem refl (h : Heap) : h.Extends h :=
  ⟨fun _ _ hr => hr, fun _ _ hr => hr, fun _ _ hr => hr, fun _ _ hr => hr, rfl, rfl⟩

theorem trans {h h' h'' : Heap} (first : h.Extends h') (second : h'.Extends h'') :
    h.Extends h'' where
  lists r vs hr := second.lists r vs (first.lists r vs hr)
  tuples r vs hr := second.tuples r vs (first.tuples r vs hr)
  dicts r entries hr := second.dicts r entries (first.dicts r entries hr)
  sets r members hr := second.sets r members (first.sets r members hr)
  records := second.records.trans first.records
  marks := second.marks.trans first.marks

/-- What stands at a place still stands there behind one more. -/
theorem getElem?_push {α : Type} {items : Array α} {a new : α} {r : Nat} (hr : items[r]? = some a) :
    (items.push new)[r]? = some a := by
  obtain ⟨hlt, rfl⟩ := Array.getElem?_eq_some_iff.mp hr
  rw [Array.getElem?_push_lt hlt]

theorem newList (h : Heap) (items : Array Value) : h.Extends (h.newList items).2 :=
  ⟨fun _ _ hr => getElem?_push hr, fun _ _ hr => hr, fun _ _ hr => hr, fun _ _ hr => hr, rfl, rfl⟩

theorem newTuple (h : Heap) (items : Array Value) : h.Extends (h.newTuple items).2 := by
  unfold Heap.newTuple
  split
  · exact refl h
  · exact ⟨fun _ _ hr => hr, fun _ _ hr => getElem?_push hr, fun _ _ hr => hr, fun _ _ hr => hr,
      rfl, rfl⟩

theorem newDict (h : Heap) (entries : Array Entry) : h.Extends (h.newDict entries).2 :=
  ⟨fun _ _ hr => hr, fun _ _ hr => hr, fun _ _ hr => getElem?_push hr, fun _ _ hr => hr, rfl, rfl⟩

theorem newSet (h : Heap) (members : Array Member) : h.Extends (h.newSet members).2 :=
  ⟨fun _ _ hr => hr, fun _ _ hr => hr, fun _ _ hr => hr, fun _ _ hr => getElem?_push hr, rfl, rfl⟩

end Extends

mutual

/-- What a value shows, it still shows when the heap has grown. -/
theorem Shows.extend {h h' : Heap} (hext : h.Extends h') : ∀ {d : Data} {v : Value},
    h.Shows d v → h'.Shows d v
  | .none, _, hv | .bool _, _, hv | .int _, _, hv | .text _, _, hv => hv
  | .list items, v, hv => by
    simp only [Shows] at hv ⊢
    obtain ⟨r, vs, rfl, hr, hvs⟩ := hv
    exact ⟨r, vs, rfl, hext.lists r vs hr, hvs.extend hext⟩
  | .tuple items, v, hv => by
    simp only [Shows] at hv ⊢
    obtain ⟨r, vs, rfl, hr, hvs⟩ := hv
    exact ⟨r, vs, rfl, hext.tuples r vs hr, hvs.extend hext⟩
  | .dict ks vs, v, hv => by
    simp only [Shows] at hv ⊢
    obtain ⟨r, entries, rfl, hr, hks, hvs, hkeys⟩ := hv
    exact ⟨r, entries, rfl, hext.dicts r entries hr, hks.extend hext, hvs.extend hext, hkeys⟩
  | .set items, v, hv => by
    simp only [Shows] at hv ⊢
    obtain ⟨r, members, rfl, hr, hvs, hkeys⟩ := hv
    exact ⟨r, members, rfl, hext.sets r members hr, hvs.extend hext, hkeys⟩

theorem ShowAll.extend {h h' : Heap} (hext : h.Extends h') : ∀ {ds : List Data} {vs : List Value},
    h.ShowAll ds vs → h'.ShowAll ds vs
  | [], [], _ => by simp only [ShowAll]
  | d :: ds, v :: vs, hvs => by
    simp only [ShowAll] at hvs ⊢
    exact ⟨hvs.1.extend hext, hvs.2.extend hext⟩
  | [], _ :: _, hvs | _ :: _, [], hvs => by simp only [ShowAll] at hvs

end

theorem ShowAll.length_eq {h : Heap} : ∀ {ds : List Data} {vs : List Value}, h.ShowAll ds vs →
    ds.length = vs.length
  | [], [], _ => rfl
  | d :: ds, v :: vs, hvs => by
    simp only [ShowAll] at hvs
    simp only [List.length_cons, hvs.2.length_eq]
  | [], _ :: _, hvs | _ :: _, [], hvs => by simp only [ShowAll] at hvs

/-! ### What stands at a reference -/

theorem list_eq {h : Heap} {r : Ref} {vs : Array Value} (hr : h.lists[r]? = some vs) : h.list r = vs := by
  rw [list, Array.getD_eq_getD_getElem?, hr]
  rfl

theorem tuple_eq {h : Heap} {r : Ref} {vs : Array Value} (hr : h.tuples[r]? = some vs) : h.tuple r = vs := by
  rw [tuple, Array.getD_eq_getD_getElem?, hr]
  rfl

theorem dict_eq {h : Heap} {r : Ref} {entries : Array Entry} (hr : h.dicts[r]? = some entries) :
    h.dict r = entries := by
  rw [dict, Array.getD_eq_getD_getElem?, hr]
  rfl

theorem set_eq {h : Heap} {r : Ref} {members : Array Member} (hr : h.sets[r]? = some members) :
    h.set r = members := by
  rw [set, Array.getD_eq_getD_getElem?, hr]
  rfl

end Heap

/-! ## Texts, words and expressions -/

namespace Data

/-- An entry as it is written. -/
def entryText (key value : Text) : Text := key ++ (": " ++ value)

mutual

/-- The data as it is written. -/
def written : Data → Text
  | .none => "None"
  | .bool b => if b then "True" else "False"
  | .int n => Text.ofInt n
  | .text t => t.quoted
  | .list items => "[" ++ (Text.join ", " (writtenAll items) ++ "]")
  | .tuple items =>
    "(" ++ (Text.join ", " (writtenAll items) ++ ((if items.length = 1 then "," else "" : Text) ++ ")"))
  | .dict ks vs => "\x7b" ++ (Text.join ", " (List.zipWith entryText (writtenAll ks) (writtenAll vs)) ++ "\x7d")
  | .set items => "\x7b" ++ (Text.join ", " (writtenAll items) ++ "\x7d")

def writtenAll : List Data → List Text
  | [] => []
  | d :: rest => d.written :: writtenAll rest

end

mutual

/-- The data with the elements of its sets in the order in which they are printed. -/
def arranged : Data → Data
  | .list items => .list (arrangedAll items)
  | .tuple items => .tuple (arrangedAll items)
  | .dict ks vs => .dict ks (arrangedAll vs)
  | .set items => .set (items.mergeSort fun a b => !Text.before b.written a.written)
  | .none => .none
  | .bool b => .bool b
  | .int n => .int n
  | .text t => .text t

def arrangedAll : List Data → List Data
  | [] => []
  | d :: rest => d.arranged :: arrangedAll rest

end

/-- Words with commas between the groups. -/
def withCommas : List (List Word) → List Word
  | [] => []
  | [ws] => ws
  | ws :: more :: rest => ws ++ .of "," :: withCommas (more :: rest)

/-- The words of an entry. -/
def entryWords (key value : List Word) : List Word := key ++ .of ":" :: value

mutual

/-- The words of the data as it is written. -/
def words : Data → List Word
  | .none => [⟨.name, "None"⟩]
  | .bool b => [⟨.name, if b then "True" else "False"⟩]
  | .int n =>
    if n < 0 then [.of "-", ⟨.number, Text.ofNat n.natAbs⟩] else [⟨.number, Text.ofNat n.natAbs⟩]
  | .text t => [⟨.string, t.quoted⟩]
  | .list items => .of "[" :: (withCommas (wordsAll items) ++ [.of "]"])
  | .tuple items =>
    .of "(" :: (withCommas (wordsAll items) ++ ((if items.length = 1 then [.of ","] else []) ++
      [.of ")"]))
  | .dict ks vs => .of "\x7b" :: (withCommas (List.zipWith entryWords (wordsAll ks) (wordsAll vs)) ++
    [.of "\x7d"])
  | .set items => .of "\x7b" :: (withCommas (wordsAll items) ++ [.of "\x7d"])

def wordsAll : List Data → List (List Word)
  | [] => []
  | d :: rest => d.words :: wordsAll rest

end

mutual

/-- The expression that the data is written as, without spans. -/
def expr : Data → Expr
  | .none => .literal Expr.nowhere .none
  | .bool b => .literal Expr.nowhere (.bool b)
  | .int n =>
    if n < 0 then .unary Expr.nowhere .negative (.literal Expr.nowhere (.int n.natAbs))
    else .literal Expr.nowhere (.int n.natAbs)
  | .text t => .literal Expr.nowhere (.text t)
  | .list items => .list Expr.nowhere (exprs items)
  | .tuple items => .tuple Expr.nowhere (exprs items)
  | .dict ks vs => .dict Expr.nowhere ((exprs ks).zip (exprs vs))
  | .set items => .set Expr.nowhere (exprs items)

def exprs : List Data → List Expr
  | [] => []
  | d :: rest => d.expr :: exprs rest

end

end Data

end Scriptlet
