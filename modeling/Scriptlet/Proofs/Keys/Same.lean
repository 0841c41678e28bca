import Scriptlet.Proofs.Doubles.Values
import Scriptlet.Proofs.Keys.Equality
import Scriptlet.Proofs.ReadBack.Equality
import Scriptlet.Operation

/-
  The same key is equal.

  Values that stand under one key are equal, the other way round of `Heap.key_of_equal`. Only NaN differs
  from what is the same key, itself; inside of a tuple it is the same object and so does not.

  What is proved:
    1. `KeyPart.beq_of_ofFloat` — doubles of one key part are equal.
    2. `Heap.key_append_inj` — no key is the beginning of another one, so a tuple's key gives back those of
       its elements.
    3. `Heap.equal_of_key`, `Heap.areEqual_iff_key` — values that have keys are equal just when they are
       the same key.
-/

namespace Scriptlet

open Binary64

theorem allHold_mono {α : Type} {test test' : α → Except Fault Bool} {as : List α} {holds : Bool}
    (hmore : ∀ a v, test a = .ok v → test' a = .ok v) (hall : allHold test as = .ok holds) :
    allHold test' as = .ok holds := by
  induction as with
  | nil => exact hall
  | cons a as ih =>
    unfold allHold at hall ⊢
    cases ha : test a with
    | error fault =>
      rw [ha] at hall
      cases hall
    | ok v =>
      rw [ha] at hall
      rw [hmore a v ha]
      cases v with
      | false => exact hall
      | true => exact ih hall

/-! ## Numbers -/

namespace KeyPart

variable {x y re im re' im' : Float} {n : Int}

/-- No double or complex number that is not one. -/
def IsNumber : KeyPart → Prop
  | .float x => (x == x) = true
  | .complex re im => (re == re) = true ∧ (im == im) = true
  | _ => True

/-- The key part of a double is the integer of its value, or the double. -/
theorem ofFloat_cases (x : Float) :
    ofFloat x = .float x ∨ ∃ n : Int, ofFloat x = .int n ∧ (parts x).IsFinite ∧ (parts x).value = n := by
  unfold ofFloat
  by_cases hwhole : isIntegral x = true
  · obtain ⟨hfinite, n, hn⟩ := isIntegral_iff.mp hwhole
    have hfloor : floor? x = some n := floor?_eq_some_iff.mpr ⟨hfinite, by rw [hn, Int.floor_intCast]⟩
    rw [if_pos hwhole, hfloor]
    exact .inr ⟨n, rfl, hfinite, hn⟩
  · rw [if_neg hwhole]
    exact .inl rfl

theorem value_of_ofFloat (h : ofFloat x = .int n) : (parts x).IsFinite ∧ (parts x).value = n := by
  rcases ofFloat_cases x with hfloat | ⟨m, hint, hvalue⟩
  · rw [hfloat] at h
    cases h
  · rw [hint] at h
    cases h
    exact hvalue

/-- Doubles of one key part are equal. -/
theorem beq_of_ofFloat (h : ofFloat x = ofFloat y) (hx : (ofFloat x).IsNumber) : (x == y) = true := by
  rcases ofFloat_cases x with hfloat | ⟨n, hint, hfinite, hvalue⟩
  · rw [hfloat] at h hx
    rcases ofFloat_cases y with hfloat' | ⟨n, hint', -⟩
    · rw [hfloat'] at h
      cases h
      exact hx
    · rw [hint'] at h
      cases h
  · obtain ⟨hfinite', hvalue'⟩ := value_of_ofFloat (h.symm.trans hint)
    exact beq_of_value_eq hfinite hfinite' (hvalue.trans hvalue'.symm)

/-- Doubles that are the same but for the sign of a zero are equal. -/
theorem beq_of_unsigned (h : (if re == 0 then 0 else re) = (if re' == 0 then 0 else re'))
    (hre : ((if re == 0 then 0 else re) == (if re == 0 then 0 else re)) = true) : (re == re') = true := by
  have hzero : ((0 : Float) == 0) = true := by decide +kernel
  by_cases hre0 : (re == 0) = true
  · by_cases hre0' : (re' == 0) = true
    · exact beq_of_isZero (beq_zero_iff.mp hre0) (beq_zero_iff.mp hre0')
    · rw [if_pos hre0, if_neg hre0'] at h
      exact absurd (h ▸ hzero) hre0'
  · rw [if_neg hre0] at h hre
    by_cases hre0' : (re' == 0) = true
    · rw [if_pos hre0'] at h
      exact absurd (h ▸ hzero) hre0
    · rw [if_neg hre0'] at h
      exact h ▸ hre

theorem compareIntFloat_of_ofFloat (h : ofFloat x = .int n) : Number.compareIntFloat n x = some .eq := by
  obtain ⟨⟨negative, m, e, hx⟩, hvalue⟩ := value_of_ofFloat h
  rw [hx] at hvalue
  unfold Number.compareIntFloat
  rw [hx]
  exact congrArg some (compareInt_eq_iff.mpr hvalue)

end KeyPart

/-- A real number that is the part as a key. -/
inductive Value.IsReal : KeyPart → Value → Prop
  | integer {v : Value} {n : Int} : v.integer? = some n → IsReal (.int n) v
  | float {x : Float} {part : KeyPart} : .ofFloat x = part → IsReal part (.float x)

namespace Value

variable {a b : Value} {part : KeyPart}

theorem compareNumbers_integers {m n : Int} (ha : a.integer? = some m) (hb : b.integer? = some n) :
    a.compareNumbers? b = some (some (compare m n)) := by
  cases a <;> cases ha <;> cases b <;> cases hb <;> rfl

theorem compareNumbers_integer_float {n : Int} {y : Float} (ha : a.integer? = some n) :
    a.compareNumbers? (.float y) = some (Number.compareIntFloat n y) := by
  cases a <;> cases ha <;> rfl

theorem compareNumbers_float_integer {n : Int} {x : Float} (hb : b.integer? = some n) :
    (Value.float x).compareNumbers? b = some ((Number.compareIntFloat n x).map Ordering.swap) := by
  cases b <;> cases hb <;> rfl

/-- Real numbers of one key part have one value. -/
theorem IsReal.compareNumbers (ha : a.IsReal part) (hb : b.IsReal part) (hpart : part.IsNumber) :
    a.compareNumbers? b = some (some .eq) := by
  cases ha with
  | integer ha =>
    cases hb with
    | integer hb => rw [compareNumbers_integers ha hb, compare_eq_iff_eq.mpr rfl]
    | float hb => rw [compareNumbers_integer_float ha, KeyPart.compareIntFloat_of_ofFloat hb]
  | float ha =>
    cases hb with
    | integer hb =>
      rw [compareNumbers_float_integer hb, KeyPart.compareIntFloat_of_ofFloat ha]
      rfl
    | float hb =>
      have hequal := KeyPart.beq_of_ofFloat (ha.trans hb.symm) (ha ▸ hpart)
      exact congrArg some (Number.compareFloats_of_beq hequal)

end Value

/-! ## Values of one part -/

/-- The value that a part is the key of, for values that are no numbers. -/
def KeyPart.owner? : KeyPart → Option Value
  | .none => some .none
  | .nan mark => some (.nan mark)
  | .text t => some (.text t)
  | .library l => some (.library l)
  | .record r => some (.record r)
  | .function f => some (.function f)
  | .int _ | .float _ | .complex _ _ | .tuple _ => Option.none

/-- Whether a part is that of a real number. -/
def KeyPart.isReal : KeyPart → Bool
  | .int _ | .float _ => true
  | _ => false

theorem KeyPart.isReal_ofFloat (x : Float) : (ofFloat x).isReal = true := by
  rcases ofFloat_cases x with hpart | ⟨n, hpart, -⟩
  · rw [hpart]
    rfl
  · rw [hpart]
    rfl

theorem KeyPart.owner?_of_isReal {part : KeyPart} (hpart : part.isReal = true) :
    part.owner? = Option.none := by
  cases part <;> first | rfl | cases hpart

namespace Value

variable {a b v : Value} {part : KeyPart} {re im : Float}

theorem IsReal.ofFloat_eq {x : Float} (hx : (Value.float x).IsReal part) : KeyPart.ofFloat x = part := by
  cases hx with
  | integer hx => cases hx
  | float hx => exact hx

theorem IsReal.isReal (hv : v.IsReal part) : part.isReal = true := by
  cases hv with
  | integer => rfl
  | float hx => exact hx ▸ KeyPart.isReal_ofFloat _

/-- A value, no tuple, and the one part that it is as a key. -/
inductive HasPart : KeyPart → Value → Prop
  | plain {part : KeyPart} {v : Value} : part.owner? = some v → HasPart part v
  | real {part : KeyPart} {v : Value} : v.IsReal part → HasPart part v
  /-- A complex number on the real axis. -/
  | onAxis {part : KeyPart} {re im : Float} : (im == 0) = true → (Value.float re).IsReal part →
    HasPart part (.complex re im)
  | complex {re im : Float} : ¬ (im == 0) = true →
    HasPart (.complex (if re == 0 then 0 else re) im) (.complex re im)

theorem HasPart.ne_tuple (hv : v.HasPart part) (length : Nat) : part ≠ .tuple length := by
  rintro rfl
  cases hv with
  | plain hv => cases hv
  | real hv => cases hv.isReal
  | onAxis _ hv => cases hv.isReal

theorem hasPart_complex (re im : Float) : HasPart (.ofComplex re im) (.complex re im) := by
  unfold KeyPart.ofComplex
  by_cases him : (im == 0) = true
  · rw [if_pos him]
    exact .onAxis him (.float rfl)
  · rw [if_neg him]
    exact .complex him

/-- A complex number on the real axis equals a real number of the same key part. -/
theorem complexEquals_of_isReal (him : (im == 0) = true) (hre : (Value.float re).IsReal part)
    (hv : v.IsReal part) (hpart : part.IsNumber) : v.complexEquals re im = true := by
  have hequal : ((im == 0) && ((Value.float re).compareNumbers? v == some (some .eq))) = true := by
    rw [him, hre.compareNumbers hv hpart]
    rfl
  cases hv with
  | integer hv => cases v <;> first | exact hequal | cases hv
  | float => exact hequal

end Value

namespace Heap

variable {h : Heap} {a b v w : Value} {part : KeyPart} {key key' : Key} {k l n : Nat}

/-- A value with a key is a tuple or has one part. -/
theorem exists_part_of_key (hv : h.keyWithin n v = .ok key) :
    (∃ r, v = .tuple r) ∨ ∃ part, key = [part] ∧ v.HasPart part := by
  cases n with
  | zero => cases hv
  | succ n =>
    cases v with
    | tuple r => exact .inl ⟨r, rfl⟩
    | list r | dict r | set r => cases hv
    | bool b | int m =>
      cases hv
      exact .inr ⟨_, rfl, .real (.integer rfl)⟩
    | float x =>
      cases hv
      exact .inr ⟨_, rfl, .real (.float rfl)⟩
    | complex re im =>
      cases hv
      exact .inr ⟨_, rfl, Value.hasPart_complex re im⟩
    | _ =>
      cases hv
      exact .inr ⟨_, rfl, .plain rfl⟩

theorem equal_of_compareNumbers {order : Option Ordering} (horder : a.compareNumbers? b = some order) :
    h.equal (n + 1) a b = .ok (order == some .eq) := by
  unfold equal
  dsimp only
  split
  case h_7 =>
    rw [horder]
  -- Neither of two numbers that are compared is complex, and neither holds anything.
  case h_1 => cases b <;> cases horder
  case h_2 => cases a <;> cases horder
  all_goals cases horder

theorem equal_of_owner? (ha : part.owner? = some a) (hnan : ∀ mark, a ≠ .nan mark) :
    h.equal (n + 1) a a = .ok true := by
  cases part <;> cases ha
  case nan mark => exact absurd rfl (hnan mark)
  all_goals exact congrArg Except.ok (beq_self_eq_true _)

/-- Values, no tuples, that are one part as keys are equal. -/
theorem equal_of_hasPart (ha : a.HasPart part) (hb : b.HasPart part) (hpart : part.IsNumber)
    (hnan : ∀ mark, a ≠ .nan mark) : h.equal (n + 1) a b = .ok true := by
  cases ha with
  | plain ha =>
    cases hb with
    | plain hb =>
      obtain rfl := Option.some.inj (ha.symm.trans hb)
      exact equal_of_owner? ha hnan
    | real hb | onAxis _ hb =>
      rw [KeyPart.owner?_of_isReal hb.isReal] at ha
      cases ha
    | complex => cases ha
  | real ha =>
    cases hb with
    | plain hb =>
      rw [KeyPart.owner?_of_isReal ha.isReal] at hb
      cases hb
    | real hb => rw [equal_of_compareNumbers (ha.compareNumbers hb hpart), beq_self_eq_true]
    | onAxis him hre =>
      have hequal := Value.complexEquals_of_isReal him hre ha hpart
      cases ha with
      | integer ha => cases a <;> cases ha <;> exact congrArg Except.ok hequal
      | float => exact congrArg Except.ok hequal
    | complex => cases ha.isReal
  | onAxis him hre =>
    cases hb with
    | plain hb =>
      rw [KeyPart.owner?_of_isReal hre.isReal] at hb
      cases hb
    | real hb => exact congrArg Except.ok (Value.complexEquals_of_isReal him hre hb hpart)
    | onAxis him' hre' =>
      have hreal := KeyPart.beq_of_ofFloat (hre.ofFloat_eq.trans hre'.ofFloat_eq.symm)
        (hre.ofFloat_eq ▸ hpart)
      have himaginary := beq_of_isZero (beq_zero_iff.mp him) (beq_zero_iff.mp him')
      exact congrArg Except.ok (Bool.and_eq_true_iff.mpr ⟨hreal, himaginary⟩)
    | complex => cases hre.isReal
  | complex him =>
    generalize hc : KeyPart.complex _ _ = c at hb
    cases hb with
    | plain hb =>
      subst hc
      cases hb
    | real hb | onAxis _ hb =>
      subst hc
      cases hb.isReal
    | complex him' =>
      obtain ⟨hreal, rfl⟩ := KeyPart.complex.inj hc
      exact congrArg Except.ok
        (Bool.and_eq_true_iff.mpr ⟨KeyPart.beq_of_unsigned hreal hpart.1, hpart.2⟩)

/-! ## Tuples -/

/-- Parts that are told apart from what follows are told apart in a row. -/
theorem mapM_flatten_inj {α β ε : Type} {f g : α → Except ε (List β)} {xs ys : List α}
    {as bs : List (List β)} {rest rest' : List β} (hlength : xs.length = ys.length)
    (hxs : xs.mapM f = .ok as) (hys : ys.mapM g = .ok bs)
    (hinj : ∀ x y a b r r', f x = .ok a → g y = .ok b → a ++ r = b ++ r' → a = b ∧ r = r')
    (heq : as.flatten ++ rest = bs.flatten ++ rest') : as = bs ∧ rest = rest' := by
  induction xs generalizing ys as bs with
  | nil =>
    cases List.length_eq_zero_iff.mp hlength.symm
    cases hxs
    cases hys
    exact ⟨rfl, heq⟩
  | cons x xs ih =>
    cases ys with
    | nil => cases hlength
    | cons y ys =>
      obtain ⟨a, as, ha, has, rfl⟩ := exists_of_mapM_cons hxs
      obtain ⟨b, bs, hb, hbs, rfl⟩ := exists_of_mapM_cons hys
      rw [List.flatten_cons, List.flatten_cons, List.append_assoc, List.append_assoc] at heq
      obtain ⟨rfl, hmore⟩ := hinj x y a b _ _ ha hb heq
      obtain ⟨rfl, hrest⟩ := ih (Nat.succ.inj hlength) has hbs hmore
      exact ⟨rfl, hrest⟩

theorem exists_of_keyWithin (ha : h.keyWithin n a = .ok key) : ∃ m, n = m + 1 := by
  cases n with
  | zero => cases ha
  | succ m => exact ⟨m, rfl⟩

/-- No key is the beginning of another one. -/
theorem key_append_inj {rest rest' : Key} (ha : h.keyWithin n a = .ok key) (hb : h.keyWithin l b = .ok key')
    (heq : key ++ rest = key' ++ rest') : key = key' ∧ rest = rest' := by
  -- On the levels of the first key; the elements of a tuple are told apart one after the other.
  induction n generalizing a b l key key' rest rest' with
  | zero => cases ha
  | succ n ih =>
    obtain ⟨l, rfl⟩ := exists_of_keyWithin hb
    rcases exists_part_of_key ha with ⟨r, rfl⟩ | ⟨part, rfl, hpart⟩
    · obtain ⟨parts, hparts, rfl⟩ := exists_parts_of_key_tuple ha
      rcases exists_part_of_key hb with ⟨r', rfl⟩ | ⟨part', rfl, hpart'⟩
      · obtain ⟨parts', hparts', rfl⟩ := exists_parts_of_key_tuple hb
        obtain ⟨hhead, htail⟩ := List.cons.inj heq
        have hsize := KeyPart.tuple.inj hhead
        obtain ⟨rfl, hrest⟩ := mapM_flatten_inj hsize hparts hparts'
          (fun _ _ _ _ _ _ hx hy hxy => ih hx hy hxy) htail
        exact ⟨congrArg (fun size => KeyPart.tuple size :: parts.flatten) hsize, hrest⟩
      · exact absurd (List.cons.inj heq).1.symm (hpart'.ne_tuple _)
    · rcases exists_part_of_key hb with ⟨r', rfl⟩ | ⟨part', rfl, -⟩
      · obtain ⟨parts', -, rfl⟩ := exists_parts_of_key_tuple hb
        exact absurd (List.cons.inj heq).1 (hpart.ne_tuple _)
      · obtain ⟨hhead, hrest⟩ := List.cons.inj heq
        exact ⟨congrArg ([·]) hhead, hrest⟩

/-- Each element of a list is beside the key that its value is. -/
theorem mem_zip_of_mapM {xs ys : List Value} {parts : List Key} (hlength : xs.length = ys.length)
    (hxs : xs.mapM (h.keyWithin n) = .ok parts) (hys : ys.mapM (h.keyWithin l) = .ok parts) :
    ∀ p ∈ xs.zip ys, ∃ key ∈ parts, h.keyWithin n p.1 = .ok key ∧ h.keyWithin l p.2 = .ok key := by
  induction xs generalizing ys parts with
  | nil => exact fun p hp => absurd hp List.not_mem_nil
  | cons x xs ih =>
    cases ys with
    | nil => cases hlength
    | cons y ys =>
      obtain ⟨a, as, ha, has, rfl⟩ := exists_of_mapM_cons hxs
      obtain ⟨b, bs, hb, hbs, hcons⟩ := exists_of_mapM_cons hys
      obtain ⟨rfl, rfl⟩ := List.cons.inj hcons
      refine List.forall_mem_cons.mpr ⟨⟨a, List.mem_cons_self, ha, hb⟩, fun p hp => ?_⟩
      obtain ⟨key, hkey, hboth⟩ := ih (Nat.succ.inj hlength) has hbs p hp
      exact ⟨key, List.mem_cons_of_mem _ hkey, hboth⟩

theorem eq_nan_of_key {mark : Ref} (hv : h.keyWithin n v = .ok [.nan mark]) : v = .nan mark := by
  obtain ⟨n, rfl⟩ := exists_of_keyWithin hv
  rcases exists_part_of_key hv with ⟨r, rfl⟩ | ⟨part, hpart, hone⟩
  · obtain ⟨parts, -, heq⟩ := exists_parts_of_key_tuple hv
    cases (List.cons.inj heq).1
  · obtain ⟨rfl, -⟩ := List.cons.inj hpart
    cases hone with
    | plain hown => exact (Option.some.inj hown).symm
    | real hreal | onAxis _ hreal => cases hreal.isReal

/-- Values that are the same key are equal, unless they are NaN. -/
theorem equal_of_key (ha : h.keyWithin n a = .ok key) (hb : h.keyWithin l b = .ok key)
    (hkey : ∀ part ∈ key, part.IsNumber) (hnan : ∀ mark, a ≠ .nan mark) : h.equal n a b = .ok true := by
  -- On the levels of the first key. Elements that are NaN are the same objects, and so are the same.
  induction n generalizing a b l key with
  | zero => cases ha
  | succ n ih =>
    obtain ⟨l, rfl⟩ := exists_of_keyWithin hb
    rcases exists_part_of_key ha with ⟨r, rfl⟩ | ⟨part, rfl, hpart⟩
    · obtain ⟨parts, hparts, rfl⟩ := exists_parts_of_key_tuple ha
      rcases exists_part_of_key hb with ⟨r', rfl⟩ | ⟨part', hpart', hone⟩
      · obtain ⟨parts', hparts', heq⟩ := exists_parts_of_key_tuple hb
        obtain ⟨hhead, htail⟩ := List.cons.inj heq
        have hsize := KeyPart.tuple.inj hhead
        obtain ⟨rfl, -⟩ := mapM_flatten_inj hsize hparts hparts'
          (fun _ _ _ _ _ _ hx hy hxy => key_append_inj hx hy hxy) (congrArg (· ++ []) htail)
        unfold equal
        dsimp only
        rw [if_pos hsize]
        refine allHold_of_forall fun p hp => ?_
        obtain ⟨item, hitem, hx, hy⟩ := mem_zip_of_mapM hsize hparts hparts' p hp
        by_cases hsame : p.1 = p.2
        · rw [if_pos hsame]
        · rw [if_neg hsame]
          refine ih hx hy (fun part hpart => hkey part ?_) fun mark hmark => hsame ?_
          · exact List.mem_cons_of_mem _ (List.mem_flatten_of_mem hitem hpart)
          · rw [hmark] at hx ⊢
            obtain ⟨n, rfl⟩ := exists_of_keyWithin hx
            cases hx
            exact (eq_nan_of_key hy).symm
      · exact absurd (List.cons.inj hpart').1.symm (hone.ne_tuple _)
    · rcases exists_part_of_key hb with ⟨r', rfl⟩ | ⟨part', hpart', hone⟩
      · obtain ⟨parts', -, heq⟩ := exists_parts_of_key_tuple hb
        exact absurd (List.cons.inj heq).1 (hpart.ne_tuple _)
      · obtain ⟨rfl, -⟩ := List.cons.inj hpart'
        exact equal_of_hasPart hpart hone (hkey _ List.mem_cons_self) hnan

/-! ## Comparisons -/

/-- What a comparison says it says with more room too. -/
theorem equal_mono {n m : Nat} {holds : Bool} (hle : n ≤ m) (hequal : h.equal n a b = .ok holds) :
    h.equal m a b = .ok holds := by
  induction n generalizing m a b holds with
  | zero => cases hequal
  | succ n ih =>
    obtain ⟨m, rfl⟩ : ∃ k, m = k + 1 := ⟨m - 1, by omega⟩
    have hsame : ∀ (x y : Value) v, (if x = y then .ok true else h.equal n x y) = .ok v →
        (if x = y then .ok true else h.equal m x y) = .ok v := by
      intro x y v hv
      split at hv
      · rename_i heq
        rw [if_pos heq, hv]
      · rename_i hne
        rw [if_neg hne]
        exact ih (by omega) hv
    unfold equal at hequal ⊢
    dsimp only at hequal ⊢
    split at hequal
    case h_3 r s | h_4 r s =>
      split at hequal
      · rename_i hsize
        rw [if_pos hsize]
        exact allHold_mono (fun p => hsame p.1 p.2) hequal
      · rename_i hsize
        rw [if_neg hsize]
        exact hequal
    case h_5 r s =>
      split at hequal
      · rename_i hsize
        rw [if_pos hsize]
        refine allHold_mono (fun e v he => ?_) hequal
        split at he
        · exact hsame _ _ v he
        · exact he
      · rename_i hsize
        rw [if_neg hsize]
        exact hequal
    case h_7 => simp_all
    all_goals exact hequal

/-- The values are equal, as a comparison says that has room enough. -/
def AreEqual (h : Heap) (a b : Value) : Prop :=
  ∃ levels, Operation.compare h levels .eq a b = .ok true

/-- What one comparison tells apart, no comparison with other levels takes for equal. -/
theorem not_areEqual_of_false {levels : Nat} (hequal : Operation.compare h levels .eq a b = .ok false) :
    ¬ h.AreEqual a b := by
  rintro ⟨others, hsame⟩
  have hless := equal_mono (Nat.le_max_left levels others) hequal
  have hmore := equal_mono (Nat.le_max_right levels others) hsame
  cases hless.symm.trans hmore

/-- The value is not NaN and holds no number that is not one, other than NaN itself, which is an object: of
such doubles and complex numbers there are none. -/
structure IsDefinite (h : Heap) (v : Value) : Prop where
  ne_nan : ∀ mark, v ≠ .nan mark
  parts : ∀ key, h.key v = .ok key → ∀ part ∈ key, part.IsNumber

/-- What has a key equals the definite values of the same key and no others. -/
theorem areEqual_iff_key (ha : h.key a = .ok key) (hb : h.key b = .ok key') (hdefinite : h.IsDefinite b) :
    h.AreEqual a b ↔ key = key' := by
  constructor
  · rintro ⟨levels, hequal⟩
    exact key_of_equal hequal ha hb
  · rintro rfl
    refine ⟨h.tuples.size + 1, equal_of_key ha hb (hdefinite.parts key hb) fun mark hmark => ?_⟩
    subst hmark
    cases ha
    exact hdefinite.ne_nan mark (eq_nan_of_key hb)

end Heap

end Scriptlet
