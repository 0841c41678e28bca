import Scriptlet.Operation
import Scriptlet.Proofs.Scope

/-
  Computations that attach their faults to nothing.

  One lemma for each computation on values that can stop: what stops it is attached to no expression.
  The order is that of the definitions.
-/

namespace Scriptlet

variable {h : Heap} {levels : Nat} {v w : Value}

/-! ## Texts -/

theorem Value.detached_kind (v : Value) : Detached v.kind := by
  unfold kind
  split
  · exact .pure
  · exact .throw rfl

theorem detached_integerText (n : Int) : Detached (integerText n) := by
  unfold integerText
  split
  · exact .pure
  · exact .throw rfl

namespace Heap

theorem detached_render {style : PrintStyle} {within : List Value} :
    Detached (h.render style levels within v) := by
  induction levels generalizing within v with
  | zero => exact .throw rfl
  | succ levels ih =>
    have hinside : ∀ items : List Value, Detached (do
        return Text.join ", " (← items.mapM (h.render style levels (v :: within))) :
          Except Fault Text) := fun items => (Raises.mapM fun _ => ih).bind fun _ _ => .pure
    unfold render
    cases v with
    | int n => exact detached_integerText n
    | complex re im => exact .ite .pure (.throw rfl)
    | list r => exact .ite .pure ((hinside _).bind fun _ _ => .pure)
    | tuple r => exact .ite .pure ((hinside _).bind fun _ _ => .pure)
    | dict r =>
      have hentry : ∀ e : Entry, Detached (do
          let key ← h.render style levels (.dict r :: within) e.keyValue
          return key ++ Text.ofString ": " ++
            (← h.render style levels (.dict r :: within) e.value) : Except Fault Text) :=
        fun e => ih.bind fun _ _ => ih.bind fun _ _ => .pure
      exact .ite .pure ((Raises.mapM hentry).bind fun _ _ => .pure)
    | set r => exact .ite .pure ((Raises.mapM fun _ => ih).bind fun _ _ => .pure)
    | record r =>
      dsimp only
      split <;> exact .pure
    | _ => exact .pure

theorem detached_repr : Detached (h.repr levels v) := detached_render

theorem detached_plainRepr : Detached (h.plainRepr levels v) := detached_render

theorem detached_format : Detached (h.format levels v) := by
  cases v with
  | text t => exact .pure
  | _ => exact detached_repr

end Heap

/-! ## Keys -/

namespace Heap

theorem detached_keyWithin : Detached (h.keyWithin levels v) := by
  induction levels generalizing v with
  | zero => exact .throw rfl
  | succ levels ih =>
    unfold keyWithin
    cases v with
    | tuple r =>
      cases hitems : h.tuples[r]? with
      | none =>
        simp only [hitems]
        exact .throw rfl
      | some items =>
        simp only [hitems]
        exact (Raises.mapM fun _ => ih).bind fun _ _ => .pure
    | list r | dict r | set r => exact .throw rfl
    | _ => exact .pure

theorem detached_key : Detached (h.key v) := detached_keyWithin

theorem detached_keyIn {context : Text} : Detached (h.keyIn v context) := by
  have hrequired : Detached (requireHashable v context) :=
    (Value.detached_kind v).bind fun _ _ => .ite (.throw rfl) .pure
  exact hrequired.bind fun _ _ => detached_key

theorem detached_membersOf {values : List Value} {context : Text} :
    Detached (h.membersOf values context) :=
  .foldlM fun _ _ => detached_keyIn.bind fun _ _ => .pure

end Heap

/-! ## Equality and order -/

section

variable {α : Type} {test : α → Except Fault Bool}

theorem detached_allHold {items : List α} (htest : ∀ a, Detached (test a)) :
    Detached (allHold test items) := by
  induction items with
  | nil => exact .pure
  | cons a as ih => exact (htest a).bind fun _ _ => .ite ih .pure

theorem detached_someHolds {items : List α} (htest : ∀ a, Detached (test a)) :
    Detached (someHolds test items) := by
  induction items with
  | nil => exact .pure
  | cons a as ih => exact (htest a).bind fun _ _ => .ite .pure ih

end

theorem detached_firstDifference {same : Value → Value → Except Fault Bool} {as bs : List Value}
    (hsame : ∀ a b, Detached (same a b)) : Detached (firstDifference same as bs) := by
  induction as generalizing bs with
  | nil => cases bs <;> exact .pure
  | cons a as ih =>
    cases bs with
    | nil => exact .pure
    | cons b bs => exact (hsame a b).bind fun _ _ => .ite ih .pure

namespace Heap

theorem detached_equal : Detached (h.equal levels v w) := by
  induction levels generalizing v w with
  | zero => exact .throw rfl
  | succ levels ih =>
    have hsame : ∀ x y : Value, Detached (if x = y then .ok true else h.equal levels x y) :=
      fun x y => .ite .pure ih
    unfold equal
    dsimp only
    split
    · exact .pure
    · exact .pure
    · exact .ite (detached_allHold fun p => hsame p.1 p.2) .pure
    · exact .ite (detached_allHold fun p => hsame p.1 p.2) .pure
    · refine .ite (detached_allHold fun e => ?_) .pure
      split
      · exact hsame _ _
      · exact .pure
    · exact .pure
    · split <;> exact .pure

theorem detached_same : Detached (h.same levels v w) := .ite .pure detached_equal

theorem detached_ordered {op : OrderOp} : Detached (h.ordered op levels v w) := by
  induction levels generalizing v w with
  | zero => exact .throw rfl
  | succ levels ih =>
    unfold ordered
    extract_lets sequences
    have hsequences : ∀ xs ys, Detached (sequences xs ys) := by
      refine fun xs ys => (detached_firstDifference fun _ _ => detached_same).bind fun found _ => ?_
      cases found with
      | none => exact .pure
      | some p => exact ih
    split
    · exact .pure
    · exact hsequences _ _
    · exact hsequences _ _
    · exact .pure
    · split
      · exact .pure
      · exact .throw rfl

end Heap

/-! ## Conversions -/

theorem detached_floatOfInt (n : Int) : Detached (floatOfInt n) := by
  unfold floatOfInt
  split
  · exact .pure
  · exact .throw rfl

theorem detached_truncate (x : Float) : Detached (truncate x) := by
  unfold truncate
  split
  · exact .throw rfl
  · exact .throw rfl
  · exact .pure

theorem detached_floorOf (x : Float) : Detached (floorOf x) := by
  unfold floorOf
  split
  · exact .throw rfl
  · exact .throw rfl
  · exact .pure

namespace Heap

theorem detached_truthy : Detached (h.truthy v) := by
  cases v with
  | complex re im => exact .throw rfl
  | _ => exact .pure

theorem detached_iterate {context : Text} : Detached (h.iterate v context) := by
  refine v.detached_kind.bind fun k _ => ?_
  split
  · exact .pure
  · exact .throw rfl

theorem detached_unpack {count : Nat} : Detached (h.unpack levels v count) := by
  have hrefuse : Detached (do
      throw (.badValue ("unpacking count mismatch: expected " ++ Text.ofNat count ++ " values from " ++
        (← h.repr levels v))) : Except Fault (List Value)) :=
    detached_repr.bind fun _ _ => .throw rfl
  unfold unpack
  refine v.detached_kind.bind fun _ _ => ?_
  cases v with
  | list r | tuple r => exact .ite .pure hrefuse
  | _ => exact hrefuse

end Heap

namespace Value

theorem detached_toInteger : Detached v.toInteger := by
  cases v with
  | bool b | int n => exact .pure
  | float x =>
    unfold toInteger
    dsimp only
    split
    · exact .pure
    · exact .throw rfl
  | text t =>
    unfold toInteger
    dsimp only
    split
    · exact .pure
    · exact .throw rfl
  | nan mark => exact .throw rfl
  | _ => exact (detached_kind _).bind fun _ _ => .throw rfl

theorem detached_toFloat : Detached v.toFloat := by
  cases v with
  | bool b | float x | nan mark => exact .pure
  | int n => exact detached_floatOfInt n
  | text t =>
    unfold toFloat
    dsimp only
    split
    · exact .pure
    · exact .throw rfl
  | _ => exact (detached_kind _).bind fun _ _ => .throw rfl

theorem detached_toReal : Detached v.toReal := by
  unfold toReal
  split
  · exact .pure
  · exact .pure
  · split
    · exact detached_floatOfInt _
    · exact .throw rfl

theorem detached_requireNumber {context : Text} : Detached (v.requireNumber context) :=
  v.detached_kind.bind fun _ _ => .ite (.throw rfl) .pure

theorem detached_requireInteger {context : Text} : Detached (v.requireInteger context) := by
  refine v.detached_kind.bind fun k _ => ?_
  split
  · exact .pure
  · exact .throw rfl

end Value

/-! ## Arithmetic -/

namespace Number

theorem detached_toFloat (n : Number) : Detached n.toFloat := by
  cases n with
  | int n => exact detached_floatOfInt n
  | float x => exact .pure

theorem detached_quotient (m n : Int) : Detached (quotient m n) :=
  .ite (.throw rfl) (.ite .pure (.throw rfl))

theorem detached_floatPower (x y : Float) : Detached (floatPower x y) := by
  unfold floatPower
  refine .ite .pure (.ite .pure (.ite .pure (.ite (.ite .pure .pure) (.ite (.ite .pure .pure) ?_))))
  refine .ite (.ite (.throw rfl) .pure) ?_
  dsimp only
  exact .ite (.ite .pure (.throw rfl)) (.ite .pure (.throw rfl))

theorem detached_computeInts (op : BinaryOp) (m n : Int) : Detached (computeInts op m n) := by
  cases op with
  | div => exact (detached_quotient m n).bind fun _ _ => .pure
  | floorDiv | mod => exact .ite (.throw rfl) .pure
  | pow =>
    refine .ite .pure ?_
    exact (detached_floatOfInt m).bind fun _ _ => (detached_floatOfInt n).bind fun _ _ =>
      detached_floatPower _ _
  | _ => exact .pure

theorem detached_computeFloats (op : BinaryOp) (x y : Float) : Detached (computeFloats op x y) := by
  cases op with
  | div | floorDiv | mod => exact .ite (.throw rfl) .pure
  | pow => exact detached_floatPower x y
  | _ => exact .pure

theorem detached_compute (op : BinaryOp) (a b : Number) : Detached (compute op a b) := by
  have hfloats : Detached (do computeFloats op (← a.toFloat) (← b.toFloat)) :=
    a.detached_toFloat.bind fun _ _ => b.detached_toFloat.bind fun _ _ =>
      detached_computeFloats op _ _
  unfold compute
  split
  · exact detached_computeInts op _ _
  · exact hfloats

theorem detached_divMod (a b : Number) : Detached (divMod a b) := by
  unfold divMod
  split
  · exact .ite (.throw rfl) .pure
  · exact a.detached_toFloat.bind fun _ _ => b.detached_toFloat.bind fun _ _ => .ite (.throw rfl) .pure

theorem detached_powerMod (base exponent modulus : Int) :
    Detached (powerMod base exponent modulus) := by
  refine .ite (.throw rfl) (.ite .pure ?_)
  split
  · exact .pure
  · exact .throw rfl

end Number

/-! ## Sequences and mappings -/

theorem outOfRange_isDetached (context : Text) (index : Int) :
    (outOfRange context index).isDetached = true := by
  unfold outOfRange
  split <;> rfl

theorem Value.detached_sliceBound : Detached v.sliceBound := by
  unfold sliceBound
  split
  · exact .pure
  · split
    · exact .pure
    · exact .throw rfl

theorem Value.detached_sequenceIndex {refusal : Text} : Detached (v.sequenceIndex refusal) := by
  refine v.detached_kind.bind fun k _ => ?_
  split
  · exact .pure
  · exact .throw rfl

namespace Heap

theorem detached_missingKey : Detached (h.missingKey levels v) := by
  unfold missingKey
  split
  · exact .throw rfl
  · exact .pure
  · rename_i fault _ hfault
    exact .throw (detached_plainRepr fault hfault)

theorem detached_itemAt {index : Int} : Detached (h.itemAt v index) := by
  unfold itemAt
  extract_lets pick
  have hpick : ∀ name items, Detached (pick name items) := by
    intro name items
    simp -zeta only [pick]
    split
    · exact .pure
    · exact .throw (outOfRange_isDetached _ _)
  cases v with
  | text t =>
    dsimp only
    split
    · exact .pure
    · exact .throw (outOfRange_isDetached _ _)
  | list r => exact hpick "list" _
  | tuple r => exact hpick "tuple" _
  | _ => exact .pure

theorem detached_lookUp : Detached (h.lookUp levels v w) := by
  unfold lookUp
  refine v.detached_kind.bind fun k _ => .ite ?_ ?_
  · exact Value.detached_sequenceIndex.bind fun _ _ => detached_itemAt.bind fun _ _ => .pure
  · cases v with
    | dict r =>
      refine detached_keyIn.bind fun key _ => ?_
      split
      · exact .pure
      · exact detached_missingKey
    | _ => exact .throw rfl

theorem detached_isIn {word : Text} : Detached (h.isIn levels word v w) := by
  have hamong : ∀ items : Array Value, Detached
      (someHolds (fun item => h.same levels item v) items.toList) :=
    fun items => detached_someHolds fun _ => detached_same
  unfold isIn
  refine w.detached_kind.bind fun k _ => ?_
  cases w with
  | text t => cases v <;> first | exact .pure | exact .throw rfl
  | list r | tuple r => exact hamong _
  | dict r | set r => exact detached_keyIn.bind fun _ _ => .pure
  | _ => exact .throw rfl

end Heap

/-! ## Templates -/

namespace Template

theorem detached_integerBody {conversion : CodePoint} {flags : Flags} {precision : Option Nat}
    {n : Int} : Detached (integerBody conversion flags precision n) := by
  refine .ite (.throwBind rfl) ?_
  dsimp only
  split
  · exact .pure
  · exact .pure
  · exact .pure
  · exact (detached_integerText _).bind fun _ _ => .pure

theorem detached_wholeOf {conversion : CodePoint} : Detached (wholeOf conversion v) := by
  unfold wholeOf
  dsimp only
  split
  · exact .pure
  · refine .ite (.throw rfl) ?_
    split
    · exact detached_truncate _
    · exact detached_truncate _
    · exact .throw rfl

theorem detached_codePointOf : Detached (codePointOf v) := by
  unfold codePointOf
  split
  · exact .pure
  · split
    · split
      · exact .pure
      · exact .throw rfl
    · exact .throw rfl

theorem detached_convert {conversion : CodePoint} {index : Nat} {flags : Flags}
    {precision : Option Nat} :
    Detached (convert h levels conversion index flags precision v) := by
  have hdigits : Detached (do
      integerBody conversion flags precision (← wholeOf conversion v)) :=
    detached_wholeOf.bind fun _ _ => detached_integerBody
  have hfloat : Detached (do
      return floatBody conversion flags precision (← v.toReal) : Except Fault Body) :=
    Value.detached_toReal.bind fun _ _ => .pure
  have htext : ∀ t, Detached (return textBody precision t : Except Fault Body) := fun _ => .pure
  unfold convert
  split
  · cases v with
    | text t => exact htext t
    | _ => exact Heap.detached_plainRepr.bind fun _ _ => .pure
  · exact Heap.detached_plainRepr.bind fun _ _ => .pure
  · exact Heap.detached_plainRepr.bind fun _ _ => .pure
  all_goals first
    | exact hdigits
    | exact hfloat
    | exact detached_codePointOf.bind fun _ _ => .pure
    | exact .throw rfl

variable {supply : Supply}

theorem detached_next : Detached supply.next := by
  unfold Supply.next
  split
  · exact .pure
  · exact .throw rfl

theorem detached_select {field : KeyField} : Detached (supply.select h field) := by
  cases field with
  | absent => exact .pure
  | named key =>
    unfold Supply.select
    dsimp only
    split
    · split
      · exact .pure
      · exact .throw rfl
    · exact .throw rfl
    · exact .throw rfl
  | unclosed =>
    unfold Supply.select
    dsimp only
    split <;> exact .throw rfl

theorem detached_star : Detached supply.star := by
  refine detached_next.bind fun p _ => ?_
  dsimp only
  split
  · exact .pure
  · exact .throw rfl

theorem detached_directive {d : Directive} : Detached (d.fill h levels supply) := by
  -- What comes behind the width and behind the precision is the same in all their cases.
  unfold Directive.fill
  refine detached_select.bind fun supply _ => ?_
  extract_lets behindWidth
  have hwidth : ∀ p, Detached (behindWidth p) := by
    rintro ⟨flags, width, supply⟩
    simp -zeta only [behindWidth]
    extract_lets behindPrecision
    have hprecision : ∀ q, Detached (behindPrecision q) := by
      rintro ⟨precision, supply⟩
      simp -zeta only [behindPrecision]
      split
      · exact .throw rfl
      · exact detached_next.bind fun _ _ => detached_convert.bind fun _ _ => .pure
    split
    · exact Raises.pure.bind fun q _ => hprecision q
    · exact .ite (.throwBind rfl) (Raises.pure.bind fun q _ => hprecision q)
    · exact detached_star.bind fun _ _ =>
        .ite (.throwBind rfl) (Raises.pure.bind fun q _ => hprecision q)
  split
  · exact Raises.pure.bind fun p _ => hwidth p
  · exact .ite (.throwBind rfl) (Raises.pure.bind fun p _ => hwidth p)
  · exact detached_star.bind fun _ _ => .ite (.throwBind rfl) (Raises.pure.bind fun p _ => hwidth p)

theorem detached_fillParts {parts : List Part} : Detached (fillParts h levels parts supply) := by
  induction parts generalizing supply with
  | nil => exact .pure
  | cons part rest ih =>
    cases part with
    | text t => exact ih.bind fun _ _ => .pure
    | directive d => exact detached_directive.bind fun _ _ => ih.bind fun _ _ => .pure

theorem detached_fill {template : Text} : Detached (fill h levels template v) :=
  detached_fillParts.bind fun _ _ => .ite (.throw rfl) .pure

end Template

/-! ## Operators -/

theorem Run.detached_requireSize {limits : Limits} {size : Nat} :
    Detached (requireSize limits size) := .ite (.throw rfl) .pure

theorem Run.detached_requireBits {limits : Limits} {bits : Nat} :
    Detached (requireBits limits bits) := .ite (.throw rfl) .pure

namespace Operation

theorem detached_requireOperands {op : BinaryOp} : Detached (requireOperands op v w) := by
  refine Raises.bind (.forIn fun u _ => ?_) fun _ _ => .pure
  refine u.detached_kind.bind fun k _ => .ite ?_ .pure
  exact v.detached_kind.bind fun _ _ => w.detached_kind.bind fun _ _ => .throwBind rfl

theorem detached_requireRepetition {limits : Limits} :
    Detached (requireRepetition limits h v w) := by
  refine v.detached_kind.bind fun k _ => .ite ?_ .pure
  split
  · exact Run.detached_requireSize
  · exact .pure

theorem detached_requireMemory {size : Nat} : Detached (requireMemory v size) := by
  cases v with
  | text t => exact .ite (.throw rfl) (.ite (.throw rfl) .pure)
  | _ => exact .ite (.throw rfl) .pure

theorem detached_compare {op : CompareOp} : Detached (compare h levels op v w) := by
  cases op with
  | eq => exact Heap.detached_equal
  | ne => exact Heap.detached_equal.bind fun _ _ => .pure
  | lt | gt | le | ge => exact Heap.detached_ordered
  | isIn => exact Heap.detached_isIn
  | notIn => exact Heap.detached_isIn.bind fun _ _ => .pure
  | isSame | isNotSame => exact .pure

theorem detached_requireSliceable : Detached (requireSliceable v) :=
  v.detached_kind.bind fun _ _ => .ite (.throw rfl) .pure

end Operation

end Scriptlet
