import Scriptlet.State
import Scriptlet.Template.Filling
import Scriptlet.Value.Arithmetic
import Scriptlet.Value.Sequence

/-
  Operators and subscripts.

  Numbers are computed with; sequences are joined and repeated; a text on the left of a remainder is a
  template; sets are subtracted. The limits on the bits of integers and on the size of collections are
  tested where a result could exceed them. The number `room` is the count of levels of nesting that
  there is room for.
-/

namespace Scriptlet

namespace Operation

/-- An upper estimate of the bit length of what an operator makes of two integers, zero for other
values and for operators under which integers hardly grow. -/
def bitEstimate (op : BinaryOp) (left right : Value) : Nat :=
  match left.integer?, right.integer? with
  | some m, some n =>
    match op with
    | .mul => Integer.productBits m n
    | .pow => Integer.powerBits m n
    | _ => 0
  | _, _ => 0

/-- Refuses operands that no operator takes. -/
def requireOperands (op : BinaryOp) (left right : Value) : Except Fault Unit := do
  for v in [left, right] do
    let k ← v.kind
    if k == .module || k == .function || k == .none then
      throw (.badType ("unsupported operand type(s) for " ++ op.symbol ++ ": '" ++
        ((← left.kind).name : Text) ++ "' and '" ++ ((← right.kind).name : Text) ++ "'"))

/-- The failure of operands that do not go together. -/
def mismatch (op : BinaryOp) (left right : Value) : Fault :=
  let symbol := match op with
    | .pow => "** or pow()"
    | op => op.symbol
  .of .badType ("unsupported operand type(s) for " ++ symbol ++ ": '" ++ left.typeName ++ "' and '" ++
    right.typeName ++ "'")

/-- The failure of joining a sequence and something else. -/
def notJoined (left right : Value) : Fault :=
  let name : Text := left.typeName
  .of .badType ("can only concatenate " ++ name ++ " (not \"" ++ right.typeName ++ "\") to " ++ name)

/-- Refuses to repeat a sequence too often. -/
def requireRepetition (limits : Limits) (h : Heap) (sequence count : Value) : Except Fault Unit := do
  if (← sequence.kind).isSequence then
    match count.integer? with
    | some n => Run.requireSize limits (h.size sequence * n.toNat)
    | none => return ()

/-- The value of a computed number. -/
def ofComputed : Computed → Run Value
  | .int n => return .int n
  | .float x => Run.newFloat x
  | .complex re im => return .complex re im

/-- The value of a number. -/
def ofNumber : Number → Run Value
  | .int n => return .int n
  | .float x => Run.newFloat x

/-- The number of elements from which on there is no memory for a sequence. The language has no such
number: it stands for the memory of the machine that a script runs on. -/
def memoryBound : Nat := twoTo 36

/-- Refuses a sequence of a size that no memory holds. -/
def requireMemory (sequence : Value) (size : Nat) : Except Fault Unit :=
  match sequence with
  | .text _ =>
    if size ≥ indexBound then throw (.of .overflow "repeated string is too long")
    else if size ≥ memoryBound then throw (.of .memory "")
    else return ()
  | _ => if size ≥ memoryBound then throw (.of .memory "") else return ()

/-- The sequence of `count` copies of a sequence. -/
def repeated (sequence : Value) (count : Int) : Run Value := do
  if count ≥ indexBound || count < -indexBound then
    throw (.of .overflow "cannot fit 'int' into an index-sized integer")
  let heap := (← get).heap
  let size := heap.size sequence
  requireMemory sequence (size * count.toNat)
  let times := if size = 0 then 0 else count.toNat
  let copies (items : Array Value) : List Value := (List.replicate times items.toList).flatten
  match sequence with
  | .text t => return .text (List.replicate times t).flatten
  | .list r => Run.newList (copies (heap.list r))
  | .tuple r => if count == 1 then return sequence else Run.newTuple (copies (heap.tuple r))
  | _ => return sequence

/-- A sequence repeated, on whichever side the count stands. -/
def multiply (left right : Value) : Run Value := do
  let failure (v : Value) : Fault :=
    .of .badType ("can't multiply sequence by non-int of type '" ++ v.typeName ++ "'")
  if (← left.kind).isSequence then
    match right.integer? with
    | some n => repeated left n
    | none => throw (failure right)
  else if (← right.kind).isSequence then
    match left.integer? with
    | some n => repeated right n
    | none => throw (failure left)
  else throw (mismatch .mul left right)

/-- Two sequences of the same kind joined. -/
def join (left right : Value) : Run Value := do
  let heap := (← get).heap
  match left, right with
  | .text s, .text t => return .text (s ++ t)
  | .list r, .list s => Run.newList ((heap.list r).toList ++ (heap.list s).toList)
  | .tuple r, .tuple s =>
    if (heap.tuple r).isEmpty then return right
    else if (heap.tuple s).isEmpty then return left
    else Run.newTuple ((heap.tuple r).toList ++ (heap.tuple s).toList)
  | .text _, _ | .list _, _ | .tuple _, _ => throw (notJoined left right)
  | _, _ => throw (mismatch .add left right)

/-- The members of one set that are not in another one. -/
def without (left right : Value) : Run Value := do
  let heap := (← get).heap
  match left, right with
  | .set r, .set s =>
    let others := heap.set s
    Run.make (·.newSet ((heap.set r).filter fun m => !others.any (·.key == m.key)))
  | _, _ => throw (mismatch .sub left right)

/-- A template filled in. -/
def fillTemplate (limits : Limits) (room : Nat) (template : Text) (v : Value) : Run Value := do
  let segments ← Run.look fun h => Template.fill h room template v
  Run.requireSize limits (Segment.total segments)
  return .text (Segment.join segments)

/-- What an operator makes of two values. -/
def apply (limits : Limits) (room : Nat) (op : BinaryOp) (left right : Value) : Run Value := do
  match left.number?, right.number? with
  | some a, some b => ofComputed (← Number.compute op a b)
  | _, _ =>
    match op, left with
    | .add, _ => join left right
    | .sub, _ => without left right
    | .mul, _ => multiply left right
    | .mod, .text t => fillTemplate limits room t right
    | _, _ => throw (mismatch op left right)

/-- Refuses a sequence that is too large. -/
def requireSequence (limits : Limits) (h : Heap) (v : Value) : Except Fault Unit := do
  if (← v.kind).isSequence then Run.requireSize limits (h.size v)

/-- What an operator makes of two values, within the limits. -/
def binary (limits : Limits) (room : Nat) (op : BinaryOp) (left right : Value) : Run Value := do
  requireOperands op left right
  Run.requireBits limits (bitEstimate op left right)
  if op == .mul then
    Run.look fun h => do
      requireRepetition limits h left right
      requireRepetition limits h right left
  Run.tested (apply limits room op left right) (requireSequence limits)

/-- What a sign or a negation makes of a value. -/
def unary (op : UnaryOp) (v : Value) : Run Value := do
  match op with
  | .not => return .bool (!(← Run.look (·.truthy v)))
  | .negative =>
    v.requireNumber "unary '-'"
    match v.number? with
    | some n => ofNumber n.negate
    | none => return v
  | .positive =>
    v.requireNumber "unary '+'"
    match v with
    | .bool b => return .int (if b then 1 else 0)
    | v => return v

/-- Whether a comparison of two values holds. What is an object is the same as itself only. Numbers and
texts are no objects here, so that equal ones of one type are the same; whether a host makes one object of
two equal literals is left aside. -/
def compare (h : Heap) (room : Nat) (op : CompareOp) (left right : Value) : Except Fault Bool := do
  match op with
  | .eq => h.equal room left right
  | .ne => return !(← h.equal room left right)
  | .lt => h.ordered .lt room left right
  | .gt => h.ordered .gt room left right
  | .le => h.ordered .le room left right
  | .ge => h.ordered .ge room left right
  | .isIn => h.isIn room "in" left right
  | .notIn => return !(← h.isIn room "not in" left right)
  | .isSame => return left == right
  | .isNotSame => return left != right

/-- Refuses to slice what is no sequence. -/
def requireSliceable (v : Value) : Except Fault Unit := do
  let k ← v.kind
  if !k.isSequence then throw (.badType ("'" ++ k.name ++ "' object cannot be sliced"))

/-- The part of a sequence between two bounds, in steps. -/
def slice (target lower upper step : Value) : Run Value := do
  let stride := (← step.sliceBound).getD 1
  if stride = 0 then throw (.of .badValue "slice step cannot be zero")
  let first ← lower.sliceBound
  let last ← upper.sliceBound
  let heap := (← get).heap
  let places := Places.of (heap.size target) first last stride
  match target with
  | .text t => return .text (places.pick t.toArray)
  | .list r => Run.newList (places.pick (heap.list r))
  | .tuple r =>
    if places.isWhole (heap.tuple r).size then return target
    else Run.newTuple (places.pick (heap.tuple r))
  | _ => return target

/-- Stores a value under an index or a key; `source` is the text of the place. -/
def store (source : Text) (container key value : Value) : Run Unit := do
  let k ← container.kind
  let attached (fault : Fault) : Fault := fault.within source
  match container with
  | .list r =>
    let _ ← key.kind
    let index ← Run.mapFault attached (key.sequenceIndex "list indices must be integers")
    match placeOf ((← get).heap.list r).size index with
    | some i => Run.change (·.setListItem r i value)
    | none => throw (attached (outOfRange "list assignment" index))
  | .dict r =>
    let found ← Run.look (·.keyIn key "item assignment")
    Run.change (·.putEntry r found key value)
  | _ =>
    throw (attached (.badType ("'" ++ k.name ++ "' object does not support item assignment")))

end Operation

end Scriptlet
