import Scriptlet.Expr
import Scriptlet.Numeric.Integer
import Scriptlet.Value.Conversion

/-
  Arithmetic of numbers.

  Integers are unbounded. An operation on an integer and a double goes by doubles, and so does a true
  quotient and a power to a negative integer; the true quotient of two integers is the double nearest
  to the exact quotient. Floor quotients and remainders round to negative infinity.
-/

namespace Scriptlet

/-- A number as arithmetic sees it; a truth value is an integer. -/
inductive Number where
  | int (n : Int)
  | float (x : Float)

/-- What arithmetic makes. -/
inductive Computed where
  | int (n : Int)
  | float (x : Float)
  | complex (re im : Float)

def Value.number? : Value → Option Number
  | .bool b => some (.int (if b then 1 else 0))
  | .int n => some (.int n)
  | .float x => some (.float x)
  | .nan _ => some (.float Binary64.nan)
  | _ => Option.none

namespace Number

def zeroDivision (text : Text) : Fault := .of .zeroDivision text

/-- The double that a number is in an operation with a double. -/
def toFloat : Number → Except Fault Float
  | .int n => floatOfInt n
  | .float x => .ok x

/-- The double nearest to the quotient of two integers. -/
def quotient (m n : Int) : Except Fault Float :=
  if n = 0 then .error (zeroDivision "division by zero")
  else
    let x := Binary64.ofRatio ((m < 0) != (n < 0)) m.natAbs n.natAbs
    if Binary64.isFinite x then .ok x
    else .error (.of .overflow "integer division result too large for a float")

/-- Whether a finite double is an odd integer. -/
def isOdd (x : Float) : Bool :=
  match Binary64.floor? x with
  | some n => Binary64.isIntegral x && n % 2 == 1
  | none => false

/-- A power of two doubles; a negative number to a power that is no integer is complex. -/
def floatPower (x y : Float) : Except Fault Computed :=
  let size := x.abs
  if y == 0 then .ok (.float 1)
  else if Binary64.isNaN x then .ok (.float x)
  else if Binary64.isNaN y then .ok (.float (if x == 1 then 1 else y))
  else if !Binary64.isFinite y then
    if size == 1 then .ok (.float 1)
    else .ok (.float (if (y > 0) == (size > 1) then y.abs else 0))
  else if !Binary64.isFinite x then
    if y > 0 then .ok (.float (if isOdd y then x else size))
    else .ok (.float (if isOdd y then Binary64.copySign 0 x else 0))
  else if x == 0 then
    if y < 0 then .error (zeroDivision "0.0 cannot be raised to a negative power")
    else .ok (.float (if isOdd y then x else 0))
  else
    let power := if size == 1 then 1 else Float.pow size y
    if x < 0 && !Binary64.isIntegral y then
      let phase := Float.atan2 0 x * y
      if Binary64.isFinite power then
        .ok (.complex (power * Float.cos phase) (power * Float.sin phase))
      else .error (.of .overflow "complex exponentiation")
    else if Binary64.isFinite power then .ok (.float (if x < 0 && isOdd y then -power else power))
    else .error (.of .overflow "(34, 'Numerical result out of range')")

/-- An operation on two integers. -/
def computeInts (op : BinaryOp) (m n : Int) : Except Fault Computed :=
  match op with
  | .add => .ok (.int (m + n))
  | .sub => .ok (.int (m - n))
  | .mul => .ok (.int (m * n))
  | .div => do return .float (← quotient m n)
  | .floorDiv =>
    if n = 0 then .error (zeroDivision "integer division or modulo by zero")
    else .ok (.int (Int.fdiv m n))
  | .mod =>
    if n = 0 then .error (zeroDivision "integer modulo by zero") else .ok (.int (Int.fmod m n))
  | .pow => do
    if n ≥ 0 then return .int (Integer.power m n.toNat)
    else floatPower (← floatOfInt m) (← floatOfInt n)

/-- An operation on two doubles. -/
def computeFloats (op : BinaryOp) (x y : Float) : Except Fault Computed :=
  match op with
  | .add => .ok (.float (x + y))
  | .sub => .ok (.float (x - y))
  | .mul => .ok (.float (x * y))
  | .div => if y == 0 then .error (zeroDivision "float division by zero") else .ok (.float (x / y))
  | .floorDiv =>
    if y == 0 then .error (zeroDivision "float floor division by zero")
    else .ok (.float (Binary64.floorDivMod x y).1)
  | .mod =>
    if y == 0 then .error (zeroDivision "float modulo") else .ok (.float (Binary64.floorMod x y))
  | .pow => floatPower x y

/-- An operation on two numbers. -/
def compute (op : BinaryOp) (a b : Number) : Except Fault Computed :=
  match a, b with
  | .int m, .int n => computeInts op m n
  | a, b => do computeFloats op (← a.toFloat) (← b.toFloat)

/-- Floor quotient and remainder of two numbers. -/
def divMod (a b : Number) : Except Fault (Number × Number) :=
  match a, b with
  | .int m, .int n =>
    if n = 0 then .error (zeroDivision "integer division or modulo by zero")
    else .ok (.int (Int.fdiv m n), .int (Int.fmod m n))
  | a, b => do
    let x ← a.toFloat
    let y ← b.toFloat
    if y == 0 then throw (zeroDivision "float divmod()")
    else
      let (quotient, rest) := Binary64.floorDivMod x y
      return (.float quotient, .float rest)

/-- The number with its sign changed. -/
def negate : Number → Number
  | .int n => .int (-n)
  | .float x => .float (-x)

/-- The number without its sign. -/
def absolute : Number → Number
  | .int n => .int n.natAbs
  | .float x => .float x.abs

/-- The power of an integer modulo another one. -/
def powerMod (base exponent modulus : Int) : Except Fault Int :=
  if modulus = 0 then .error (.of .badValue "pow() 3rd argument cannot be 0")
  else if exponent ≥ 0 then .ok (Integer.powMod base exponent.toNat modulus)
  else
    match Integer.inverseMod? base modulus with
    | some inverse => .ok (Integer.powMod inverse (-exponent).toNat modulus)
    | none => .error (.of .badValue "base is not invertible for the given modulus")

end Number

end Scriptlet
