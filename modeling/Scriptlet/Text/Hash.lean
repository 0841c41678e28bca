import Scriptlet.Numeric.Power
import Scriptlet.Text

/-
  A number for a text.

  A state of 32 bits is carried along the code points. It is shifted by five bits, the state before the
  shift is subtracted and the code point added, and what is beyond 32 bits is masked away. Read as a signed
  word and without its sign, the last state is the hash of the text.
-/

namespace Scriptlet

namespace Text

/-- The state of the hash behind one more code point. Nothing is lost in the difference, since a shifted
state is no less than the state. -/
def hashStep (state : Nat) (c : CodePoint) : Nat := ((state <<< 5) - state + c.val) &&& 0xFFFFFFFF

/-- The state of the hash behind a text. -/
def hashState (t : Text) : Nat := t.foldl hashStep 0

/-- The word that a state is, read with a sign. -/
def signedWord (state : Nat) : Int := if state ≥ twoTo 31 then (state : Int) - twoTo 32 else state

/-- The hash of a text. -/
def hash (t : Text) : Nat := (signedWord t.hashState).natAbs

end Text

end Scriptlet
