import Scriptlet.Json
import Scriptlet.Numeric.Binary64
import Scriptlet.Numeric.NumberText
import Scriptlet.Numeric.Power
import Scriptlet.Text.Blank
import Scriptlet.Text.Case

/-
  Settings.

  The value of a setting is given by the caller, or else by a variable of the process whose name is
  that of the setting behind a fixed beginning, in letters of any case, or else it is the default.
  Values are documents: texts are read as what is wanted, and numbers may stand for each other where
  nothing is lost. All problems are collected, one for each setting, and a value for a setting that
  does not exist is one too.

  A library finds the variables and reads the switches. What is known of it are the laws of a `Reader`;
  the one that runs here is `Reader.standard`.
-/

namespace Scriptlet

/-- The variables of a process. -/
abbrev Environ := List (Text × Text)

namespace Environ

/-- The value of a variable. -/
def get? (env : Environ) (name : Text) : Option Text := List.lookup name env

/-- The environment with a variable set, at its old place if it was set before. -/
def set (env : Environ) (name value : Text) : Environ :=
  match env with
  | [] => [(name, value)]
  | (other, old) :: rest =>
    if other == name then (name, value) :: rest else (other, old) :: set rest name value

/-- Whether a variable can have the value: no null character is in it, and no surrogate but those that
stand for single bytes. -/
def admits (value : Text) : Bool :=
  value.all fun c => c.val != 0 && (!c.isSurrogate || 0xDC80 ≤ c.val && c.val < 0xDD00)

/-- The value of the last variable whose name is `name` but for the case of letters. -/
def getAnyCase? (env : Environ) (name : Text) : Option Text :=
  (env.reverse.find? fun entry => entry.1.toLower == name.toLower).map (·.2)

end Environ

/-- What is wrong with the value of a setting. -/
inductive Problem where
  | missing
  | noInteger
  /-- A text that is no integer. -/
  | integerText
  | integerSize
  /-- A number that is no integer. -/
  | fraction
  | infinite
  | noSwitch
  /-- A text or number that is no switch. -/
  | switchText
  | noText
  /-- None of the values that there are. -/
  | choice
  | unknown
  deriving DecidableEq

/-- The name of a problem in reports. -/
def Problem.label : Problem → String
  | .missing => "missing"
  | .noInteger => "int_type"
  | .integerText => "int_parsing"
  | .integerSize => "int_parsing_size"
  | .fraction => "int_from_float"
  | .infinite => "finite_number"
  | .noSwitch => "bool_type"
  | .switchText => "bool_parsing"
  | .noText => "string_type"
  | .choice => "literal_error"
  | .unknown => "extra_forbidden"

/-- A setting and what is wrong with its value. -/
structure Issue where
  setting : Text
  problem : Problem
  deriving DecidableEq

namespace Setting

/-! ## Reading values -/

/-- Whether the code point is a blank around a number. -/
def isMargin (c : CodePoint) : Bool := c.isBlank && !(28 ≤ c.val && c.val ≤ 31)

/-- The integer that a text without zeros in front writes. -/
def plainInteger? (t : Text) : Except Problem (Option Int) :=
  let (negative, digits) := match Text.dropStart? "-" t with
    | some rest => (true, rest)
    | none => (false, t)
  if digits.isEmpty || !digits.all CodePoint.isAsciiDigit then .ok none
  else if digits.length > 1 && digits.head? == some (CodePoint.ofChar '0') then .ok none
  else if digits.length > NumberText.maxDigits then .error .integerSize
  else
    let n : Int := NumberText.digitsValue digits
    .ok (some (if negative then -n else n))

/-- The number from the first digit on that counts, where underscores may stand between digits. -/
def withoutZeros? (t : Text) : Option Text :=
  match t with
  | [] => none
  | c :: rest =>
    if c.val != 48 then if c.val == 45 || c.isAsciiDigit then some t else none
    else
      let zeros := rest.takeWhile fun d => d.val == 48 || d.val == 95
      match rest.drop zeros.length with
      | [] => some [(zeros.getLast?).getD c]
      | d :: more =>
        if d.isAsciiDigit then some (d :: more)
        else if d.val == 46 then some ((zeros.getLast?).getD c :: d :: more)
        else none

/-- The text without a point and zeros at its end. -/
def withoutFraction (t : Text) : Text :=
  match t.dropWhile fun c => c.val != 46 with
  | [] => t
  | _ :: fraction => if fraction.all fun c => c.val == 48 then t.takeWhile fun c => c.val != 46 else t

/-- The text without its underscores, if each of them stands alone between others. -/
def withoutUnderscores (t : Text) : Text :=
  let isUnderscore (c : Option CodePoint) : Bool := c.any fun c => c.val == 95
  if isUnderscore t.head? || isUnderscore t.getLast? || Text.occursIn "__" t then t
  else t.filter fun c => c.val != 95

/-- A text that writes an integer, brought to its plain form. -/
def plainForm? (t : Text) : Option Text := do
  let inner := ((t.dropWhile isMargin).reverse.dropWhile isMargin).reverse
  let unsigned ← match Text.dropStart? "+" inner with
    | some rest => if rest.head? == some (CodePoint.ofChar '-') then none else some rest
    | none => some inner
  let digits ← withoutZeros? unsigned
  return withoutUnderscores (withoutFraction digits)

/-- The integer that a text writes. -/
def integerOfText (t : Text) : Except Problem Int := do
  match ← plainInteger? t with
  | some n => return n
  | none =>
    match plainForm? t with
    | none => throw .integerText
    | some plain =>
      match plainInteger? plain with
      | .ok (some n) => return n
      | _ => throw .integerText

/-- The integer that a double is. -/
def integerOfFloat (x : Float) : Except Problem Int :=
  match Binary64.floor? x with
  | none => .error .infinite
  | some n =>
    if !Binary64.isIntegral x then .error .fraction
    else if -(twoTo 63) < n && n < twoTo 63 then .ok n
    else .error .integerSize

/-- The integer that a value is. -/
def integer (value : Json) : Except Problem Int :=
  match value with
  | .int n => .ok n
  | .bool b => .ok (if b then 1 else 0)
  | .float x => integerOfFloat x
  | .text t => integerOfText t
  | _ => .error .noInteger

/-- The words that turn a switch on. -/
def onWords : List Text := ["1", "on", "t", "true", "y", "yes"]

/-- The words that turn a switch off. -/
def offWords : List Text := ["0", "off", "f", "false", "n", "no"]

/-- ASCII letters in their lower case. -/
def asciiLower (t : Text) : Text := t.map fun c => if c.val < 128 then c.toLower else c

/-- The switch that a text writes. -/
def switchOfText (t : Text) : Except Problem Bool :=
  if onWords.contains (asciiLower t) then .ok true
  else if offWords.contains (asciiLower t) then .ok false
  else .error .switchText

/-- The switch that a number is: one or zero. -/
def switchOfInteger (n : Int) : Except Problem Bool :=
  if n = 1 then .ok true else if n = 0 then .ok false else .error .switchText

/-- The switch that a value is. -/
def switch (value : Json) : Except Problem Bool :=
  match value with
  | .bool b => .ok b
  | .text t => switchOfText t
  | .int n => switchOfInteger n
  | .float x =>
    match integerOfFloat x with
    | .ok n => switchOfInteger n
    | .error _ => .error .noSwitch
  | _ => .error .noSwitch

/-- A text reads as on exactly if it is one of the words for it in letters of any case. -/
theorem switchOfText_eq_ok_true {t : Text} : switchOfText t = .ok true ↔ asciiLower t ∈ onWords := by
  unfold switchOfText
  constructor
  · intro h
    split at h
    · exact List.contains_iff_mem.mp ‹_›
    · split at h <;> cases h
  · intro h
    rw [if_pos (List.contains_iff_mem.mpr h)]

/-- A text reads as off exactly if it is one of the words for it in letters of any case. -/
theorem switchOfText_eq_ok_false {t : Text} : switchOfText t = .ok false ↔ asciiLower t ∈ offWords := by
  have hdisjoint : ∀ w ∈ offWords, onWords.contains w = false := by decide
  unfold switchOfText
  constructor
  · intro h
    split at h
    · cases h
    · split at h
      · exact List.contains_iff_mem.mp ‹_›
      · cases h
  · intro h
    rw [if_neg (by rw [hdisjoint _ h]; decide), if_pos (List.contains_iff_mem.mpr h)]

/-- The text that a value is. -/
def text (value : Json) : Except Problem Text :=
  match value with
  | .text t => .ok t
  | _ => .error .noText

/-- The one of some named values that a value names. -/
def oneOf {α : Type} (named : List (Text × α)) (value : Json) : Except Problem α :=
  match value with
  | .text t =>
    match named.lookup t with
    | some a => .ok a
    | none => .error .choice
  | _ => .error .choice

/-! ## Variables and switches -/

/-- What finds the variable of a setting and reads switches. The name of a variable may be written in
letters of any case, and the variables of other names do not matter; which of several spellings is taken
is left open. A text is a switch if it is one of the words for one, in letters of any case. -/
structure Reader where
  /-- The text of the variable of a setting. -/
  find? : Environ → Text → Option Text
  switch : Json → Except Problem Bool
  exists_find? : ∀ {env name entry}, entry ∈ env → entry.1.toLower = name.toLower →
    ∃ t, find? env name = some t
  mem_of_find? : ∀ {env name t}, find? env name = some t →
    ∃ entry ∈ env, entry.1.toLower = name.toLower ∧ entry.2 = t
  find?_filter : ∀ env name,
    find? (env.filter fun entry => entry.1.toLower == name.toLower) name = find? env name
  switch_eq_ok_true : ∀ t, switch (.text t) = .ok true ↔ asciiLower t ∈ onWords
  switch_eq_ok_false : ∀ t, switch (.text t) = .ok false ↔ asciiLower t ∈ offWords

/-- The reader that takes the last variable of a name. -/
def Reader.standard : Reader where
  find? := Environ.getAnyCase?
  switch := Setting.switch
  exists_find? {env name entry} hentry hname := by
    have hsome : (env.reverse.find? fun other => other.1.toLower == name.toLower).isSome :=
      List.find?_isSome.mpr ⟨entry, List.mem_reverse.mpr hentry, beq_iff_eq.mpr hname⟩
    obtain ⟨other, hother⟩ := Option.isSome_iff_exists.mp hsome
    exact ⟨other.2, congrArg (Option.map Prod.snd) hother⟩
  mem_of_find? {env name t} h := by
    obtain ⟨entry, hentry, ht⟩ := Option.map_eq_some_iff.mp h
    have hname := List.find?_some hentry
    exact ⟨entry, List.mem_reverse.mp (List.mem_of_find?_eq_some hentry), beq_iff_eq.mp hname, ht⟩
  find?_filter env name := by
    unfold Environ.getAnyCase?
    rw [← List.filter_reverse, List.find?_filter]
    simp only [and_self, Bool.decide_eq_true]
  switch_eq_ok_true _ := switchOfText_eq_ok_true
  switch_eq_ok_false _ := switchOfText_eq_ok_false

/-! ## Groups of settings -/

/-- Where the values of a group of settings come from. -/
structure Source where
  given : List (Text × Json)
  /-- The text of the variable of a setting. -/
  ofVariable? : Text → Option Text

/-- A value together with what is wrong with the settings that it is made of. -/
structure Checked (α : Type) where
  value : α
  issues : List Issue

instance : Functor Checked := ⟨fun f c => ⟨f c.value, c.issues⟩, fun a c => ⟨a, c.issues⟩⟩

instance : Applicative Checked where
  pure a := ⟨a, []⟩
  seq f c := ⟨f.value (c ()).value, f.issues ++ (c ()).issues⟩

namespace Source

/-- The value of a setting, if there is one. -/
def find? (s : Source) (name : Text) : Option Json :=
  match s.given.lookup name with
  | some value => some value
  | none => (s.ofVariable? name).map .text

/-- A setting with a default. -/
def optional {α : Type} (s : Source) (name : Text) (read : Json → Except Problem α) (default : α) :
    Checked α :=
  match (s.find? name).map read with
  | none => ⟨default, []⟩
  | some (.ok a) => ⟨a, []⟩
  | some (.error problem) => ⟨default, [⟨name, problem⟩]⟩

/-- A text that has to be there. -/
def required (s : Source) (name : Text) : Checked Text :=
  match s.find? name with
  | none => ⟨[], [⟨name, .missing⟩]⟩
  | some value =>
    match text value with
    | .ok t => ⟨t, []⟩
    | .error problem => ⟨[], [⟨name, problem⟩]⟩

/-- The values that are given for settings other than `names`. -/
def strangers (s : Source) (names : List Text) : List Issue :=
  (s.given.filter fun entry => !names.contains entry.1).map fun entry => ⟨entry.1, .unknown⟩

/-- A group of settings of these names, or everything that is wrong with it. -/
def finish {α : Type} (s : Source) (names : List Text) (c : Checked α) : Except (List Issue) α :=
  match c.issues ++ s.strangers names with
  | [] => .ok c.value
  | issues => .error issues

end Source

end Setting

end Scriptlet
