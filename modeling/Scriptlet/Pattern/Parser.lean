import Scriptlet.Numeric.NumberText
import Scriptlet.Numeric.Power
import Scriptlet.Pattern
import Scriptlet.Text.Quoted
import Scriptlet.Text.Word

/-
  Patterns read from text.

  The text is read token by token, where a token is a code point or a backslash and the code point
  behind it, and the reader looks one token ahead. A fault tells what is wrong and at which offset.

  Groups within groups take one level of room each, so a pattern that nests too deep is refused and
  reading always ends.
-/

namespace Scriptlet

namespace Pattern

/-- What is wrong with a pattern. -/
inductive Complaint where
  | danglingBackslash
  | missing (what : Text)
  | unterminatedName (closing : Text)
  | badName (name : Text)
  | unknownName (name : Text)
  | openGroup
  | lookbehindGroup
  | redefined (name : Text) (group old : Nat)
  | incompleteEscape (escape : Text)
  | badEscape (escape : Text)
  | undefinedCharacter (name : Text)
  | octalTooLarge (escape : Text)
  | invalidGroup (group : Nat)
  | badGroupNumber
  | unterminatedSet
  | badRange (low high : Text)
  | repeatOrder
  | nothingToRepeat
  | multipleRepeat
  | unexpectedEnd
  | unknownExtension (text : Text)
  | tooManyBranches
  | lateFlags
  | unknownFlag
  | localeFlag
  | flagConflict
  | globalFlagOn
  | globalFlagOff
  | typeFlagOff
  | flagOnAndOff
  | unbalanced
  deriving DecidableEq

def Complaint.message : Complaint → Text
  | .danglingBackslash => "bad escape (end of pattern)"
  | .missing what => "missing " ++ what
  | .unterminatedName closing => "missing " ++ closing ++ ", unterminated name"
  | .badName name => "bad character in group name " ++ name.quoted
  | .unknownName name => "unknown group name " ++ name.quoted
  | .openGroup => "cannot refer to an open group"
  | .lookbehindGroup => "cannot refer to group defined in the same lookbehind subpattern"
  | .redefined name group old =>
    "redefinition of group name " ++ name.quoted ++ " as group " ++ Text.ofNat group ++
      "; was group " ++ Text.ofNat old
  | .incompleteEscape escape => "incomplete escape " ++ escape
  | .badEscape escape => "bad escape " ++ escape
  | .undefinedCharacter name => "undefined character name " ++ name.quoted
  | .octalTooLarge escape => "octal escape value " ++ escape ++ " outside of range 0-0o377"
  | .invalidGroup group => "invalid group reference " ++ Text.ofNat group
  | .badGroupNumber => "bad group number"
  | .unterminatedSet => "unterminated character set"
  | .badRange low high => "bad character range " ++ low ++ "-" ++ high
  | .repeatOrder => "min repeat greater than max repeat"
  | .nothingToRepeat => "nothing to repeat"
  | .multipleRepeat => "multiple repeat"
  | .unexpectedEnd => "unexpected end of pattern"
  | .unknownExtension text => "unknown extension ?" ++ text
  | .tooManyBranches => "conditional backref with more than two branches"
  | .lateFlags => "global flags not at the start of the expression"
  | .unknownFlag => "unknown flag"
  | .localeFlag => "bad inline flags: cannot use 'L' flag with a str pattern"
  | .flagConflict => "bad inline flags: flags 'a', 'u' and 'L' are incompatible"
  | .globalFlagOn => "bad inline flags: cannot turn on global flag"
  | .globalFlagOff => "bad inline flags: cannot turn off global flag"
  | .typeFlagOff => "bad inline flags: cannot turn off flags 'a', 'u' and 'L'"
  | .flagOnAndOff => "bad inline flags: flag turned on and off"
  | .unbalanced => "unbalanced parenthesis"

/-- Why a text is no pattern. -/
inductive ParseFault where
  | at (complaint : Complaint) (offset : Int)
  /-- A condition on what comes before whose length is not fixed. -/
  | lookbehindWidth
  /-- A condition on what comes before that is too long. -/
  | lookbehindLength
  /-- Repetition where it is refused. -/
  | templateRepeat (mode : RepeatMode)
  /-- Flags of the whole pattern that exclude each other. -/
  | characterFlags
  | repeatTooLarge
  | longInteger (digits : Nat)
  | tooDeep
  deriving DecidableEq

/-- The tokens that are left. -/
structure Source where
  next : Option Text
  /-- What stands behind the next token. -/
  rest : Text
  /-- The offset where `rest` begins. -/
  index : Nat
  /-- Whether a backslash with nothing behind it comes after the next token. -/
  dangling : Bool

namespace Source

/-- The offset where the next token begins. -/
def position (s : Source) : Nat := s.index - (s.next.map List.length).getD 0

/-- The source whose next token begins `rest`, which stands at offset `index`. -/
def load (rest : Text) (index : Nat) : Except ParseFault Source :=
  match rest with
  | [] => .ok ⟨none, [], index, false⟩
  | c :: rest =>
    if c.val == 92 then
      match rest with
      | d :: rest => .ok ⟨some [c, d], rest, index + 2, false⟩
      | [] => .error (.at .danglingBackslash index)
    else .ok ⟨some [c], rest, index + 1, false⟩

end Source

/-- What is known while a pattern is read. -/
structure Known where
  source : Source
  /-- The flags of the whole pattern. -/
  flags : List Flag
  /-- The widths of the groups so far; an open group has none yet. -/
  widths : List (Option Width)
  names : List (Text × Nat)
  /-- The number of groups where the condition on what comes before begins. -/
  lookbehind : Option Nat
  /-- Groups that conditions refer to by number, and where. -/
  references : List (Nat × Nat)

abbrev Parse := StateT Known (Except ParseFault)

namespace Parse

/-- The next token. -/
def peek : Parse (Option Text) := do return (← get).source.next

/-- Whether the next token is `token`. -/
def at? (token : Text) : Parse Bool := do return (← peek) == some token

/-- Goes past the next token, which is the result. -/
def take : Parse (Option Text) := do
  let known ← get
  let source ← Source.load known.source.rest known.source.index
  set { known with source := source }
  return known.source.next

/-- Goes past the next token if it is `token`, and tells whether it is. -/
def accept (token : Text) : Parse Bool := do
  if ← at? token then
    let _ ← take
    return true
  else return false

/-- The offset where the next token begins. -/
def position : Parse Nat := do return (← get).source.position

/-- Refuses the pattern at an offset that lies `back` before the next token. -/
def refuse {α : Type} (complaint : Complaint) (back : Int) : Parse α := do
  throw (.at complaint ((← position) - back))

/-- Whether a token is one code point of a class. -/
def isOne (test : CodePoint → Bool) : Option Text → Bool
  | some [c] => test c
  | _ => false

/-- Takes tokens of one code point while they pass a test, at most `count`. -/
def takeWhile (test : CodePoint → Bool) : Nat → Parse Text
  | 0 => return []
  | count + 1 => do
    if isOne test (← peek) then
      let token := (← take).getD []
      return token ++ (← takeWhile test count)
    else return []

/-- Takes the text up to a closing token, which must not be empty; `done` is what has been taken. -/
def takeUntil (closing name : Text) : Nat → Text → Parse Text
  | 0, done => return done
  | steps + 1, done => do
    match ← take with
    | none =>
      if done.isEmpty then refuse (.missing name) 0
      else refuse (.unterminatedName closing) done.length
    | some token =>
      if token == closing then
        if done.isEmpty then refuse (.missing name) 1 else return done
      else takeUntil closing name steps (done ++ token)

/-- The number of tokens that may be left. -/
def budget : Parse Nat := do return (← get).source.rest.length + 2

def isOctal (c : CodePoint) : Bool := 48 ≤ c.val && c.val ≤ 55

def hexDigit? (c : CodePoint) : Option Nat :=
  if c.isAsciiDigit then some (c.val - 48)
  else if 97 ≤ c.val && c.val ≤ 102 then some (c.val - 87)
  else if 65 ≤ c.val && c.val ≤ 70 then some (c.val - 55)
  else none

/-- The number that digits of a base write. -/
def valueIn (base : Nat) (digits : Text) : Nat :=
  digits.foldl (fun n c => base * n + (hexDigit? c).getD 0) 0

/-- The control characters that a letter behind a backslash stands for. -/
def control? (c : CodePoint) : Option CodePoint :=
  match c.toChar with
  | 'a' => some '\x07'
  | 'b' => some '\x08'
  | 'f' => some '\x0c'
  | 'n' => some '\n'
  | 'r' => some '\r'
  | 't' => some '\t'
  | 'v' => some '\x0b'
  | '\\' => some '\\'
  | _ => none

/-- The class that a letter behind a backslash stands for. -/
def category? (c : CodePoint) : Option ClassItem :=
  match c.toChar with
  | 'd' => some (.category false .digit)
  | 'D' => some (.category true .digit)
  | 's' => some (.category false .space)
  | 'S' => some (.category true .space)
  | 'w' => some (.category false .word)
  | 'W' => some (.category true .word)
  | _ => none

/-- The place that a letter behind a backslash stands for. -/
def place? (c : CodePoint) : Option Place :=
  match c.toChar with
  | 'A' => some .textStart
  | 'Z' => some .textStop
  | 'b' => some .wordEdge
  | 'B' => some .notWordEdge
  | _ => none

/-- The code point of an escape with exactly `count` hexadecimal digits. -/
def hexEscape (letter : CodePoint) (count : Nat) : Parse CodePoint := do
  let digits ← takeWhile (fun c => (hexDigit? c).isSome) count
  let escape : Text := '\\' :: letter :: digits
  if digits.length < count then refuse (.incompleteEscape escape) escape.length
  else
    match CodePoint.ofNat? (valueIn 16 digits) with
    | some c => return c
    | none => refuse (.badEscape escape) escape.length

/-- The code point of an octal escape. -/
def octalEscape (digits : Text) : Parse CodePoint := do
  let n := valueIn 8 digits
  let escape : Text := '\\' :: digits
  if n > 255 then refuse (.octalTooLarge escape) escape.length else return CodePoint.ofNat n

/-- A character by its name; no name is known. -/
def namedEscape : Parse CodePoint := do
  if ← accept "\x7b" then
    let name ← takeUntil "\x7d" "character name" (← budget) []
    refuse (.undefinedCharacter name) (name.length + 4)
  else refuse (.missing "\x7b") 0

/-- The code point that a letter behind a backslash stands for by a number or a name, if it does. -/
def numberedEscape? (c : CodePoint) : Parse (Option CodePoint) := do
  match c.toChar with
  | 'x' => return some (← hexEscape c 2)
  | 'u' => return some (← hexEscape c 4)
  | 'U' => return some (← hexEscape c 8)
  | 'N' => return some (← namedEscape)
  | _ => return none

/-- What any other code point behind a backslash stands for: itself, unless it is a letter. -/
def plainEscape (c : CodePoint) : Parse CodePoint := do
  if c.isAsciiLetter || c.isAsciiDigit then refuse (.badEscape ['\\', c]) 2 else return c

/-- An escape in a set. -/
def classEscape (c : CodePoint) : Parse (Option ClassItem) := do
  match control? c with
  | some d => return some (.one d)
  | none =>
    match category? c with
    | some item => return some item
    | none =>
      match ← numberedEscape? c with
      | some d => return some (.one d)
      | none =>
        if isOctal c then
          let more ← takeWhile isOctal 2
          return some (.one (← octalEscape (c :: more)))
        else return some (.one (← plainEscape c))

/-- Whether a group has been closed. -/
def isClosed (group : Nat) : Parse Bool := do
  return ((← get).widths[group]?).any Option.isSome

/-- Refuses to refer to a group of the same condition on what comes before. -/
def requireOutside (group : Nat) : Parse Unit := do
  match (← get).lookbehind with
  | none => return ()
  | some count =>
    if !(← isClosed group) then refuse .openGroup 0
    else if group ≥ count then refuse .lookbehindGroup 0
    else return ()

/-- An escape that begins with a digit other than zero: a group or an octal number. -/
def digitEscape (c : CodePoint) : Parse Node := do
  let second ← takeWhile CodePoint.isAsciiDigit 1
  let third ← if isOctal c && second.any isOctal then takeWhile isOctal 1 else pure []
  if !third.isEmpty then return .literal (← octalEscape (c :: (second ++ third)))
  else
    let digits := c :: second
    let group := valueIn 10 digits
    if group < (← get).widths.length then
      if !(← isClosed group) then refuse .openGroup (digits.length + 1)
      else
        requireOutside group
        return .sameAs group
    else refuse (.invalidGroup group) digits.length

/-- An escape outside of sets. -/
def escape (c : CodePoint) : Parse Node := do
  match category? c with
  | some item => return .among ⟨false, [item]⟩
  | none =>
    match place? c with
    | some place => return .at place
    | none =>
      match control? c with
      | some d => return .literal d
      | none =>
        match ← numberedEscape? c with
        | some d => return .literal d
        | none =>
          if c.val == 48 then
            let more ← takeWhile isOctal 2
            return .literal (CodePoint.ofNat (valueIn 8 more))
          else if c.isAsciiDigit then digitEscape c
          else return .literal (← plainEscape c)

/-- One member of a set that begins with `token`. -/
def classMember (token : Text) : Parse ClassItem := do
  match token with
  | [_, c] => return (← classEscape c).getD (.one c)
  | c :: _ => return .one c
  | [] => return .one default

/-- The items of a set up to its closing bracket, behind those in `done`, which is backwards; the set
begins at offset `start`. -/
def classItems (start : Nat) : Nat → List ClassItem → Parse (List ClassItem)
  | 0, done => return done.reverse
  | steps + 1, done => do
    let unterminated : Parse (List ClassItem) := do
      refuse .unterminatedSet ((← position) - start)
    match ← take with
    | none => unterminated
    | some token =>
      if token == "]" && !done.isEmpty then return done.reverse
      else
        let first ← classMember token
        if ← accept "-" then
          match ← take with
          | none => unterminated
          | some last =>
            if last == "]" then return (.one '-' :: first :: done).reverse
            else
              let second ← classMember last
              let wrong : Parse (List ClassItem) :=
                refuse (.badRange token last) (token.length + 1 + last.length)
              match first, second with
              | .one low, .one high =>
                if high.val < low.val then wrong
                else classItems start steps (.range low high :: done)
              | _, _ => wrong
        else classItems start steps (first :: done)

/-- The items without those that came before. -/
def distinct (items : List ClassItem) : List ClassItem :=
  items.foldl (fun seen item => if seen.contains item then seen else seen ++ [item]) []

/-- A set behind its opening bracket, which stands at offset `start`. -/
def characterSet (start : Nat) : Parse Node := do
  let negated ← accept "^"
  let items := distinct (← classItems start (← budget) [])
  match negated, items with
  | false, [.one c] => return .literal c
  | _, _ => return .among ⟨negated, items⟩

/-- The least and the greatest number of repetitions that braces give, if they do; reading goes on
behind the opening brace otherwise. -/
def braces : Parse (Option (Nat × Option Nat)) := do
  if ← at? "\x7d" then return none
  else
    let before ← get
    let low ← takeWhile CodePoint.isAsciiDigit (← budget)
    let hasComma ← accept ","
    let more ← budget
    let high ← if hasComma then takeWhile CodePoint.isAsciiDigit more else pure low
    if ← accept "\x7d" then
      let amount (digits : Text) : Parse (Option Nat) := do
        if digits.isEmpty then return none
        else if digits.length > NumberText.maxDigits then throw (.longInteger digits.length)
        else if valueIn 10 digits ≥ twoTo 32 - 1 then throw .repeatTooLarge
        else return some (valueIn 10 digits)
      let least := (← amount low).getD 0
      let most ← amount high
      if most.any (· < least) then
        refuse .repeatOrder ((← position) - before.source.position)
      else return some (least, most)
    else
      set before
      return none

/-- The mode that a sign behind a repetition gives. -/
def repeatMode : Parse RepeatMode := do
  if ← accept "?" then return .lazy
  else if ← accept "+" then return .possessive
  else return .greedy

/-- The nodes with the last one repeated; `token` is the token of repetition and `start` the offset
behind it. -/
def repeatLast (token : Text) (start least : Nat) (most : Option Nat) (done : List Node) :
    Parse (List Node) := do
  let back : Int := (← position) - start + token.length
  match done with
  | [] => refuse .nothingToRepeat back
  | .at _ :: _ => refuse .nothingToRepeat back
  | .repeated _ _ _ _ :: _ => refuse .multipleRepeat back
  | last :: before =>
    let body := match last with
      | .group none [] [] body => body
      | node => [node]
    return .repeated (← repeatMode) least most body :: before

/-- Refuses a name that is no identifier. -/
def requireName (name : Text) : Parse Unit := do
  if name.isIdentifier then return () else refuse (.badName name) (name.length + 1)

/-- Opens a group. -/
def openGroup (name : Option Text) : Parse Nat := do
  let known ← get
  let group := known.widths.length
  match name with
  | none => set { known with widths := known.widths ++ [none] }
  | some name =>
    match known.names.lookup name with
    | some old => refuse (.redefined name group old) (name.length + 1)
    | none =>
      set { known with widths := known.widths ++ [none], names := known.names ++ [(name, group)] }
  return group

/-- The widths of groups that are closed. -/
def groupWidths (widths : List (Option Width)) (group : Nat) : Width :=
  (widths[group]?.join).getD ⟨0, 0⟩

/-- Closes a group. -/
def closeGroup (group : Nat) (body : List Node) : Parse Unit :=
  modify fun known =>
    { known with widths := known.widths.set group (some (widthOf (groupWidths known.widths) body)) }

/-- A flag by its letter. -/
def flag? (c : CodePoint) : Option (Option Flag) :=
  match c.toChar with
  | 'i' => some (some .ignoreCase)
  | 'L' => some none
  | 'm' => some (some .multiline)
  | 's' => some (some .dotAll)
  | 'x' => some (some .verbose)
  | 'a' => some (some .ascii)
  | 't' => some (some .template)
  | 'u' => some (some .unicode)
  | _ => none

/-- The flag that a token names. -/
def flagOf (token : Text) : Option (Option Flag) :=
  match token with
  | [c] => flag? c
  | _ => none

/-- Refuses a token where a flag is wanted. -/
def refuseFlag {α : Type} (token what : Text) : Parse α :=
  let letter := !token.isEmpty &&
    token.all fun c => c.isAlphanumeric && !c.isDigit
  refuse (if letter then .unknownFlag else .missing what) token.length

/-- The flags that are turned on, from the token `token` on, and the token behind them. -/
def flagsOn : Nat → List Flag → Text → Parse (List Flag × Text)
  | 0, done, token => return (done, token)
  | steps + 1, done, token => do
    match flagOf token with
    | some (some flag) =>
      let all := flag :: done
      if flag.choosesCharacters && all.any fun f => f.choosesCharacters && f != flag then
        refuse .flagConflict 0
      else
        match ← take with
        | none => refuse (.missing "-, : or )") 0
        | some token =>
          if token == ")" || token == "-" || token == ":" then return (all, token)
          else if (flagOf token).isNone then refuseFlag token "-, : or )"
          else flagsOn steps all token
    | _ => refuse .localeFlag 0

/-- The flags that are turned off, from the token `token` on, up to the colon. -/
def flagsOff : Nat → List Flag → Text → Parse (List Flag)
  | 0, done, _ => return done
  | steps + 1, done, token => do
    match flagOf token with
    | some (some flag) =>
      if flag.choosesCharacters then refuse .typeFlagOff 0
      else
        match ← take with
        | none => refuse (.missing ":") 0
        | some token =>
          if token == ":" then return flag :: done
          else if (flagOf token).isNone then refuseFlag token ":"
          else flagsOff steps (flag :: done) token
    | _ => refuse .typeFlagOff 0

/-- The flags of a group from the token `token` on; `none` if they are those of the whole pattern. -/
def groupFlags (token : Text) : Parse (Option (List Flag × List Flag)) := do
  let steps ← budget
  let (on, token) ← if token == "-" then pure ([], token) else flagsOn steps [] token
  if token == ")" then
    modify fun known => { known with flags := on ++ known.flags }
    return none
  else if on.contains .template then refuse .globalFlagOn 1
  else
    let off ← if token == "-" then
        match ← take with
        | none => refuse (.missing "flag") 0
        | some token =>
          if (flagOf token).isNone then refuseFlag token "flag"
          else flagsOff steps [] token
      else pure []
    if off.contains .template then refuse .globalFlagOff 1
    else if on.any off.contains then refuse .flagOnAndOff 1
    else return some (on, off)

/-- Goes past the closing parenthesis of a group that begins at offset `start`. -/
def closeParenthesis (start : Nat) : Parse Unit := do
  if ← accept ")" then return ()
  else refuse (.missing "), unterminated subpattern") ((← position) - start)

/-- Goes past a comment up to its closing parenthesis. -/
def skipComment (start : Nat) : Nat → Parse Unit
  | 0 => return ()
  | steps + 1 => do
    match ← peek with
    | none => refuse (.missing "), unterminated comment") ((← position) - start)
    | some token =>
      let _ ← take
      if token == ")" then return () else skipComment start steps

/-- Goes past the rest of a line. -/
def skipLine : Nat → Parse Unit
  | 0 => return ()
  | steps + 1 => do
    match ← take with
    | none => return ()
    | some token => if token == "\n" then return () else skipLine steps

/-- The sequences between bars; `sequence` reads one, given whether blanks do not count and whether
it comes first in the whole pattern. -/
def alternatives (sequence : Bool → Bool → Parse (List Node)) (whole : Bool) :
    Nat → Bool → List (List Node) → Parse (List (List Node))
  | 0, _, done => return done.reverse
  | steps + 1, verbose, done => do
    let next ← sequence verbose (whole && done.isEmpty)
    if ← accept "|" then
      let flags := (← get).flags
      let verbose := if whole then flags.contains .verbose else verbose
      alternatives sequence whole steps verbose (next :: done)
    else return (next :: done).reverse

/-- The sequences between bars as one sequence. -/
def choice (sequence : Bool → Bool → Parse (List Node)) (whole verbose : Bool) :
    Parse (List Node) := do
  match ← alternatives sequence whole (← budget) verbose [] with
  | [only] => return only
  | all => return [.choice all]

/-- A reference to a group by its name, behind `(?P=`. -/
def namedReference : Parse Node := do
  let name ← takeUntil ")" "group name" (← budget) []
  requireName name
  match (← get).names.lookup name with
  | none => refuse (.unknownName name) (name.length + 1)
  | some group =>
    if !(← isClosed group) then refuse .openGroup (name.length + 1)
    else
      requireOutside group
      return .sameAs group

/-- The group that a condition asks for, behind `(?(`. -/
def conditionGroup : Parse Nat := do
  let name ← takeUntil ")" "group name" (← budget) []
  if name.isIdentifier then
    match (← get).names.lookup name with
    | none => refuse (.unknownName name) (name.length + 1)
    | some group => return group
  else
    match NumberText.readInt? name.trim with
    | some (.ofNat group) =>
      if group = 0 then refuse .badGroupNumber (name.length + 1)
      else if group ≥ twoTo 30 - 1 then refuse (.invalidGroup group) (name.length + 1)
      else
        let place := (← position) - name.length - 1
        modify fun known =>
          if known.references.any (·.1 == group) then known
          else { known with references := known.references ++ [(group, place)] }
        return group
    | _ => refuse (.badName name) (name.length + 1)

/-- A choice by a group, behind `(?(`; the parenthesis stands at offset `start`. -/
def conditional (sequence : Bool → Bool → Parse (List Node)) (verbose : Bool) (start : Nat) :
    Parse Node := do
  let group ← conditionGroup
  requireOutside group
  let yes ← sequence verbose false
  let hasOther ← accept "|"
  let no ← if hasOther then sequence verbose false else pure []
  if hasOther && (← at? "|") then refuse .tooManyBranches 0
  closeParenthesis start
  return .conditional group yes no

/-- A condition on what follows or comes before, behind its signs. -/
def lookAround (sequence : Bool → Bool → Parse (List Node)) (verbose behind negated : Bool)
    (start : Nat) : Parse Node := do
  let outer := (← get).lookbehind
  if behind && outer.isNone then
    modify fun known => { known with lookbehind := some known.widths.length }
  let body ← choice sequence false verbose
  if behind && outer.isNone then modify fun known => { known with lookbehind := none }
  closeParenthesis start
  return .look behind negated body

/-- The rest of a group whose parenthesis stands at offset `start`: what it holds. -/
def groupBody (sequence : Bool → Bool → Parse (List Node)) (verbose : Bool) (start : Nat) :
    Parse (List Node) := do
  let body ← choice sequence false verbose
  closeParenthesis start
  return body

/-- A numbered group. -/
def capture (sequence : Bool → Bool → Parse (List Node)) (verbose : Bool) (start : Nat)
    (name : Option Text) : Parse Node := do
  let group ← openGroup name
  let body ← groupBody sequence verbose start
  closeGroup group body
  return .group (some group) [] [] body

/-- What a parenthesis begins. -/
inductive Opened where
  | node (node : Node)
  /-- Nothing that matches: a comment. -/
  | nothing
  /-- Flags of the whole pattern. -/
  | flags

/-- What stands behind `(?`. -/
def extension (sequence : Bool → Bool → Parse (List Node)) (verbose : Bool) (start : Nat) :
    Parse Opened := do
  let some token ← take | refuse .unexpectedEnd 0
  if token == "P" then
    if ← accept "<" then
      let name ← takeUntil ">" "group name" (← budget) []
      requireName name
      return .node (← capture sequence verbose start (some name))
    else if ← accept "=" then return .node (← namedReference)
    else
      let some token ← take | refuse .unexpectedEnd 0
      refuse (.unknownExtension ("P" ++ token)) (token.length + 2)
  else if token == ":" then
    return .node (.group none [] [] (← groupBody sequence verbose start))
  else if token == "#" then
    skipComment start (← budget)
    return .nothing
  else if token == "=" then return .node (← lookAround sequence verbose false false start)
  else if token == "!" then return .node (← lookAround sequence verbose false true start)
  else if token == "<" then
    let some token ← take | refuse .unexpectedEnd 0
    if token == "=" then return .node (← lookAround sequence verbose true false start)
    else if token == "!" then return .node (← lookAround sequence verbose true true start)
    else refuse (.unknownExtension ("<" ++ token)) (token.length + 2)
  else if token == "(" then return .node (← conditional sequence verbose start)
  else if token == ">" then return .node (.atomic (← groupBody sequence verbose start))
  else if (flagOf token).isSome || token == "-" then
    match ← groupFlags token with
    | none => return .flags
    | some (on, off) =>
      let verbose := (verbose || on.contains .verbose) && !off.contains .verbose
      return .node (.group none on off (← groupBody sequence verbose start))
  else refuse (.unknownExtension token) (token.length + 1)

/-- What stands behind an opening parenthesis. -/
def opened (sequence : Bool → Bool → Parse (List Node)) (verbose : Bool) (start : Nat) :
    Parse Opened := do
  if ← accept "?" then extension sequence verbose start
  else return .node (← capture sequence verbose start none)

/-- The nodes without plain groups around them. -/
def flattened (nodes : List Node) : List Node :=
  nodes.flatMap fun
    | .group none [] [] body => body
    | node => [node]

def isVerboseBlank (c : CodePoint) : Bool := c.val == 32 || (9 ≤ c.val && c.val ≤ 13)

/-- The nodes up to the end of a sequence, behind those in `done`, which is backwards. -/
def nodes (sequence : Bool → Bool → Parse (List Node)) (first : Bool) :
    Nat → Bool → List Node → Parse (List Node)
  | 0, _, done => return flattened done.reverse
  | steps + 1, verbose, done => do
    match ← peek with
    | none => return flattened done.reverse
    | some token =>
      if token == "|" || token == ")" then return flattened done.reverse
      else
        let start ← position
        let _ ← take
        let add (node : Node) := nodes sequence first steps verbose (node :: done)
        let repeating (least : Nat) (most : Option Nat) := do
          let behind := start + token.length
          nodes sequence first steps verbose (← repeatLast token behind least most done)
        match token with
        | [_, c] => add (← escape c)
        | [c] =>
          if verbose && isVerboseBlank c then nodes sequence first steps verbose done
          else if verbose && c.val == 35 then
            skipLine (← budget)
            nodes sequence first steps verbose done
          else
            match c.toChar with
            | '[' => add (← characterSet start)
            | '?' => repeating 0 (some 1)
            | '*' => repeating 0 none
            | '+' => repeating 1 none
            | '{' =>
              match ← braces with
              | some (least, most) => repeating least most
              | none => add (.literal c)
            | '.' => add .any
            | '^' => add (.at .start)
            | '$' => add (.at .stop)
            | '(' =>
              match ← opened sequence verbose start with
              | .node node => add node
              | .nothing => nodes sequence first steps verbose done
              | .flags =>
                if first && done.isEmpty then
                  nodes sequence first steps ((← get).flags.contains .verbose) done
                else refuse .lateFlags ((← position) - start)
            | _ => add (.literal c)
        | _ => nodes sequence first steps verbose done

/-- One sequence, within `room` levels of groups. -/
def sequence : Nat → Bool → Bool → Parse (List Node)
  | 0, _, _ => throw .tooDeep
  | room + 1, verbose, first => do nodes (sequence room) first (← budget) verbose []

end Parse

mutual

/-- The first fault of a node that shows only when all groups are known. -/
def Node.fault? (groups : Nat → Width) (template : Bool) : Node → Option ParseFault
  | .literal _ | .any | .among _ | .at _ | .sameAs _ => none
  | .group _ _ _ body | .atomic body => faultIn? groups template body
  | .choice alternatives => faultAmong? groups template alternatives
  | .repeated mode _ _ body =>
    if template then some (.templateRepeat mode) else faultIn? groups template body
  | .look behind _ body =>
    let width := widthOf groups body
    if behind && width.low ≥ twoTo 32 then some .lookbehindLength
    else if behind && width.low != width.high then some .lookbehindWidth
    else faultIn? groups template body
  | .conditional _ yes no => (faultIn? groups template yes).or (faultIn? groups template no)

def faultIn? (groups : Nat → Width) (template : Bool) : List Node → Option ParseFault
  | [] => none
  | node :: rest => (node.fault? groups template).or (faultIn? groups template rest)

def faultAmong? (groups : Nat → Width) (template : Bool) : List (List Node) → Option ParseFault
  | [] => none
  | nodes :: rest => (faultIn? groups template nodes).or (faultAmong? groups template rest)

end

/-- The pattern that a text is, within `room` levels of groups. -/
def parse (room : Nat) (t : Text) : Except ParseFault Whole := do
  let source ← Source.load t 0
  let start : Known := ⟨source, [], [some ⟨0, 0⟩], [], none, []⟩
  let (nodes, known) ← (Parse.choice (Parse.sequence room) true false).run start
  if known.flags.contains .ascii && known.flags.contains .unicode then throw .characterFlags
  if known.source.next.isSome then throw (.at .unbalanced known.source.position)
  match known.references.find? fun reference => reference.1 ≥ known.widths.length with
  | some (group, place) => throw (.at (.invalidGroup group) place)
  | none => pure ()
  match faultIn? (Parse.groupWidths known.widths) (known.flags.contains .template) nodes with
  | some fault => throw fault
  | none => pure ()
  return ⟨nodes, known.flags, known.widths.length - 1, Parse.groupWidths known.widths, known.names⟩

/-- A complaint about an offset of a text, with the line and column if there is more than one line. -/
def report (complaint : Complaint) (t : Text) (offset : Int) : Text :=
  let message := complaint.message ++ " at position " ++ Text.ofInt offset
  if t.any fun c => c.val == 10 then
    let front := t.take offset.toNat
    let line := front.countP (fun c => c.val == 10) + 1
    let column := (front.reverse.takeWhile fun c => c.val != 10).length + 1
    message ++ " (line " ++ Text.ofNat line ++ ", column " ++ Text.ofNat column ++ ")"
  else message

end Pattern

end Scriptlet
