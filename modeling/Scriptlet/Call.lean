import Scriptlet.Call.Building
import Scriptlet.Call.Chance
import Scriptlet.Call.Clock
import Scriptlet.Call.Inspection
import Scriptlet.Call.Mathematics
import Scriptlet.Call.Notation
import Scriptlet.Call.Reckoning
import Scriptlet.Call.Searching
import Scriptlet.Call.Surroundings
import Scriptlet.Call.Traversal
import Scriptlet.Signature.Table
import Scriptlet.Source

/-
  Calls.

  The arguments are put to the parameters of the function first; what the function then does is the
  matter of the module of its kind. Three functions come back to the run itself: one evaluates a
  text, one executes it, and some call the functions that they are given.
-/

namespace Scriptlet

namespace Call

/-- The list of some texts. -/
def texts (ts : List Text) : Run Value := Run.newList (ts.map .text)

/-- The text that a value is where a text to run is wanted. -/
def scriptText (v : Value) (name : String) : Except Fault Text := do
  let _ ← v.kind
  match v with
  | .text t => return t
  | _ => throw (.badType (name ++ "() arg 1 must be a string"))

/-- The names that a script sees, or those of the attributes of a value. -/
def names (levels : Nat) (v : Option Value) : Run Value := do
  match v with
  | none => texts (← get).vars.names
  | some v => texts (← Run.look fun h => Inspection.attributeNames h levels v)

/-- What a built-in function gives. -/
def builtin (limits : Limits) (room : Room) (f : Builtin) (b : Bound) : Run Value := do
  let levels := room.printing
  let first := b.value 0
  let second := b.value 1
  match f with
  | .print =>
    Surroundings.print limits levels b.rest ((b.named? 0).getD (.text " "))
    return .none
  | .input => Surroundings.input limits levels ((b.value? 0).getD (.text ""))
  | .len => return .int (← Run.look fun h => Inspection.length h first)
  | .type => return .text (← first.kind).name
  | .isinstance =>
    return .bool (← Run.look fun h => Inspection.isInstance h first room.printing second)
  | .hasattr => return .bool (← Run.look fun h => Inspection.attribute? h first second).isSome
  | .getattr => Run.look fun h => Inspection.attributeOr h levels first second (b.value? 2)
  | .setattr =>
    Inspection.setAttribute levels first second (b.value 2)
    return .none
  | .dir => names levels (b.value? 0)
  | .id | .hash => return .int (← Run.look fun h => Inspection.hash h levels first)
  | .str => return .text (← Run.look fun h => h.format levels ((b.value? 0).getD (.text "")))
  | .int => return .int (← ((b.value? 0).getD (.int 0)).toInteger)
  | .float => Building.float ((b.value? 0).getD (.float 0))
  | .bool => return .bool (← Run.look fun h => h.truthy ((b.value? 0).getD (.bool false)))
  | .list => match b.value? 0 with
    | none => Run.newList []
    | some v => Building.list v
  | .dict => match b.value? 0 with
    | none => Run.make (·.newDict #[])
    | some v => Building.dict levels v
  | .set => match b.value? 0 with
    | none => Run.make (·.newSet #[])
    | some v => Building.set v
  | .tuple => match b.value? 0 with
    | none => Run.newTuple []
    | some v => Building.tuple v
  | .abs => Reckoning.absolute first
  | .max => Run.look fun h => do
    Reckoning.extreme h .gt room.levels (← Reckoning.flattened h b.rest "max()")
  | .min => Run.look fun h => do
    Reckoning.extreme h .lt room.levels (← Reckoning.flattened h b.rest "min()")
  | .sum => Reckoning.sum first ((b.value? 1).getD (.int 0))
  | .round => Reckoning.round first ((b.value? 1).getD (.int 0))
  | .pow => Reckoning.power limits first second (b.value 2)
  | .divmod => Reckoning.quotientAndRest first second
  | .range => Reckoning.range limits b.rest
  | .enumerate => Traversal.enumerate first ((b.value? 1).getD (.int 0))
  | .zip => Traversal.zip b.rest
  | .sorted => Traversal.sorted room first ((b.value? 1).getD (.bool false)) (b.value 2)
  | .reversed => Traversal.reversed first
  | .filter => Traversal.filter room first second
  | .map => Traversal.map room first b.rest
  | .any => return .bool (← Run.look fun h => Traversal.any h first)
  | .all => return .bool (← Run.look fun h => Traversal.all h first)
  | .ord => return .int (← Run.look fun h => Building.codeOf h levels first)
  | .chr => return .text (← Building.codePoint first)
  | .ascii => return .text (← Run.look fun h => h.repr levels first).asciiEscaped
  | .repr => return .text (← Run.look fun h => h.repr levels first)
  | .open => Surroundings.openFile levels first ((b.value? 1).getD (.text "r"))
  | .eval => (room.below 2).evaluate (← scriptText first "eval")
  | .exec =>
    (room.below 3).runLines (Source.cleanLines (← scriptText first "exec"))
    return .none

/-- What a library function gives that takes its arguments by position only. -/
def positional (f : LibraryFunction) (arguments : Arguments) : Run Value := do
  let single : Except Fault Value := arguments.single f.title
  match f with
  | .sqrt => Mathematics.real Float.sqrt (← single)
  | .sin => Mathematics.real Float.sin (← single)
  | .cos => Mathematics.real Float.cos (← single)
  | .tan => Mathematics.real Float.tan (← single)
  | .asin => Mathematics.real Float.asin (← single)
  | .acos => Mathematics.real Float.acos (← single)
  | .atan => Mathematics.real Float.atan (← single)
  | .log10 => Run.newFloat (← Mathematics.logarithm Float.log10 (← single))
  | .exp => Mathematics.exponential (← single)
  | .ceil => return .int (← Mathematics.ceiling (← single))
  | .floor => return .int (← Mathematics.floor (← single))
  | .degrees => Mathematics.scaled Mathematics.degreesPerRadian (← single)
  | .radians => Mathematics.scaled Mathematics.radiansPerDegree (← single)
  | .random =>
    arguments.requireNone "Random.random"
    Chance.unit
  | _ => return .none

/-- What a library function gives. -/
def library (room : Room) (f : LibraryFunction) (b : Bound) : Run Value := do
  let levels := room.printing
  let first := b.value 0
  let second := b.value 1
  match f with
  | .log => Mathematics.logarithmTo first second
  | .factorial => return .int (← Mathematics.factorial first)
  | .randint => Chance.between first second
  | .choice => Chance.choice first
  | .shuffle =>
    Chance.shuffle first
    return .none
  | .sample => Chance.sample first second
  | .time => Clock.seconds
  | .now => Clock.now
  | .today => Clock.today
  | .loads => Notation.loads room.levels first
  | .dumps => return .text (← Run.look fun h => Notation.dumps h room.levels first second)
  | .search => Searching.search room.levels first second
  | .matchStart => Searching.matchStart room.levels first second
  | .findall => Searching.findAll room.levels first second
  | .substitute => Searching.substitute room.levels first second (b.value 2)
  | .getcwd => return .text Surroundings.directory
  | .listdir => texts Surroundings.listing
  | .join => return .text (← Run.look fun h => Surroundings.path h levels b.rest)
  | .exists => return .bool true
  | .isfile => return .bool (← Run.look fun h => Surroundings.isFile h levels first)
  | .isdir => return .bool (!(← Run.look fun h => Surroundings.isFile h levels first))
  | .exit => Run.lift (Surroundings.exit ((b.value? 0).getD (.int 0)))
  | _ => return .none

/-- What a function of a record gives that takes its arguments by position only. -/
def positionalMethod (record : Record) (m : Method) (arguments : Arguments) : Run Value := do
  match record, m with
  | .found _ groups names, .start =>
    let index ← arguments.atMostOne "Match.start" "start"
    return .int (← Run.look fun h => Searching.bound h groups names Group.start index)
  | .found _ groups names, .stop =>
    let index ← arguments.atMostOne "Match.end" "end"
    return .int (← Run.look fun h => Searching.bound h groups names Group.stop index)
  | .moment moment, .isoformat => return .text (← Clock.isoText moment arguments)
  | _, _ => return .none

/-- What a function of a record gives. -/
def method (room : Room) (record : Record) (m : Method) (b : Bound) : Run Value := do
  match record, m with
  | .file name _, .read => return .text (Surroundings.readText name)
  | .file name _, .write =>
    let data ← Run.look fun h => h.format room.printing (b.value 0)
    return .text (Surroundings.writeText name data)
  | .file name _, .close => return .text (Surroundings.closeText name)
  | .found subject groups _, .group =>
    Searching.group subject groups ((b.value? 0).getD (.int 0))
  | .found subject groups _, .groups =>
    Run.newTuple ((groups.drop 1).map (Searching.groupText subject))
  | _, _ => return .none

/-- What a function gives for some arguments. -/
def function (limits : Limits) (room : Room) (f : Function) (arguments : Arguments) : Run Value := do
  match f with
  | .builtin f => builtin limits room f (← f.signature.bind arguments)
  | .library f =>
    match f.signature? with
    | some signature => library room f (← signature.bind arguments)
    | none => positional f arguments
  | .method owner m =>
    match (← get).heap.record? owner with
    | none => return .none
    | some record =>
      match m.signature? with
      | some signature => method room record m (← signature.bind arguments)
      | none => positionalMethod record m arguments

end Call

end Scriptlet
