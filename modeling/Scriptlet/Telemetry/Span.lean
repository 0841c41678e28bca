import Scriptlet.Json
import Scriptlet.Fault

/-
  Spans of tool calls.

  Spans are opened and ended like brackets: an end belongs to the span that was opened last and is
  still open, and an end without an open span does nothing. An ended span tells how it went, and if
  it is that of a tool, the call is counted. Nothing is recorded before telemetry has started.

  What spans are started and ended with knows one current span, inside of which the next one starts.
  Whoever makes a span current keeps what was current before, to put it back in the end. That is a
  library; what is known of it are the laws of an `Sdk`, and `Tracer.sdk` is the one that runs here.
-/

namespace Scriptlet

namespace Telemetry

/-- What a span tells about itself, by name. -/
abbrev Attributes := List (Text × Json)

/-- Whether a value stands for nothing. -/
def isNull : Json → Bool
  | .null => true
  | _ => false

/-- A failure as a span records it: the name of its kind and its text. The text of a failure can be made;
an end with one whose text cannot is `Recording.finishUntold`. -/
structure Exception where
  kind : Text
  text : Text
  deriving DecidableEq

/-- A span that has been started. -/
structure Span where
  /-- How many spans were started before it. -/
  number : Nat
  /-- The number of the span that it was started inside of. -/
  parent : Option Nat
  name : Text
  attributes : Attributes

/-- A span that has ended. -/
structure EndedSpan extends Span where
  /-- The failure that ended the span; without one it ended well. -/
  failure : Option Exception

/-- Whether the span was started inside another one. -/
def EndedSpan.isInner (s : EndedSpan) : Bool := s.parent.isSome

/-- What can be seen of what starts spans and takes them when they end. -/
structure Tracer where
  /-- The number of spans that have been started. -/
  started : Nat
  /-- The number of the span that is current. -/
  current : Option Nat
  /-- The spans that have ended, the one ended last at the end. -/
  ended : List EndedSpan

namespace Tracer

/-- Nothing has been started. -/
def empty : Tracer := ⟨0, none, []⟩

/-- A new span inside the current one. -/
def start (t : Tracer) (name : Text) (attributes : Attributes) : Span × Tracer :=
  (⟨t.started, t.current, name, attributes⟩, { t with started := t.started + 1 })

/-- Makes a span current; gives what was current before. -/
def attach (t : Tracer) (span : Span) : Option Nat × Tracer :=
  (t.current, { t with current := some span.number })

/-- Makes current what was current before. -/
def detach (t : Tracer) (before : Option Nat) : Tracer := { t with current := before }

/-- Ends a span, with the failure that ended it. -/
def finish (t : Tracer) (span : Span) (failure : Option Exception) : Tracer :=
  { t with ended := t.ended ++ [{ span with failure := failure }] }

end Tracer

/-- What starts spans, makes them current and takes them when they end, seen through a `Tracer`. A span that
is made current gives a token to put back what was current before. What ending and putting back do is known
for spans that are used like brackets: the one made current last, which has not ended, comes first. -/
structure Sdk where
  State : Type
  Handle : Type
  Token : Type
  initial : State
  start : State → Text → Attributes → Handle × State
  attach : State → Handle → Token × State
  finish : State → Handle → Option Exception → State
  detach : State → Token → State
  view : State → Tracer
  span : Handle → Span
  /-- What was current before the token was given. -/
  before : Token → Option Nat
  /-- The attributes that a span keeps of those that it is started with. -/
  kept : Attributes → Attributes
  /-- The spans that have been made current one inside the other and have not ended, the last one first. -/
  Holds : State → List (Handle × Token) → Prop
  view_initial : view initial = .empty
  holds_initial : Holds initial []
  start_eq : ∀ s name attributes,
    (span (start s name attributes).1, view (start s name attributes).2) =
      (view s).start name (kept attributes)
  attach_eq : ∀ s handle,
    (before (attach s handle).1, view (attach s handle).2) = (view s).attach (span handle)
  finish_eq : ∀ {s handle token outer} failure, Holds s ((handle, token) :: outer) →
    view (finish s handle failure) = (view s).finish (span handle) failure
  detach_eq : ∀ {s handle token outer} failure, Holds s ((handle, token) :: outer) →
    view (detach (finish s handle failure) token) =
      (view (finish s handle failure)).detach (before token)
  holds_attach : ∀ {s outer} name attributes, Holds s outer →
    let (handle, started) := start s name attributes
    let (token, attached) := attach started handle
    Holds attached ((handle, token) :: outer)
  holds_detach : ∀ {s handle token outer} failure, Holds s ((handle, token) :: outer) →
    Holds (detach (finish s handle failure) token) outer

namespace Tracer

/-- Whether a value by itself can be an attribute. -/
def isSimple : Json → Bool
  | .text _ | .int _ | .bool _ | .float _ => true
  | _ => false

/-- Whether two values are of one type. -/
def sameType : Json → Json → Bool
  | .text _, .text _ | .int _, .int _ | .bool _, .bool _ | .float _, .float _ => true
  | _, _ => false

/-- Whether an attribute is kept: it has a name, and its value is simple or a list of simple values of
one type. -/
def isKept (entry : Text × Json) : Bool :=
  !entry.1.isEmpty &&
    match entry.2 with
    | .array items =>
      match items.filter fun item => !isNull item with
      | [] => true
      | first :: rest => isSimple first && rest.all (sameType first)
    | value => isSimple value

/-- The greatest number of attributes of a span. -/
def maxAttributes : Nat := 128

/-- The attributes that are kept; those set first are dropped if there are too many. -/
def kept (attributes : Attributes) : Attributes :=
  let all := attributes.filter isKept
  all.drop (all.length - maxAttributes)

/-- A tracer by itself, which does not ask how spans are used. -/
@[reducible]
def sdk : Sdk where
  State := Tracer
  Handle := Span
  Token := Option Nat
  initial := empty
  start t name attributes := t.start name (kept attributes)
  attach := attach
  finish := finish
  detach := detach
  view t := t
  span s := s
  before token := token
  kept := kept
  Holds _ _ := True
  view_initial := rfl
  holds_initial := trivial
  start_eq _ _ _ := rfl
  attach_eq _ _ := rfl
  finish_eq _ _ := rfl
  detach_eq _ _ := rfl
  holds_attach _ _ _ := trivial
  holds_detach _ _ := trivial

end Tracer

/-- The attributes with one of them set. -/
def setAttribute (attributes : Attributes) (entry : Text × Json) : Attributes :=
  if attributes.any (·.1 == entry.1) then
    attributes.map fun old => if old.1 == entry.1 then entry else old
  else attributes ++ [entry]

/-- The attributes that a span of a server is started with, perhaps for a tool, with further ones. -/
def attributesOf (server : Text) (tool : Option Text) (further : Attributes) : Attributes :=
  let ofServer : Attributes := [("mcp.server.name", .text server)]
  let ofTool : Attributes := match tool with
    | some name => if name.isEmpty then [] else [("tool.name", .text name)]
    | none => []
  (further.filter fun entry => !isNull entry.2).foldl setAttribute (ofServer ++ ofTool)

/-- What is kept of a span that has been opened. -/
structure OpenSpan (sdk : Sdk) where
  handle : sdk.Handle
  token : sdk.Token
  tool : Option Text
  hasEnded : Bool

/-- What calls of tools are counted by. -/
structure CallLabels where
  server : Text
  tool : Text
  isSuccess : Bool
  deriving DecidableEq

/-- What has been recorded. -/
structure Recording (sdk : Sdk) where
  isStarted : Bool
  server : Text
  state : sdk.State
  /-- The open spans, the one opened last first. -/
  spans : List (OpenSpan sdk)
  /-- The labels of the calls of tools that have ended, in order. -/
  calls : List CallLabels

/-- What has been recorded with a tracer by itself. -/
abbrev Recorder := Recording Tracer.sdk

namespace Recording

variable {sdk : Sdk}

/-- A recording in which nothing has been recorded. -/
def empty (isStarted : Bool) (server : Text) : Recording sdk :=
  ⟨isStarted, server, sdk.initial, [], []⟩

/-- What can be seen of the spans. -/
def seen (r : Recording sdk) : Tracer := sdk.view r.state

/-- The spans that have ended, the one ended last at the end. -/
def ended (r : Recording sdk) : List EndedSpan := r.seen.ended

/-- Opens a span and makes it current. -/
def begin (r : Recording sdk) (name : Text) (tool : Option Text) (further : Attributes) :
    Recording sdk :=
  if r.isStarted then
    let (handle, state) := sdk.start r.state name (attributesOf r.server tool further)
    let (token, state) := sdk.attach state handle
    { r with state := state, spans := ⟨handle, token, tool, false⟩ :: r.spans }
  else r

/-- Counts the call of a tool; without a tool or its name there is none. -/
def countCall (r : Recording sdk) (tool : Option Text) (isSuccess : Bool) : Recording sdk :=
  match tool with
  | none => r
  | some name =>
    if name.isEmpty then r else { r with calls := r.calls ++ [⟨r.server, name, isSuccess⟩] }

/-- Ends the span that was opened last, with the failure that ended it. -/
def finish (r : Recording sdk) (failure : Option Exception) : Recording sdk :=
  if r.isStarted then
    match r.spans with
    | [] => r
    | top :: outer =>
      if top.hasEnded then r
      else
        let r := { r with spans := { top with hasEnded := true } :: outer }
        let r := { r with state := sdk.finish r.state top.handle failure }
        let r := { r with state := sdk.detach r.state top.token }
        let r := r.countCall top.tool failure.isNone
        { r with spans := r.spans.tail }
  else r

/-- Ends the span that was opened last with a failure whose text cannot be made. The end stops there: the
span counts as ended, and nothing else has been done about it. -/
def finishUntold (r : Recording sdk) : Recording sdk :=
  if r.isStarted then
    match r.spans with
    | [] => r
    | top :: outer => { r with spans := { top with hasEnded := true } :: outer }
  else r

end Recording

end Telemetry

end Scriptlet
