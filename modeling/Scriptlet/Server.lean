import Scriptlet.Json
import Scriptlet.LogLevel
import Scriptlet.Setting
import Scriptlet.Telemetry
import Scriptlet.Text.Word

/-
  The server of the tools.

  A server is set up with an address, a level of logging and a way of transport. It keeps a register
  of tools by name, answers two probes, and its routes depend on the transport. Starting it hands an
  address and routes to whoever listens to the network.
-/

namespace Scriptlet

/-- A way of transport. -/
inductive Transport where
  | http
  | streamableHttp
  | sse
  deriving DecidableEq

namespace Transport

def name : Transport → Text
  | .http => "http"
  | .streamableHttp => "streamable-http"
  | .sse => "sse"

/-- The ways of transport by their names. -/
def named : List (Text × Transport) :=
  [Transport.http, .streamableHttp, .sse].map fun t => (t.name, t)

/-- The paths that a way of transport serves. -/
def paths : Transport → List Text
  | .http | .streamableHttp => ["/mcp"]
  | .sse => ["/sse", "/messages"]

end Transport

namespace Server

/-- What a server is set up with. -/
structure Settings where
  host : Text
  port : Int
  logLevel : Text
  logsAccess : Bool
  transport : Transport
  deriving DecidableEq

namespace Settings

def standard : Settings := ⟨"0.0.0.0", 8000, "INFO", false, .http⟩

/-- The names of the settings. -/
def names : List Text :=
  ["mcp_host", "mcp_port", "mcp_log_level", "mcp_access_log", "mcp_transport"]

/-- The settings that are given, or set by variables. -/
def read (given : List (Text × Json)) (env : Environ) : Except (List Issue) Settings :=
  let source : Setting.Source := ⟨given, env.getAnyCase?⟩
  source.finish names <|
    Settings.mk <$> source.optional "mcp_host" Setting.text standard.host
      <*> source.optional "mcp_port" Setting.integer standard.port
      <*> source.optional "mcp_log_level" Setting.text standard.logLevel
      <*> source.optional "mcp_access_log" Setting.switch standard.logsAccess
      <*> source.optional "mcp_transport" (Setting.oneOf Transport.named) standard.transport

end Settings

/-! ## The register of tools -/

/-- Why a tool is not registered. -/
inductive Refusal where
  | badName (name : Text)
  /-- The function of the tool does not say which arguments it takes. -/
  | openArguments
  deriving DecidableEq

def Refusal.message : Refusal → Text
  | .badName name => "Tool name '" ++ name ++ "' contains invalid characters"
  | .openArguments => "Functions with *args are not supported as tools"

/-- Whether a tool can have a name: letters and digits, and underscores and hyphens between them. -/
def isToolName (name : Text) : Bool :=
  let others := name.filter fun c => c.val != 95 && c.val != 45
  !others.isEmpty && others.all CodePoint.isAlphanumeric

/-- The registered names with one more at the end, unless it is there already. -/
def enter (tools : List Text) (name : Text) : List Text :=
  if tools.contains name then tools else tools ++ [name]

/-- Registers a tool; one whose function is refused is not registered afterwards. -/
def register (tools : List Text) (name : Text) (isRefused : Bool) : Except Refusal Unit × List Text :=
  if !isToolName name then (.error (.badName name), tools)
  else if isRefused then (.error .openArguments, tools.filter (· != name))
  else (.ok (), enter tools name)

/-- Registers tools one after the other, up to the first that is refused. -/
def registerAll (tools : List Text) : List Text → Except Refusal (List Text)
  | [] => .ok tools
  | name :: rest =>
    match register tools name false with
    | (.error refusal, _) => .error refusal
    | (.ok (), tools) => registerAll tools rest

/-! ## Answers -/

/-- The paths of the probes. -/
def probePaths : List Text := ["/health", "/ready"]

/-- The answer to a probe, without the time. -/
def probe (tools : List Text) (hasTelemetry : Bool) (path : Text) : Option Json :=
  if path == "/health" then
    some (.object [("status", .text "healthy"), ("tools", .int tools.length),
      ("telemetry", .bool hasTelemetry)])
  else if path == "/ready" then
    some (.object [("status", .text "ready"), ("tools", .array (tools.map .text))])
  else none

/-- The way of transport that is asked for by name, or else the one of the settings. -/
def transportOf (settings : Settings) (asked : Option Text) : Except Text Transport :=
  match asked with
  | none => .ok settings.transport
  | some name =>
    if name.isEmpty then .ok settings.transport
    else
      match Transport.named.lookup name with
      | some t => .ok t
      | none => .error ("Unknown transport: " ++ name)

/-- The paths that a server answers. -/
def routes (t : Transport) : List Text := probePaths ++ t.paths

/-- What is handed to whoever listens to the network. -/
structure Listening where
  host : Text
  port : Int
  logLevel : Text
  logsAccess : Bool
  routes : List Text
  deriving DecidableEq

/-- The name that telemetry of a server is started with. -/
def telemetryService : Text := "minipy-mcp"

/-- What a start of a server asks telemetry and the network for. -/
structure Start where
  /-- The services that telemetry is started for. -/
  telemetry : List Text
  listening : Except Text Listening

/-- Starts a server. -/
def start (settings : Settings) (env : Environ) (asked : Option Text) : Start where
  telemetry := if Telemetry.isWanted env then [telemetryService] else []
  listening := (transportOf settings asked).map fun t =>
    ⟨settings.host, settings.port, settings.logLevel.toLower, settings.logsAccess, routes t⟩

end Server

end Scriptlet
