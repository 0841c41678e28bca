import Scriptlet.LogLevel
import Scriptlet.Setting

/-
  Telemetry: whether it is wanted, what it is configured with, and its start.

  Telemetry is wanted when it is not switched off and a service and an endpoint are named. It starts
  at most once; a start may name the service if nothing has named it before. A start that does not
  happen may still have named the service.
-/

namespace Scriptlet

namespace Telemetry

/-- The variable that names the service. -/
def serviceVariable : Text := "OTEL_SERVICE_NAME"

/-- The variable that names the endpoint. -/
def endpointVariable : Text := "OTEL_EXPORTER_OTLP_ENDPOINT"

/-- The variable that switches telemetry off. -/
def switchVariable : Text := "OTEL_SDK_DISABLED"

/-- The setting that the variable for the switch sets. -/
def switchSetting : Text := "otel_sdk_disabled"

/-- The variable that names the level that records are exported from. -/
def levelVariable : Text := "LOG_LEVEL"

/-- The value of a variable, empty if it is not set. -/
def valueOf (env : Environ) (name : Text) : Text := (env.get? name).getD []

/-- Whether telemetry is switched off. -/
def isDisabled (env : Environ) : Bool :=
  let offWords : List Text := ["true", "1", "yes"]
  offWords.contains (valueOf env switchVariable).toLower

/-- Whether a service and an endpoint are named. -/
def isNamed (env : Environ) : Bool :=
  !(valueOf env serviceVariable).isEmpty && !(valueOf env endpointVariable).isEmpty

/-- Whether telemetry is to be started. -/
def isWanted (env : Environ) : Bool := !isDisabled env && isNamed env

/-- The level that records are exported from. -/
def exportLevel (env : Environ) : LogLevel :=
  LogLevel.among LogLevel.exportNames ((env.get? levelVariable).getD "INFO")

/-- What telemetry is configured with. -/
structure Config where
  serviceName : Text
  endpoint : Text
  isDisabled : Bool
  resourceAttributes : Text
  deriving DecidableEq

namespace Config

/-- The configuration that variables set, as a reader of settings gives it. -/
def readBy (reader : Setting.Reader) (env : Environ) : Except (List Issue) Config :=
  let source : Setting.Source := ⟨[], reader.find? env⟩
  source.finish [] <|
    Config.mk <$> source.required "otel_service_name"
      <*> source.required "otel_exporter_otlp_endpoint"
      <*> source.optional switchSetting reader.switch false
      <*> source.optional "otel_resource_attributes" Setting.text []

/-- The configuration that variables set. -/
def read (env : Environ) : Except (List Issue) Config := readBy .standard env

/-- Whether telemetry is switched on. -/
def isEnabled (config : Config) : Bool := !config.isDisabled

end Config

/-- A start of telemetry: the name of the service and the level that records are exported from. -/
structure Started where
  service : Text
  level : LogLevel
  deriving DecidableEq

/-- The variables of a process and how telemetry was started in it, if it was. -/
structure Setup where
  environ : Environ
  started : Option Started

namespace Setup

/-- Whether telemetry has been started. -/
def isEnabled (p : Setup) : Bool := p.started.isSome

/-- The process with the service named, if a name is given and there is none; nothing if no variable can
have the name. -/
def nameService? (p : Setup) (service : Option Text) : Option Setup :=
  match service with
  | none => some p
  | some name =>
    if name.isEmpty || !(valueOf p.environ serviceVariable).isEmpty then some p
    else if Environ.admits name then some { p with environ := p.environ.set serviceVariable name }
    else none

/-- The service that a configuration names. -/
def serviceOf (config : Config) : Text :=
  if config.serviceName.isEmpty then "unknown_service" else config.serviceName

/-- Starts telemetry, perhaps with a name for the service; tells whether it started now. The
configuration is what a reader of settings gives. -/
def startBy (reader : Setting.Reader) (p : Setup) (service : Option Text) : Bool × Setup :=
  if p.isEnabled || isDisabled p.environ then (false, p)
  else
    match p.nameService? service with
    | none => (false, p)
    | some p =>
      if !isNamed p.environ then (false, p)
      else
        match Config.readBy reader p.environ with
        | .error _ => (false, p)
        | .ok config =>
          (true, { p with started := some ⟨serviceOf config, exportLevel p.environ⟩ })

/-- A start with the configuration that variables set. -/
def start (p : Setup) (service : Option Text) : Bool × Setup := p.startBy .standard service

end Setup

/-- A record of a log. -/
structure LogRecord where
  logger : Text
  level : LogLevel
  text : Text
  /-- The logger that the record names, if it names one by itself. -/
  named : Option Text

/-- A record as it is exported. -/
structure Exported where
  text : Text
  severity : Text
  logger : Text
  deriving DecidableEq

/-- The name of a logger; the one without a name is the root. -/
def loggerName (name : Text) : Text := if name.isEmpty then "root" else name

/-- What is exported of some records once telemetry has started. -/
def exported (started : Option Started) (records : List LogRecord) : List Exported :=
  match started with
  | none => []
  | some s =>
    (records.filter fun record => record.level ≥ s.level).map fun record =>
      ⟨record.text, record.level.severity, record.named.getD (loggerName record.logger)⟩

end Telemetry

end Scriptlet
