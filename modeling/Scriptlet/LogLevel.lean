import Scriptlet.Text.Case

/-
  Levels of logging.

  A level is a number; records below the level of a logger are dropped. The levels have names, which
  are read in letters of any case.
-/

namespace Scriptlet

/-- A level of logging. -/
abbrev LogLevel := Nat

namespace LogLevel

def notset : LogLevel := 0
def debug : LogLevel := 10
def info : LogLevel := 20
def warning : LogLevel := 30
def error : LogLevel := 40
def critical : LogLevel := 50

/-- The levels that records are exported from. -/
def exportNames : List (Text × LogLevel) :=
  [("DEBUG", debug), ("INFO", info), ("WARNING", warning), ("WARN", warning), ("ERROR", error)]

/-- The further levels that loggers are set to. -/
def furtherNames : List (Text × LogLevel) :=
  [("CRITICAL", critical), ("FATAL", critical), ("NOTSET", notset)]

/-- The levels that loggers are set to. -/
def loggerNames : List (Text × LogLevel) := exportNames ++ furtherNames

/-- The level with a name, the one for information if there is none. -/
def among (names : List (Text × LogLevel)) (name : Text) : LogLevel :=
  (names.lookup name.toUpper).getD info

/-- The level that a logger is set to by a name. -/
def ofName (name : Text) : LogLevel := among loggerNames name

/-- The name of the severity of records at a level. -/
def severity (level : LogLevel) : Text :=
  if level = warning then "WARN"
  else
    match loggerNames.find? fun entry => entry.2 = level with
    | some (name, _) => name
    | none => "Level " ++ Text.ofNat level

/-- The loggers of this program, which follow the level that is asked for. -/
def ownLoggers : List Text := ["root", "interpreter", "mcptools", "telemetry"]

/-- The loggers of others, which are kept quieter unless everything is asked for. -/
def otherLoggers : List Text := ["httpx", "httpcore", "mcp", "fastmcp"]

/-- The levels of all loggers when a level is asked for by name. -/
def configured (name : Text) : List (Text × LogLevel) :=
  let level := ofName name
  let others := if level > debug then warning else notset
  ownLoggers.map (fun logger => (logger, level)) ++ otherLoggers.map fun logger => (logger, others)

end LogLevel

end Scriptlet
