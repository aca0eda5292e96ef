import FormSchema.Settings

/-!
# Log levels and settings

There are five levels, from debug to critical. A level is read in any case.

The settings of logging say which records are written and how. They are loaded like other
settings, from given values and from the environment.
-/

namespace FormSchema

/-! ## Levels -/

/-- How grave a log record is. -/
inductive LogLevel
  | debug
  | info
  | warning
  | error
  | critical
deriving DecidableEq, Repr

namespace LogLevel

/-- The name of a level. -/
def name : LogLevel → String
  | debug => "DEBUG"
  | info => "INFO"
  | warning => "WARNING"
  | error => "ERROR"
  | critical => "CRITICAL"

/-- The number of a level; a graver level has a greater one. -/
def rank : LogLevel → Nat
  | debug => 10
  | info => 20
  | warning => 30
  | error => 40
  | critical => 50

/-- The level with a name, in any case. -/
def parse? (s : String) : Option LogLevel :=
  match String.ofList (Unicode.upperAll s.toList) with
  | "DEBUG" => some debug
  | "INFO" => some info
  | "WARNING" => some warning
  | "ERROR" => some error
  | "CRITICAL" => some critical
  | _ => none

/-- What is said about a text that names no level. -/
def unknownText (s : String) : String :=
  "Invalid log level: " ++ s

end LogLevel

/-! ## Settings -/

/-- The settings of logging. -/
structure LogSettings where
  level : LogLevel := .info
  jsonFormat : Bool := false
  includeTimestamp : Bool := true
  includeLevel : Bool := true
  consoleEnabled : Bool := true
  fileEnabled : Bool := false
  filePath : Option String := none
deriving DecidableEq, Repr

namespace LogSettings

/-- The names of the settings. -/
def names : List String :=
  ["level", "json_format", "include_timestamp", "include_level", "console_enabled",
    "file_enabled", "file_path"]

/-- Reads settings; what is not given has its default. -/
def read (es : Entries) : Checked LogSettings :=
  let default : LogSettings := {}
  (((((((Checked.valid LogSettings.mk).and
    (es.withDefault "level" (fun d => d.text? >>= LogLevel.parse?) default.level)).and
    (es.withDefault "json_format" Datum.truth? default.jsonFormat)).and
    (es.withDefault "include_timestamp" Datum.truth? default.includeTimestamp)).and
    (es.withDefault "include_level" Datum.truth? default.includeLevel)).and
    (es.withDefault "console_enabled" Datum.truth? default.consoleEnabled)).and
    (es.withDefault "file_enabled" Datum.truth? default.fileEnabled)).and
    (es.nullable "file_path" Datum.text?)

/-- Loads settings from given entries and an environment. -/
def load (given : Entries) (env : Environment) : Result LogSettings :=
  (read (withEnvironment given env "formsmith_logging_" names)).toResult .logging

/-- How many outputs a logger with the settings has. -/
def outputCount (s : LogSettings) : Nat :=
  if s.consoleEnabled then 1 else 0

/-- The record of settings. -/
def toDatum (s : LogSettings) : Datum :=
  .record [
    ("level", .text s.level.name),
    ("json_format", .bool s.jsonFormat),
    ("include_timestamp", .bool s.includeTimestamp),
    ("include_level", .bool s.includeLevel),
    ("console_enabled", .bool s.consoleEnabled),
    ("file_enabled", .bool s.fileEnabled),
    ("file_path", .ofText? s.filePath)]

end LogSettings

end FormSchema
