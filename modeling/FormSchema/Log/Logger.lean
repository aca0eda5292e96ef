import FormSchema.Log.Record
import FormSchema.Log.Settings

/-!
# Loggers

Loggers that are bound from one another share a name, a level and an output; each has bound
values of its own. A scope adds values to one logger until it is closed, and scopes close in the
reverse of the order in which they were opened. `LogState` is the state of such a family: what a
record carries are the bound values, the values of the scopes and those of the call, later ones
first in rank.

Where the console is off, warnings and graver records are still written, as bare messages.
-/

namespace FormSchema

/-- One logger: the values bound to it and those of its open scopes. -/
structure Logger where
  bound : LogContext := []
  inScope : LogContext := []

/-- The state of loggers that share a name and an output. -/
structure LogState where
  name : String
  level : LogLevel
  settings : LogSettings
  loggers : List Logger
  /-- The open scopes, the innermost first: the logger of each, and its values before it. -/
  opened : List (Nat × LogContext) := []
  /-- The time as lines show it, if there is a clock. -/
  clock : Option String := none

/-- How an operation on loggers fails. -/
inductive LogFailure
  /-- No level has the name. -/
  | unknownLevel (name : String)
  /-- A value is named like a parameter of the operation. -/
  | takenName
  /-- There is no logger or no open scope to work on. -/
  | missing
  /-- A record cannot be written. -/
  | record (e : RecordFault)
deriving DecidableEq, Repr

namespace LogState

/-- One logger with some settings. -/
def start (name : String) (settings : LogSettings) : LogState :=
  { name, level := settings.level, settings, loggers := [{}] }

/-- The layout of the output. -/
def layout (s : LogState) : LogLayout :=
  ⟨s.settings.jsonFormat, s.settings.includeLevel⟩

/-- The logger at an index. -/
def loggerAt (s : LogState) (index : Nat) : Except LogFailure Logger :=
  match s.loggers[index]? with
  | some logger => .ok logger
  | none => .error .missing

/-- Fails if a value is named like a parameter. -/
def checkNames (taken : List String) (values : LogContext) : Except LogFailure Unit :=
  if values.any fun (key, _) => taken.contains key then .error .takenName else .ok ()

/-- The level with a name. -/
def levelNamed (name : String) : Except LogFailure LogLevel :=
  match LogLevel.parse? name with
  | some level => .ok level
  | none => .error (.unknownLevel name)

/-! ## Writing -/

/-- The name of a value in a record: a reserved name is changed. -/
def contextKey (key : String) : String :=
  if reservedNames.contains key then "ctx_" ++ key else key

/-- The values that a call through a logger carries. -/
def Logger.combined (l : Logger) (values : LogContext) : LogContext :=
  putEntries (putEntries (putEntries [] l.bound) l.inScope) values

/-- What the values say about an exception. -/
def traceOf (values : LogContext) : Trace :=
  match values.lookup "exc_info" with
  | some v => if v.truthy then .absent else .nothing
  | none => .nothing

/-- The context of a record from the values of a call. -/
def contextOf (values : LogContext) : LogContext :=
  putEntries [] ((values.filter fun (key, _) => key != "exc_info").map fun (key, v) =>
    (contextKey key, v))

/-- The time that lines show, if the settings want it. -/
def stamp (s : LogState) : Option String :=
  s.clock.filter fun _ => s.settings.includeTimestamp

/-- The record of a call through a logger. -/
def recordOf (s : LogState) (l : Logger) (level : LogLevel) (message : String)
    (values : LogContext) : LogRecord :=
  let combined := Logger.combined l values
  { name := .text s.name, level := .text level.name, message := .text message,
    trace := traceOf combined, stamp := s.stamp, context := contextOf combined }

/-- The line of a bare message. -/
def bareLine (r : LogRecord) : Except RecordFault String :=
  LogLayout.textLine ⟨false, false⟩ { r with stamp := none, context := [] }

/-- What is written for a record: a line of the output, or a bare message if there is none and
the record is grave enough. -/
def written (s : LogState) (level : LogLevel) (r : LogRecord) : Except RecordFault String :=
  if s.settings.consoleEnabled then (s.layout.line r).map fun line => line ++ "\n"
  else if LogLevel.warning.rank ≤ level.rank then (bareLine r).map fun line => line ++ "\n"
  else .ok ""

/-- The parameters of a call that logs. -/
def logParameters : List String := ["message", "self", "msg", "level"]

/-- What a call through a logger writes: nothing below the level of the loggers. -/
def log (s : LogState) (index : Nat) (level : LogLevel) (message : String)
    (values : LogContext) : Except LogFailure String := do
  let logger ← s.loggerAt index
  checkNames logParameters values
  if level.rank < s.level.rank then return ""
  else (s.written level (s.recordOf logger level message values)).mapError .record

/-! ## Binding and scopes -/

/-- One more logger, with more values bound than the one it comes from. -/
def bind (s : LogState) (index : Nat) (values : LogContext) : Except LogFailure LogState := do
  let logger ← s.loggerAt index
  checkNames ["self"] values
  return { s with loggers := s.loggers ++ [⟨putEntries logger.bound values, []⟩] }

/-- The loggers with the values in scope of one of them replaced. -/
def setScoped (loggers : List Logger) (index : Nat) (values : LogContext) : List Logger :=
  loggers.modify index fun l => { l with inScope := values }

/-- Opens a scope of a logger. -/
def enter (s : LogState) (index : Nat) (values : LogContext) : Except LogFailure LogState := do
  let logger ← s.loggerAt index
  checkNames ["self"] values
  return { s with
    loggers := setScoped s.loggers index (putEntries logger.inScope values)
    opened := (index, logger.inScope) :: s.opened }

/-- Closes the innermost open scope. -/
def leave (s : LogState) : Except LogFailure LogState :=
  match s.opened with
  | [] => .error .missing
  | (index, before) :: rest =>
    .ok { s with loggers := setScoped s.loggers index before, opened := rest }

/-! ## Levels and new loggers -/

/-- Sets the level of the loggers by its name. -/
def setLevel (s : LogState) (name : String) : Except LogFailure LogState :=
  (levelNamed name).map fun level => { s with level }

/-- A logger that is made anew by its name: its settings, with the named level if one is given.
If it has the name of the family, it replaces the settings of the family as well. -/
def newLogger (s : LogState) (name : String) (level : Option String) :
    Except LogFailure (LogSettings × LogState) := do
  let default : LogSettings := {}
  let level ← match level with
    | some name => levelNamed name
    | none => pure default.level
  let settings := { default with level }
  return (settings, if name == s.name then { s with level, settings } else s)

end LogState

end FormSchema
