import FormSchema.Log.Template

/-!
# Log records

A `LogRecord` has a few attributes of its own, among them its message, its level and the name of
its logger, and a context of further values. The names of its own attributes are reserved
(`reservedNames`): a value under such a name never counts as context.

A record is written as a line of text or as one JSON object (`LogLayout.line`). In the object the
name, the level, the time and what is said about an exception come after the context, and replace
entries of the same name where they stand. A record with an integer that is too long to be written
has no line, unless the integer is replaced.
-/

namespace FormSchema

/-- Why what is given for an exception is none. -/
inductive TraceFault
  /-- There are fewer than three items. -/
  | tooShort
  /-- The second or the third item is something. -/
  | foreign
  /-- The items of a record have no places. -/
  | unplaced
  /-- There are no items. -/
  | indivisible
deriving DecidableEq, Repr

/-- What a record says about an exception. -/
inductive Trace
  | nothing
  /-- There was none, and the record says so. -/
  | absent
  | malformed (e : TraceFault)
deriving DecidableEq, Repr

/-- What a value says about an exception: where its second and its third item are null, there was
none. The first item, which names the kind of the exception, does not count. -/
def Trace.ofValue (value : LogValue) : Trace :=
  if value.truthy then
    match value with
    | .datum (.list (_ :: .null :: .null :: _)) => .absent
    | .datum (.list items) => .malformed (if items.length < 3 then .tooShort else .foreign)
    | .datum (.record _) => .malformed .unplaced
    | value =>
      match value.text? with
      | some s => .malformed (if s.length < 3 then .tooShort else .foreign)
      | none => .malformed .indivisible
  else .nothing

/-- How writing a record fails. -/
inductive RecordFault
  /-- The message cannot be filled. -/
  | template (e : TemplateFault)
  /-- An entry of the context stands in the way of the message. -/
  | hidden
  /-- What is given for an exception is none. -/
  | trace (e : TraceFault)
  /-- What is to stand on a line of its own is not a text. -/
  | notText
  /-- An integer has too many digits to be written. -/
  | tooLong
deriving DecidableEq, Repr

/-- A context of named values, in order. -/
abbrev LogContext := List (String × LogValue)

/-- A log record. -/
structure LogRecord where
  name : LogValue
  level : LogValue
  message : LogValue
  arguments : Arguments := .none
  trace : Trace := .nothing
  /-- The text of an exception, if it has been written before. -/
  traceText : LogValue := .datum .null
  /-- The text of the calls that led to the record. -/
  stack : LogValue := .datum .null
  /-- The time of the record, if its line shows it. -/
  stamp : Option String := none
  context : LogContext := []

/-- The names of the attributes that records have. -/
def reservedNames : List String :=
  ["name", "msg", "args", "levelname", "levelno", "pathname", "filename", "module", "exc_info",
    "exc_text", "stack_info", "lineno", "funcName", "created", "msecs", "relativeCreated",
    "thread", "threadName", "processName", "process", "message", "asctime"]

namespace LogRecord

/-- The record with an attribute or an entry of its context replaced. Attributes that no line
shows are left as they are. -/
def setAttribute (r : LogRecord) (key : String) (value : LogValue) : LogRecord :=
  match key with
  | "name" => { r with name := value }
  | "levelname" => { r with level := value }
  | "msg" => { r with message := value }
  | "args" => { r with arguments := .single value }
  | "exc_info" => { r with trace := .ofValue value }
  | "exc_text" => { r with traceText := value }
  | "stack_info" => { r with stack := value }
  | key =>
    if reservedNames.contains key then r
    else { r with context := putEntry r.context key value }

/-- The name under which an entry of the context stands in the way of the message. -/
def messageAccess : String := "getMessage"

/-- The message with its arguments. -/
def text (r : LogRecord) : Except RecordFault String :=
  if r.context.any fun (key, _) => key == messageAccess then .error .hidden
  else do
    let template ← writing .tooLong r.message.numbers r.message.display
    (Template.fill template r.arguments).mapError .template

end LogRecord

/-- How records are laid out. -/
structure LogLayout where
  /-- Whether a record is one JSON object. -/
  json : Bool
  includeLevel : Bool
deriving DecidableEq, Repr

namespace LogLayout

/-- What is said where there was no exception. -/
def noExceptionText : String := "NoneType: None"

/-- A text on a line of its own behind another one. -/
def appended (text : String) (more : LogValue) : Except RecordFault String :=
  if more.truthy then
    match more.text? with
    | some s => .ok (if text.toList.getLast? == some '\n' then text ++ s else text ++ "\n" ++ s)
    | none => .error .notText
  else .ok text

/-- The text about an exception. -/
def traceValue (r : LogRecord) : Except RecordFault LogValue :=
  if r.traceText.truthy then .ok r.traceText
  else
    match r.trace with
    | .nothing => .ok r.traceText
    | .absent => .ok (.text noExceptionText)
    | .malformed e => .error (.trace e)

/-- An entry of the context in a line of text. -/
def contextEntry (entry : String × LogValue) : String :=
  entry.1 ++ "=" ++ entry.2.inLine

/-- A text behind the time of a record, if its line shows it. -/
def stamped (r : LogRecord) (text : String) : String :=
  match r.stamp with
  | some time => time ++ " " ++ text
  | none => text

/-- A record as text: its time, the message, its level, what is said about exceptions, and the
context. -/
def textLine (l : LogLayout) (r : LogRecord) : Except RecordFault String := do
  let message ← r.text
  let message := stamped r message
  let leveled ←
    if l.includeLevel then
      writing .tooLong r.level.numbers (message ++ " [" ++ r.level.display ++ "]")
    else .ok message
  let traced ← appended leveled (← traceValue r)
  let stacked ← appended traced r.stack
  if r.context.isEmpty then return stacked
  else
    writing .tooLong (r.context.flatMap fun (_, v) => v.numbers)
      (stacked ++ " " ++ Text.joined " " (r.context.map contextEntry))

/-- The entries about an exception. -/
def traceEntries : Trace → Except RecordFault (List (String × Datum))
  | .nothing => .ok []
  | .absent => .ok [("exception", .text noExceptionText), ("error", .text "None")]
  | .malformed e => .error (.trace e)

/-- The entry for the time of a record, if its line shows it. -/
def stampEntries (r : LogRecord) : List (String × Datum) :=
  match r.stamp with
  | some time => [("timestamp", .text time)]
  | none => []

/-- The entries of a record as an object: the message, the context, the name, the level, the time,
and what is said about an exception. -/
def jsonEntries (l : LogLayout) (r : LogRecord) : Except RecordFault (List (String × Datum)) := do
  let message ← r.text
  let context := r.context.map fun (k, v) => (k, v.toDatum)
  let named := putEntry (putEntries [("message", .text message)] context) "name" r.name.toDatum
  let leveled := if l.includeLevel then putEntry named "level" r.level.toDatum else named
  return putEntries (putEntries leveled (stampEntries r)) (← traceEntries r.trace)

/-- A record as an object. -/
def jsonLine (l : LogLayout) (r : LogRecord) : Except RecordFault String := do
  let entries ← jsonEntries l r
  writing .tooLong (Datum.record entries).numbers (Datum.record entries).literal

/-- A record as one line, without its end. -/
def line (l : LogLayout) (r : LogRecord) : Except RecordFault String :=
  if l.json then jsonLine l r else textLine l r

end LogLayout

end FormSchema
