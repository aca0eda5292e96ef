import FormSchema.Field.Form
import FormSchema.Log.Settings
import FormSchema.Log.Moment

/-!
# Values in log records

A log record carries plain data, and levels, days, moments and steps of forms as values of their
own. A value is written in four ways: for itself (`display`), inside other values (`nested`), as a
literal (`literal`), and in the context of a line of text (`inLine`), where a text is quoted only
if it has a space. A literal shows a value of its own as plain data (`toDatum`). The four ways share
their numbers (`numbers`); only plain data has any.
-/

namespace FormSchema

/-- The members of a step, each with its name. -/
def Step.members (s : Step) : List String :=
  let names :=
    match s.fields with
    | [name] => "(" ++ Text.shown name ++ ",)"
    | names => partList "" (names.map Text.shown)
  ["id=" ++ Text.shown s.id, "label=" ++ Text.shown s.label,
    "description=" ++ (Datum.ofText? s.description).nested, "fields=" ++ names]

/-- A value that a log record carries. -/
inductive LogValue
  | datum (d : Datum)
  | level (l : LogLevel)
  | date (d : Date)
  | moment (m : Moment)
  | step (s : Step)
deriving Inhabited

namespace LogValue

/-- A text as a value. -/
abbrev text (s : String) : LogValue := datum (.text s)

/-- A value as plain data. -/
def toDatum : LogValue → Datum
  | datum d => d
  | level l => .text l.name
  | date d => .text d.text
  | moment m => .text (m.text "T")
  | step s => s.toDatum

/-- The numbers in a value. -/
def numbers (v : LogValue) : List Number :=
  v.toDatum.numbers

/-- The text that a value is; a level is its name. -/
def text? : LogValue → Option String
  | datum (.text s) => some s
  | level l => some l.name
  | _ => none

/-- A value for itself. -/
def display : LogValue → String
  | datum d => d.display
  | level l => "LogLevel." ++ l.name
  | date d => d.text
  | moment m => m.text " "
  | step s => Text.joined " " s.members

/-- A value as it is written inside other values. -/
def nested : LogValue → String
  | datum d => d.nested
  | level l => "<LogLevel." ++ l.name ++ ": " ++ Text.shown l.name ++ ">"
  | date d => d.parts
  | moment m => m.parts
  | step s => partList "FormStep" s.members

/-- A value as a literal. -/
def literal (v : LogValue) : String :=
  v.toDatum.literal

/-- The literal of a value in the generated code; days, moments and steps have none. -/
def codeLiteral : LogValue → Result String
  | datum d => writing .longInteger d.numbers d.literal
  | level l => .ok (Text.quoted l.name)
  | _ => .error .misused

/-- A value in the context of a line of text. -/
def inLine : LogValue → String
  | datum (.text s) => if s.toList.contains ' ' then "\"" ++ s ++ "\"" else s
  | level l => "LogLevel." ++ l.name
  | date d => d.text
  | moment m => m.text "T"
  | v => v.literal

/-- Whether the value counts as present. -/
def truthy : LogValue → Bool
  | datum d => d.truthy
  | _ => true

end LogValue

end FormSchema
