import FormSchema.Data.Basic

/-!
# Reports of faults

A fault is reported as a `Report`: its family, a code with its category, a message, a severity
and a context of named data. A report may be extended, in place or as a new one; what the family
attaches to it (the name of a field, a place in a source) and its cause stay as they are.
-/

namespace FormSchema.Fault

/-- How grave a fault is. -/
inductive Severity
  | critical
  | error
  | warning
  | info
  | fatal
deriving DecidableEq, Repr

/-- The severity in capitals. -/
def Severity.name : Severity → String
  | critical => "CRITICAL"
  | error => "ERROR"
  | warning => "WARNING"
  | info => "INFO"
  | fatal => "FATAL"

/-- The severity with a name in small letters. -/
def Severity.ofName? : String → Option Severity
  | "critical" => some .critical
  | "error" => some .error
  | "warning" => some .warning
  | "info" => some .info
  | "fatal" => some .fatal
  | _ => none

/-- A code and the name of its category. -/
structure Code where
  name : String
  category : String
deriving DecidableEq, Repr

/-- The families of faults that are reported. -/
inductive Family
  | source
  | structural
  | unmapped
  | emission
  | circular
  | duplicate
  | settings
deriving DecidableEq, Repr

/-- The code that faults of a family have, unless another one is given. -/
def Family.code : Family → Code
  | source => ⟨"SCHEMA_SOURCE_ERROR", "SCHEMA"⟩
  | structural => ⟨"SCHEMA_STRUCTURE_ERROR", "INTROSPECTION"⟩
  | unmapped => ⟨"MAPPING_UNMAPPED_FIELD", "MAPPING"⟩
  | emission => ⟨"CODEGEN_EMPTY_OPTIONS", "CODEGEN"⟩
  | circular => ⟨"WRITER_CIRCULAR_REFERENCE", "WRITER"⟩
  | duplicate => ⟨"WRITER_DUPLICATE_SCHEMA", "WRITER"⟩
  | settings => ⟨"CONFIG_ERROR", "CONFIG"⟩

/-- The code of a schema that is not declared. -/
def exportCode : Code := ⟨"SCHEMA_EXPORT_NOT_FOUND", "SCHEMA"⟩

/-- The code of a step that names an unknown field. -/
def stepCode : Code := ⟨"SCHEMA_UNKNOWN_STEP_FIELD", "INTROSPECTION"⟩

/-- What a fault says about itself. -/
structure Report where
  family : Family
  code : Code
  message : String
  severity : Severity
  context : List (String × Datum)
  /-- What the family attaches to the report, beside the context. -/
  attached : List (String × Datum)
  /-- What led to the fault, in words. -/
  cause : Option String

namespace Report

/-- A report of a family with its own code and the severity of an error. -/
def ofFamily (family : Family) (message : String) (context : List (String × Datum)) : Report :=
  ⟨family, family.code, message, .error, context, [], none⟩

/-- The report with its code and its message in one line. -/
def line (r : Report) : String :=
  r.code.name ++ ": " ++ r.message

/-- The report with one more entry in its context. -/
def addContext (r : Report) (key : String) (value : Datum) : Report :=
  { r with context := putEntry r.context key value }

/-- The report with more entries in its context. -/
def withContext (r : Report) (entries : List (String × Datum)) : Report :=
  { r with context := putEntries r.context entries }

/-! ## The families -/

/-- A line or column that may be missing. -/
def ofPlace : Option Int → Datum
  | some n => .int n
  | none => .null

/-- A line or column in a message. As a place in a text it has few digits. -/
def placeText : Option Int → String
  | some n => intText n
  | none => "None"

/-- A fault of a source text; the message names the place if there is a line. -/
def source (message : String) (line column : Option Int) (context : List (String × Datum)) :
    Report :=
  let placed :=
    if line.isSome then
      message ++ " (line " ++ placeText line ++ ", column " ++ placeText column ++ ")"
    else message
  let place := [("line", ofPlace line), ("column", ofPlace column)]
  { ofFamily .source placed (putEntries place context) with attached := place }

/-- A field that no rule matches. -/
def unmapped (name type : String) (context : List (String × Datum)) : Report :=
  let field := [("field_name", Datum.text name), ("field_type", Datum.text type)]
  { ofFamily .unmapped
      ("No mapping rule matched field \"" ++ name ++ "\" of type \"" ++ type ++ "\"")
      (putEntries field context) with attached := field }

/-- Texts as a list of plain data. -/
def texts (names : List String) : Datum :=
  .list (names.map .text)

/-- Schemas that refer to each other in a circle. -/
def circular (names : List String) (context : List (String × Datum)) : Report :=
  ofFamily .circular
    ("Circular reference detected among embedded schemas. " ++
      "All schema references must form a directed acyclic graph.")
    (putEntries [("schemas", texts names)] context)

/-- Schemas that share a name. -/
def duplicate (names : List String) (context : List (String × Datum)) : Report :=
  ofFamily .duplicate ("Duplicate schema export names: " ++ Text.joined ", " names)
    (putEntries [("names", texts names)] context)

end Report

end FormSchema.Fault
