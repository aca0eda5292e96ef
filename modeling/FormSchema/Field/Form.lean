import FormSchema.Failure
import FormSchema.Field.Reading
import FormSchema.Field.Record

/-!
# Forms

A `Form` is a list of root fields with the names that the generated code needs. It may be divided
into steps, each of which names some of the root fields.
-/

namespace FormSchema

/-- One step of a form. -/
structure Step where
  id : String
  label : String
  description : Option String
  fields : List String
deriving DecidableEq

/-- The names that the generated code needs beside those of the fields. -/
structure Naming where
  form : String
  /-- Where the schema of the form is imported from. -/
  importPath : String
  /-- The name that the schema is exported under. -/
  exportName : String
deriving DecidableEq, Repr

/-- A complete form. -/
structure Form where
  naming : Naming
  fields : List Field
  warnings : List String
  /-- The steps, if the form is divided. -/
  steps : Option (List Step)

namespace Step

/-- Reads a step from a record. -/
def read : Datum → Checked Step
  | .record es =>
    ((((Checked.valid Step.mk).and
      (Entries.required es "id" Datum.text?)).and
      (Entries.required es "label" Datum.text?)).and
      (Entries.nullable es "description" Datum.text?)).and
      (Entries.textsOrNone es "fields")
  | _ => .invalid [""]

/-- The record of a step. -/
def toDatum (s : Step) : Datum :=
  .record [
    ("id", .text s.id),
    ("label", .text s.label),
    ("description", .ofText? s.description),
    ("fields", .list (s.fields.map .text))]

/-- Reads steps from records, each on its own. -/
def readAll : List Datum → Checked (List Step)
  | [] => .valid []
  | d :: rest => ((read d).map fun s ss => s :: ss).and (readAll rest)

end Step

namespace Form

/-- The names of the root fields, in order. -/
def fieldNames (f : Form) : List String :=
  f.fields.map Field.name

/-- Reads the root fields of a form. -/
def readRoots (es : Entries) : Checked (List Field) :=
  match es.lookup "fields" with
  | none => .valid []
  | some (.list items) => (readFields items).under "fields"
  | some _ => .invalid ["fields"]

/-- Reads the steps of a form. -/
def readSteps (es : Entries) : Checked (Option (List Step)) :=
  match es.lookup "steps" with
  | none => .valid none
  | some .null => .valid none
  | some (.list items) => ((Step.readAll items).under "steps").map some
  | some _ => .invalid ["steps"]

/-- Reads a form from a record. -/
def read : Datum → Checked Form
  | .record es =>
    ((((((Checked.valid fun form fields importPath exportName warnings steps =>
      Form.mk ⟨form, importPath, exportName⟩ fields warnings steps).and
      (Entries.required es "name" Datum.text?)).and
      (readRoots es)).and
      (Entries.required es "schema_import_path" Datum.text?)).and
      (Entries.required es "schema_export_name" Datum.text?)).and
      (Entries.textsOrNone es "warnings")).and
      (readSteps es)
  | _ => .invalid [""]

/-- The record of a form. -/
def toDatum (f : Form) : Datum :=
  .record [
    ("name", .text f.naming.form),
    ("fields", .list (fieldRecords f.fields)),
    ("schema_import_path", .text f.naming.importPath),
    ("schema_export_name", .text f.naming.exportName),
    ("warnings", .list (f.warnings.map .text)),
    ("steps", .ofOption (fun steps => .list (steps.map Step.toDatum)) f.steps)]

end Form

end FormSchema
