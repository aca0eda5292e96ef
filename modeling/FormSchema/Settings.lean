import FormSchema.Data.Reading
import FormSchema.Failure
import FormSchema.Unicode.Sigma

/-!
# Settings

`Settings` says where the generated code imports from, and whether a form is marked for the
client. A setting may be given directly or by an environment variable, whose case does not
matter; what is given directly comes first. A setting that does not fit is named in the failure.
-/

namespace FormSchema

/-- The settings of the generated code. -/
structure Settings where
  /-- Where the parts of the user interface are imported from. -/
  uiImportPath : String := "@/components/ui"
  /-- Where the state of forms is imported from. -/
  formImportPath : String := "@tanstack/react-form"
  /-- Where the constructors of schemas are imported from. -/
  schemaImportPath : String := "zod/v4"
  /-- Whether a form is marked for the client. -/
  useClient : Bool := true
deriving DecidableEq, Repr

/-- The environment variables, by name. -/
abbrev Environment := List (String × String)

/-- The value of a variable whose name is given in small letters. Of variables that differ in
case only, the last one counts. -/
def Environment.find? (env : Environment) (name : String) : Option String :=
  let named := env.map fun (key, value) => (String.ofList (Unicode.lowerAll key.toList), value)
  named.reverse.lookup name

/-- The given entries and, after them, the variables that begin with a word and go on with one of
some names. -/
def withEnvironment (given : Entries) (env : Environment) (start : String)
    (names : List String) : Entries :=
  given ++ names.filterMap fun name =>
    (Environment.find? env (start ++ name)).map fun value => (name, .text value)

namespace Settings

/-- The names of the settings. -/
def names : List String :=
  ["ui_import_path", "form_import_path", "zod_import_path", "use_client"]

/-- Reads settings; what is not given has its default. -/
def read (es : Entries) : Checked Settings :=
  let default : Settings := {}
  ((((Checked.valid Settings.mk).and
    (es.withDefault "ui_import_path" Datum.text? default.uiImportPath)).and
    (es.withDefault "form_import_path" Datum.text? default.formImportPath)).and
    (es.withDefault "zod_import_path" Datum.text? default.schemaImportPath)).and
    (es.withDefault "use_client" Datum.truth? default.useClient)

/-- The settings with another import path of the user interface, if one is given. -/
def withUiImport (s : Settings) (path : Option String) : Settings :=
  { s with uiImportPath := path.getD s.uiImportPath }

/-- Loads settings from given entries and an environment. -/
def load (given : Entries) (env : Environment) : Result Settings :=
  match read (withEnvironment given env "formsmith_" names) with
  | .valid settings => .ok settings
  | .invalid bad => .error (.settings (sortedNames bad))

end Settings

end FormSchema
