import FormSchema.FormFile.Layout
import FormSchema.Introspection.Form
import FormSchema.Rule.Table
import FormSchema.Unicode.Blank

/-!
# Generating a form

`generate` makes the source of a form from a schema: the schema becomes a form, rules choose the
rendering of every field, and the form file is written. A field that no rule can render is left
out, with a warning that says why; nothing of it remains in the code, not even in the steps.
-/

namespace FormSchema

/-- What generating a form gives. -/
structure Generated where
  code : String
  /-- The names of the fields that are rendered. -/
  fields : List String
  warnings : List String
  /-- The parts of the user interface that the code imports. -/
  primitives : List String
deriving DecidableEq, Repr

/-! ## Why a field is left out -/

/-- The first line of a text without the blanks around it, or a word if nothing is left. -/
def firstLine (word s : String) : String :=
  match Unicode.trimBlanks s.toList with
  | [] => word
  | cs => String.ofList (cs.takeWhile fun c => !Unicode.isLineBreak c)

/-- A number of failures in the properties of a component. -/
def countText (count : Nat) : String :=
  if count == 1 then "1 validation error" else natText count ++ " validation errors"

/-- Why a field is left out, in one line if the reason is not one of the library's own. -/
def Failure.detail (e : Failure) : String :=
  match e.report? with
  | some report => report.message
  | none =>
    match e with
    | .badValue message => firstLine "ValueError" message
    | .stopped message => firstLine "RuntimeError" message
    | .invalid type members => countText members.length ++ " for " ++ type.name
    | .outOfReach => "int too large to convert to float"
    | .misused => "TypeError"
    | _ => "AttributeError"

/-- The warning of a field that is left out. -/
def exclusionWarning (f : Field) (e : Failure) : String :=
  "Field \"" ++ f.name ++ "\": " ++ e.detail ++ "; field excluded from the form"

/-! ## Choosing -/

/-- The fields that the rules can render, with their configurations. -/
def chosenBy (rules : List Rule) (fields : List Field) : FormFile.Chosen :=
  fields.filterMap fun f =>
    match f.resolve rules with
    | .ok config => some (f, config)
    | .error _ => none

/-- A warning for each field that the rules cannot render. -/
def exclusions (rules : List Rule) (fields : List Field) : List String :=
  fields.filterMap fun f =>
    match f.resolve rules with
    | .ok _ => none
    | .error e => some (exclusionWarning f e)

/-- A step without the fields that are not rendered. -/
def Step.restrict (names : List String) (s : Step) : Step :=
  { s with fields := s.fields.filter fun name => names.contains name }

/-! ## Generating -/

/-- The source of a form, with the fields that the rules can render. -/
def Form.generate (form : Form) (rules : List Rule) (settings : Settings) : Result Generated :=
  let chosen := chosenBy rules form.fields
  let names := chosen.map fun (f, _) => f.name
  let steps := (form.steps.getD []).map (Step.restrict names)
  let needed := primitives (chosen.flatMap fun (_, config) => config.components) (!steps.isEmpty)
  (FormFile.text ⟨form.naming, settings, needed⟩ chosen steps).map fun code =>
    ⟨code, names, form.warnings ++ exclusions rules form.fields, needed⟩

/-- The source of a form for a schema. -/
def generate (schema : Value) (naming : Naming) (steps : Datum) (rules : List Rule)
    (settings : Settings) : Result Generated :=
  match introspect schema naming steps with
  | .error e => .error e
  | .ok form => form.generate rules settings

end FormSchema
