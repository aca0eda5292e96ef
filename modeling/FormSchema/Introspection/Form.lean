import FormSchema.Field.Form
import FormSchema.Introspection.Field

/-!
# From schemas to forms

`introspect` makes the form of a schema whose root is an object or an intersection of objects.
The steps of the form, if there are any, are read from plain data; each may only name root
fields.
-/

namespace FormSchema

/-- The shape of the root of a schema. -/
def rootShape (schema : Value) : Result Shape :=
  match schema with
  | .node n =>
    match (Value.node n).shape? with
    | .error e => .error e
    | .ok (some shape) => .ok shape
    | .ok none => .error (.rootNotObject n.tag)
  | v => .error (.notANode v.typeName)

/-- The items that plain data gives one after the other: the items of a list, the characters of a
text, the keys of a record. -/
def Datum.sequence : Datum → Result (List Datum)
  | .list items => .ok items
  | .text s => .ok (s.toList.map fun c => .text (String.ofList [c]))
  | .record entries => .ok (entries.map fun (key, _) => .text key)
  | _ => .error .misused

/-- The first name that is not known. -/
def firstUnknown? (known names : List String) : Option String :=
  names.find? fun name => !known.contains name

/-- Reads one step, which may only name known fields. -/
def readStep (known : List String) (d : Datum) : Result Step :=
  match (Step.read d).toResult .step with
  | .error e => .error e
  | .ok step =>
    match firstUnknown? known step.fields with
    | some name => .error (.unknownStepField step.id name)
    | none => .ok step

/-- Reads the steps of a form with known fields; `null` is a form that is not divided. -/
def readFormSteps (known : List String) : Datum → Result (Option (List Step))
  | .null => .ok none
  | d =>
    match d.sequence with
    | .error e => .error e
    | .ok items => (items.mapM (readStep known)).map some

/-- The form of a schema, divided into steps. -/
def introspect (schema : Value) (naming : Naming) (steps : Datum) : Result Form :=
  match rootShape schema with
  | .error e => .error e
  | .ok shape =>
    match (fieldsOf "" shape).run with
    | .error e => .error e
    | .ok (fields, warnings) =>
      match readFormSteps (fields.map Field.name) steps with
      | .error e => .error e
      | .ok steps =>
        .ok ⟨naming, fields, warnings, steps⟩

end FormSchema
