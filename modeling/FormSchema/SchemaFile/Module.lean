import FormSchema.Field.Form
import FormSchema.SchemaFile.Expression
import FormSchema.Settings

/-!
# Schema files

A schema file is the source of one module: an import, the embedded schemas in their order, and the
schema of the form. Each schema is an exported constant with an exported type after it.

Schemas may refer to each other by name, through fields at any depth. `ordered` puts schemas in an
order in which each stands after all that it refers to. It goes in rounds: whenever a schema has
been placed, those that waited for it alone join the queue, in the order in which they were given.
What still waits when the queue is empty is on a circle or refers to one.

References to names that are not among the schemas do not count, nor do those of a schema to
itself.
-/

namespace FormSchema

/-! ## References -/

mutual

/-- The names that a field and the fields below it refer to. -/
def Field.references : Field → List String
  | ⟨_, _, _, _, _, _, content, reference⟩ => (givenName? reference).toList ++ content.references

/-- The names that the fields of a content refer to. -/
def Content.references : Content → List String
  | .object fields => allReferences fields
  | .array element => element.references
  | .tuple elements => allReferences elements
  | .record value => value.references
  | .union _ variants => variantReferences variants
  | _ => []

/-- The names that fields refer to. -/
def allReferences : List Field → List String
  | [] => []
  | f :: rest => f.references ++ allReferences rest

/-- The names that the fields of variants refer to. -/
def variantReferences : List Variant → List String
  | [] => []
  | ⟨_, fields⟩ :: rest => allReferences fields ++ variantReferences rest

end

/-- The names that a form refers to, sorted. -/
def Form.references (f : Form) : List String :=
  sortedNames (allReferences f.fields)

/-- The name of the schema of a form. -/
def Form.schemaName (f : Form) : String :=
  f.naming.exportName

/-! ## Order -/

/-- Whether a schema needs another one placed before it. -/
def Form.needs (names : List String) (f : Form) (name : String) : Bool :=
  names.contains name && name != f.schemaName && f.references.contains name

/-- Whether all that a schema needs has been placed. -/
def Form.isReady (names placed : List String) (f : Form) : Bool :=
  f.references.all fun name => !f.needs names name || placed.contains name

theorem length_partition {α : Type} (p : α → Bool) (l : List α) :
    (l.partition p).1.length + (l.partition p).2.length = l.length := by
  simp only [List.partition_eq_filter_filter]
  induction l with
  | nil => rfl
  | cons a l ih => by_cases h : p a <;> simp_all [List.filter] <;> omega

/-- Places schemas from the queue until it is empty. The second list is what still waits. -/
def placeAll (names : List String) (placed queue waiting : List Form) : List Form × List Form :=
  match queue with
  | [] => (placed, waiting)
  | f :: rest =>
    let now := placed ++ [f]
    let split := waiting.partition (Form.isReady names (now.map Form.schemaName))
    placeAll names now (rest ++ split.1) split.2
termination_by queue.length + waiting.length
decreasing_by
  have := length_partition (Form.isReady names ((placed ++ [f]).map Form.schemaName)) waiting
  simp only [List.length_append, List.length_cons]
  omega

/-- The names that several schemas share, sorted. -/
def sharedNames (names : List String) : List String :=
  sortedNames (names.filter fun name => names.count name > 1)

/-- Schemas in an order in which each stands after all that it refers to. -/
def ordered (schemas : List Form) : Result (List Form) :=
  let names := schemas.map Form.schemaName
  match sharedNames names with
  | first :: rest => .error (.duplicate (first :: rest))
  | [] =>
    let split := schemas.partition (Form.isReady names [])
    match placeAll names [] split.1 split.2 with
    | (placed, []) => .ok placed
    | (_, waiting) => .error (.circular (sortedNames (waiting.map Form.schemaName)))

/-! ## Files -/

open Text (lines propertyKey)

/-- The lines that declare the schema of a form and its type. -/
def Form.declaration (f : Form) : List String :=
  ["export const " ++ f.schemaName ++ " = z.object(\x7b"] ++
    (memberExpressions f.fields).map (fun (name, e) =>
      "  " ++ propertyKey name ++ ": " ++ e ++ ",") ++
    [ "\x7d);",
      "",
      "export type " ++ Text.typeName f.schemaName ++ " = z.infer<typeof " ++ f.schemaName ++ ">;"]

/-- The numbers that the schema of a form is written with. -/
def Form.numbers (f : Form) : List Number :=
  memberNumbers none f.fields

/-- The import of the constructors. -/
def constructorImport (settings : Settings) : String :=
  "import \x7b z \x7d from \"" ++ settings.schemaImportPath ++ "\";"

/-- The source of a module with the schema of a form and the schemas embedded in it. -/
def schemaFile (form : Form) (embedded : List Form) (settings : Settings) : Result String :=
  match ordered embedded with
  | .error e => .error e
  | .ok before =>
    if before.any fun other => other.schemaName == form.schemaName then
      .error (.duplicate [form.schemaName])
    else
      writing .longInteger ((before ++ [form]).flatMap Form.numbers)
        (lines ([constructorImport settings, ""] ++
          (before ++ [form]).flatMap fun f => f.declaration ++ [""]))

end FormSchema
