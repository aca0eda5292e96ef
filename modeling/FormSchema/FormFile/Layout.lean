import FormSchema.Markup.Field
import FormSchema.FormFile.Primitives
import FormSchema.Field.Form
import FormSchema.Settings
import FormSchema.Text.Label

/-!
# Form files

A form file is the source of one module: imports, the type of the properties, and a component
that renders the fields. A form without steps shows all fields at once. A form with steps lists
the steps in a constant, shows the fields of one step at a time, and checks them before it goes on.

A field is rendered with its configuration; `Chosen` is the list of both.
-/

namespace FormSchema.FormFile

open Text (lines indent quoted)
open Markup (Place fieldMarkup)

/-- The fields of a form that are rendered, with their configurations. -/
abbrev Chosen := List (Field × Config)

/-- What a form file is made of beside its fields. -/
structure Head where
  naming : Naming
  settings : Settings
  primitives : List String

/-! ## Fixed parts -/

/-- The opening tag of the form with its handler. -/
def submitHandler : List String :=
  [ "    <form",
    "      onSubmit=\x7b(e) => \x7b",
    "        e.preventDefault();",
    "        e.stopPropagation();",
    "        form.handleSubmit();",
    "      \x7d\x7d",
    "      className=\"flex flex-col gap-4\"",
    "    >"]

/-- The row of steps with the current one marked. -/
def stepIndicator : List String :=
  [ "      \x7b/* Step indicator */\x7d",
    "      <div className=\"flex items-center gap-2\" role=\"tablist\" aria-label=\"Form " ++
      "steps\">",
    "        \x7bSTEPS.map((step, i) => (",
    "          <div key=\x7bstep.id\x7d className=\"flex items-center gap-2\" role=\"tab\" " ++
      "aria-selected=\x7bi === currentStep\x7d>",
    "            <div className=\x7b\x60flex h-8 w-8 items-center justify-center " ++
      "rounded-full text-sm font-medium $\x7bi === currentStep ? \"bg-gray-900 text-white " ++
      "dark:bg-gray-50 dark:text-gray-900\" : i < currentStep ? \"bg-gray-200 text-gray-700 " ++
      "dark:bg-gray-700 dark:text-gray-200\" : \"bg-gray-100 text-gray-400 dark:bg-gray-800 " ++
      "dark:text-gray-500\"\x7d\x60\x7d>",
    "              \x7bi + 1\x7d",
    "            </div>",
    "            <span className=\x7b\x60text-sm $\x7bi === currentStep ? \"font-medium\" " ++
      ": \"text-gray-500\"\x7d\x60\x7d>\x7bstep.label\x7d</span>",
    "            \x7bi < STEPS.length - 1 && <div className=\"h-px w-8 bg-gray-200 " ++
      "dark:bg-gray-700\" />\x7d",
    "          </div>",
    "        ))\x7d",
    "      </div>"]

/-- The function that checks the fields of a step and goes on to the next. -/
def nextHandler : List String :=
  [ "  async function handleNext() \x7b",
    "    const stepFields = STEPS[currentStep].fields;",
    "    let hasErrors = false;",
    "    for (const fieldName of stepFields) \x7b",
    "      await form.validateField(fieldName, 'change');",
    "      if (form.getFieldMeta(fieldName)?.errors?.length) \x7b",
    "        hasErrors = true;",
    "      \x7d",
    "    \x7d",
    "    if (!hasErrors) \x7b",
    "      setCurrentStep((s) => s + 1);",
    "    \x7d",
    "  \x7d"]

/-- The buttons that lead through the steps. -/
def navigation : List String :=
  [ "      \x7b/* Navigation */\x7d",
    "      <div className=\"flex justify-between\">",
    "        \x7bcurrentStep > 0 && (",
    "          <Button type=\"button\" variant=\"outline\" onClick=\x7b() => " ++
      "setCurrentStep((s) => s - 1)\x7d>Back</Button>",
    "        )\x7d",
    "        \x7bcurrentStep === 0 && <div />\x7d",
    "        \x7bisLastStep ? (",
    "          <Button type=\"submit\">Submit</Button>",
    "        ) : (",
    "          <Button type=\"button\" onClick=\x7bhandleNext\x7d>Next</Button>",
    "        )\x7d",
    "      </div>"]

/-! ## Before the component -/

/-- The type of the data of a form. -/
def Head.typeName (h : Head) : String :=
  Text.typeName h.naming.exportName

/-- An import of some names. -/
def importLine (names path : String) : String :=
  "import \x7b" ++ names ++ "\x7d from '" ++ path ++ "';"

/-- The imports of a form file. -/
def importLines (h : Head) (hasSteps : Bool) : List String :=
  (if hasSteps then [importLine " useState " "react"] else []) ++
    [ importLine " useForm " h.settings.formImportPath,
      importLine ("\n" ++ lines (h.primitives.map fun name => "  " ++ name ++ ",") ++ "\n")
        h.settings.uiImportPath,
      importLine (" " ++ h.naming.exportName ++ ", type " ++ h.typeName ++ " ")
        h.naming.importPath]

/-- The type of the properties of the component. -/
def propsInterface (h : Head) : List String :=
  [ "interface " ++ h.naming.form ++ "Props \x7b",
    "  defaultValues?: Partial<" ++ h.typeName ++ ">;",
    "  onSubmit: (data: " ++ h.typeName ++ ") => void | Promise<void>;",
    "\x7d"]

/-- All that stands before the component, or before the steps. -/
def headLines (h : Head) (hasSteps : Bool) : List String :=
  (if h.settings.useClient then ["'use client';", ""] else []) ++ importLines h hasSteps ++
    [""] ++ propsInterface h ++ [""]

/-- The first line of the component. -/
def signature (h : Head) : String :=
  "export function " ++ h.naming.form ++ "(\x7b defaultValues: initialValues, onSubmit \x7d: " ++
    h.naming.form ++ "Props) \x7b"

/-- The state of the form, with the initial values of its fields. -/
def formState (h : Head) (fields : List Field) : List String :=
  [ "  const form = useForm(\x7b",
    "    defaultValues: initialValues ?? \x7b",
    lines (memberLines 3 fields),
    "    \x7d,",
    "    validators: \x7b",
    "      onSubmit: " ++ h.naming.exportName ++ ",",
    "    \x7d,",
    "    onSubmit: async (\x7b value \x7d) => \x7b",
    "      await onSubmit(value);",
    "    \x7d,",
    "  \x7d);"]

/-- Writes the state of the form, unless an initial value has a number that is too long. -/
def writeState (h : Head) (fields : List Field) : Result (List String) :=
  writing .longInteger (allInitialNumbers fields) (formState h fields)

/-! ## Fields -/

/-- The markup of each field at the root of the state, moved to the right. -/
def rootMarkups (margin : Nat) : Chosen → Result (List String)
  | [] => .ok []
  | (f, c) :: rest =>
    match fieldMarkup (.path f.name) f c with
    | .error e => .error e
    | .ok markup => (rootMarkups margin rest).map fun others => indent margin markup :: others

/-- The markup of fields, with an empty line between two of them. -/
def fieldsMarkup (margin : Nat) (chosen : Chosen) : Result String :=
  (rootMarkups margin chosen).map (Text.joined "\n\n")

/-! ## Steps -/

/-- One step as a line of the constant. -/
def stepLine (s : Step) : String :=
  let description :=
    match s.description with
    | some text => if text.isEmpty then "" else ", description: " ++ quoted text
    | none => ""
  "  \x7b id: " ++ quoted s.id ++ ", label: " ++ quoted s.label ++ description ++ ", fields: [" ++
    Text.joined ", " (s.fields.map quoted) ++ "] \x7d,"

/-- The constant that lists the steps. -/
def stepsConstant (steps : List Step) : String :=
  "const STEPS = [\n" ++ lines (steps.map stepLine) ++ "\n];"

/-- The field with a name and its configuration. -/
def chosenNamed (chosen : Chosen) (name : String) : Option (Field × Config) :=
  chosen.find? fun (f, _) => f.name == name

/-- The part that is shown at one step. -/
def stepBlock (index : Nat) (content : String) : String :=
  "          \x7bcurrentStep === " ++ natText index ++ " && (<>\n" ++ content ++
    "\n          </>)\x7d"

/-- The parts that are shown at the steps, from an index on. -/
def stepBlocks (chosen : Chosen) (index : Nat) : List Step → Result (List String)
  | [] => .ok []
  | s :: rest =>
    match fieldsMarkup 12 (s.fields.filterMap (chosenNamed chosen)) with
    | .error e => .error e
    | .ok content =>
      (stepBlocks chosen (index + 1) rest).map fun others => stepBlock index content :: others

/-! ## Files -/

/-- The lines that end every form. -/
def formEnd : List String :=
  ["    </form>", "  );", "\x7d", ""]

/-- A form that shows all fields at once. -/
def plainFile (h : Head) (chosen : Chosen) : Result String :=
  match writeState h (chosen.map Prod.fst) with
  | .error e => .error e
  | .ok state =>
    (fieldsMarkup 6 chosen).map fun content =>
      lines (headLines h false ++ [signature h] ++ state ++ ["", "  return ("] ++ submitHandler ++
        [content, "", "      <Button type=\"submit\">Submit</Button>"] ++ formEnd)

/-- What stands between the constant of the steps and their parts: the component up to the card that
has the parts in it. -/
def stepsOpening (h : Head) (state : List String) : List String :=
  [ "",
    signature h,
    "  const [currentStep, setCurrentStep] = useState(0);",
    "  const isLastStep = currentStep === STEPS.length - 1;",
    ""] ++ state ++ [""] ++ nextHandler ++ ["", "  return ("] ++ submitHandler ++
  stepIndicator ++ [
    "",
    "      \x7b/* Step content */\x7d",
    "      <Card>",
    "        <CardHeader>",
    "          <CardTitle>\x7bSTEPS[currentStep].label\x7d</CardTitle>",
    "        </CardHeader>",
    "        <CardContent className=\"flex flex-col gap-4\">"]

/-- What stands behind the parts of the steps. -/
def stepsClosing : List String :=
  [ "        </CardContent>",
    "      </Card>",
    ""] ++ navigation ++ formEnd

/-- A form that is divided into steps. -/
def steppedFile (h : Head) (chosen : Chosen) (steps : List Step) : Result String :=
  match writeState h (chosen.map Prod.fst) with
  | .error e => .error e
  | .ok state =>
    (stepBlocks chosen 0 steps).map fun blocks =>
      lines (headLines h true ++ [stepsConstant steps] ++ stepsOpening h state ++ [lines blocks] ++
        stepsClosing)

/-- The source of the module of a form. -/
def text (h : Head) (chosen : Chosen) (steps : List Step) : Result String :=
  if steps.isEmpty then plainFile h chosen else steppedFile h chosen steps

end FormSchema.FormFile
