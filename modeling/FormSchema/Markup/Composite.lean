import FormSchema.Control.Initial
import FormSchema.Markup.Control

/-!
# Pieces of fields

A control is bound to a place and stands in a frame. Fields that hold other fields are put
together from the markup of those: cards for objects, rows for arrays and records, and for unions
a choice of the variant with a part for each. Everything here is layout; which markup goes where
is decided by `fieldMarkup`.
-/

namespace FormSchema.Markup

open Text (lines indent escapeText escapeTemplate)

/-! ## One field -/

/-- The lines of a frame. -/
def frameLines (frame : Frame) : List String :=
  [textAttribute "label" frame.label] ++
    (match frame.description with
    | some s => if s.isEmpty then [] else [textAttribute "description" s]
    | none => []) ++
    (if frame.isRequired then ["required"] else [])

/-- A control bound to a place, in its frame. -/
def boundField (place : Place) (frame : Frame) (control : String) : String :=
  lines ([
    "<form.Field",
    "  " ++ place.nameAttribute,
    "  children=\x7b(field) => (",
    "    <Field"] ++
    (frameLines frame).map ("      " ++ ·) ++ [
    "      " ++ codeAttribute "error" "field.state.meta.errors?.[0]",
    "    >",
    indent 6 control,
    "    </Field>",
    "  )\x7d",
    "/>"])

/-- A field that holds one value. -/
def singleMarkup (place : Place) (f : Field) (c : Config) : Result String :=
  (controlMarkup f.name c place).map (boundField place c.frame)

/-- The choice of a variant, bound to the place of the discriminator. -/
def variantChoice (place : Place) (discriminator : String) (tags : List String) : String :=
  lines [
    "<form.Field",
    "  " ++ place.nameAttribute,
    "  children=\x7b(field) => (",
    "    <Field " ++ textAttribute "label" (Text.label discriminator) ++ " required>",
    indent 6 (selectMarkup tags),
    "    </Field>",
    "  )\x7d",
    "/>"]

/-! ## Rows -/

/-- The rows of an array whose elements hold one value. -/
def singleRows (path control : String) : List String :=
  [ "        \x7b(arrayField.state.value ?? []).map((_, i) => (",
    "          <div key=\x7bi\x7d className=\"flex items-center gap-2\">",
    "            <form.Field",
    "              " ++ (Place.rows path).nameAttribute,
    "              children=\x7b(field) => (",
    "                <Field label=" ++ templated "Item $\x7bi + 1\x7d" ++ " " ++
      codeAttribute "error" "field.state.meta.errors?.[0]" ++ ">",
    indent 18 control,
    "                </Field>",
    "              )\x7d",
    "            />",
    "            " ++ removeButton,
    "          </div>",
    "        ))\x7d"]

/-- An array whose elements hold one value. -/
def singleArray (path : String) (c : Config) (elementConfig : Config) (element : Field) :
    Result String :=
  match controlMarkup element.name elementConfig (.rows path) with
  | .error e => .error e
  | .ok control =>
    writing .longInteger element.initialNumbers
      (rowsCard c.frame.label path (singleRows path control)
        (addButton c.frame.label (element.initial 3)))

/-- An array of single controls is written with its control and with the initial value of a row. -/
theorem singleArray_eq_ok {path markup : String} {c elementConfig : Config} {element : Field}
    (h : singleArray path c elementConfig element = .ok markup) :
    ∃ control, controlMarkup element.name elementConfig (.rows path) = .ok control ∧
      (∀ n ∈ element.initialNumbers, n.isShort = true) ∧
      markup = rowsCard c.frame.label path (singleRows path control)
        (addButton c.frame.label (element.initial 3)) := by
  unfold singleArray at h
  split at h
  · cases h
  · rename_i control hcontrol
    obtain ⟨hshort, rfl⟩ := writing_eq_ok.1 h
    exact ⟨control, hcontrol, hshort, rfl⟩

/-- An array of objects, from the markup of the fields of an element. -/
def objectArray (path : String) (c : Config) (element : Field) (children : List String) :
    String :=
  rowsCard c.frame.label path
    (rowCards "_" (escapeText element.label) (spaced (children.map (indent 14))))
    (addButton element.label "\x7b\x7d")

/-- The part of a row that is shown for one variant. -/
def rowVariant (discriminator tag : String) (children : List String) : String :=
  indent 14 (lines (
    ["\x7b" ++ Text.memberAccess "item" [discriminator] ++ " === " ++ Text.quoted tag ++ " && (",
    "  <div className=\"flex flex-col gap-3\">"] ++
    spaced (children.map (indent 4)) ++ [
    "  </div>",
    ")\x7d"]))

/-- An array of unions, from the markup of the fields of each variant. -/
def unionArray (path : String) (c : Config) (discriminator : String)
    (variants : List (String × List String)) : String :=
  let choice :=
    variantChoice ((Place.rows path).child discriminator) discriminator (variants.map Prod.fst)
  let parts := variants.map fun (tag, children) => rowVariant discriminator tag children
  rowsCard c.frame.label path
    (rowCards "item" "Item" [indent 14 choice, Text.joined "\n\n" parts])
    (addButton "Item" "\x7b\x7d")

/-! ## Records -/

/-- The control of an entry whose value holds other fields. -/
def entryInput : String :=
  lines (["<Input"] ++ boundLines "e.target.value")

/-- The name that a control of an entry fails under. -/
def entryName : String := "value"

/-- A record, from the control of an entry. -/
def recordCard (path title control : String) : String :=
  lines [
    "<form.Field " ++ textAttribute "name" path ++ ">",
    "  \x7b(recordField) => (",
    "    <Card>",
    "      <CardHeader>",
    "        <CardTitle>" ++ escapeText title ++ "</CardTitle>",
    "      </CardHeader>",
    "      <CardContent className=\"flex flex-col gap-3\">",
    "        \x7bObject.entries(recordField.state.value ?? \x7b\x7d).map(([key]) => (",
    "          <div key=\x7bkey\x7d className=\"flex items-center gap-2\">",
    "            <span className=\"text-sm min-w-24\">\x7bkey\x7d</span>",
    "            <form.Field",
    "              " ++ (Place.entries path).nameAttribute,
    "              children=\x7b(field) => (",
    indent 16 control,
    "              )\x7d",
    "            />",
    "          </div>",
    "        ))\x7d",
    "      </CardContent>",
    "    </Card>",
    "  )\x7d",
    "</form.Field>"]

/-- A record with values of one configuration. -/
def recordMarkup (path : String) (c valueConfig : Config) : Result String :=
  if valueConfig.component.isComposite then .ok (recordCard path c.frame.label entryInput)
  else
    (controlMarkup entryName valueConfig (.entries path)).map (recordCard path c.frame.label)

/-! ## Unions -/

/-- The part of a union that is shown for one variant. -/
def switchVariant (selected tag : String) (children : List String) : String :=
  indent 4 (lines ([
    "<form.Subscribe " ++ codeAttribute "selector" ("(state) => " ++ selected) ++ ">",
    "  \x7b(value) => value === " ++ Text.quoted tag ++ " && (",
    "    <div className=\"flex flex-col gap-3\">"] ++
    spaced (children.map (indent 6)) ++ [
    "    </div>",
    "  )\x7d",
    "</form.Subscribe>"]))

/-- The expression for the value at a path of names. -/
def stateValue (path name : String) : String :=
  Text.memberAccess "state.values" (Text.splitOn '.' path ++ [name])

/-- A union, from the markup of the fields of each variant. -/
def unionCard (path : String) (c : Config) (discriminator : String)
    (variants : List (String × List String)) : String :=
  let choice :=
    variantChoice ((Place.path path).child discriminator) discriminator (variants.map Prod.fst)
  let selected := stateValue path discriminator
  let parts := variants.map fun (tag, children) => switchVariant selected tag children
  card c.frame.label [indent 4 choice, Text.joined "\n\n" parts]

end FormSchema.Markup
