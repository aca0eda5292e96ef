import FormSchema.Control.Config
import FormSchema.Failure
import FormSchema.Markup.Layout

/-!
# Controls

A control is what a field shows to edit its value. Its markup depends on the component and on the
properties alone; the place counts only where options have identifiers of their own. A component
that offers a choice fails if there is nothing to choose from, and one that shows numbers if one of
them is too long to be written.
-/

namespace FormSchema.Markup

open Text (lines escapeText optionLabel)

/-- The attribute of a number, if there is one. -/
def numberLine (name : String) : Option Number → List String
  | some n => ["  " ++ codeAttribute name n.literal]
  | none => []

/-- The attribute of a text, if there is one. -/
def textLine (name : String) : Option String → List String
  | some s => ["  " ++ textAttribute name s]
  | none => []

/-- The attribute of a length, if there is one. -/
def lengthLine (name : String) : Option Int → List String
  | some n => ["  " ++ codeAttribute name (intText n)]
  | none => []

/-- The lines that bind a text control to its field. -/
def boundLines (value : String) : List String :=
  [ "  " ++ codeAttribute "value" "field.state.value ?? \"\"",
    "  " ++ codeAttribute "onChange" ("(e) => field.handleChange(" ++ value ++ ")"),
    "  " ++ codeAttribute "onBlur" "field.handleBlur",
    "/>"]

/-- The numbers that a line of input shows. -/
def inputNumbers (p : ControlProps) : List Number :=
  p.min.toList ++ p.max.toList ++ p.step.toList ++
    (p.minLength.toList ++ p.maxLength.toList).map .int

/-- A line of input. -/
def inputMarkup (p : ControlProps) : String :=
  let value := if p.type == some "number" then "e.target.valueAsNumber" else "e.target.value"
  lines (["<Input"] ++ textLine "type" p.type ++ numberLine "min" p.min ++
    numberLine "max" p.max ++ numberLine "step" p.step ++ lengthLine "minLength" p.minLength ++
    lengthLine "maxLength" p.maxLength ++ textLine "pattern" p.pattern ++ boundLines value)

/-- The numbers that several lines of input show. -/
def textareaNumbers (p : ControlProps) : List Number :=
  p.maxLength.toList.map .int

/-- Several lines of input. -/
def textareaMarkup (p : ControlProps) : String :=
  lines (["<Textarea"] ++ lengthLine "maxLength" p.maxLength ++ boundLines "e.target.value")

/-- A box to check. -/
def checkboxMarkup : String :=
  lines [
    "<Checkbox",
    "  " ++ codeAttribute "checked" "field.state.value ?? false",
    "  " ++ codeAttribute "onCheckedChange" "(checked) => field.handleChange(checked)",
    "/>"]

/-- An option of a list. -/
def selectItem (option : String) : String :=
  "    <Select.Item " ++ textAttribute "value" option ++ ">" ++ escapeText (optionLabel option) ++
    "</Select.Item>"

/-- A list of options. -/
def selectMarkup (options : List String) : String :=
  lines ([
    "<Select " ++ codeAttribute "value" "field.state.value" ++ " " ++
      codeAttribute "onValueChange" "field.handleChange" ++ ">",
    "  <Select.Trigger>",
    "    <Select.Value placeholder=\"Select...\" />",
    "  </Select.Trigger>",
    "  <Select.Content>"] ++
    options.map selectItem ++ [
    "  </Select.Content>",
    "</Select>"])

/-- A button for one option. -/
def radioItem (place : Place) (option : String) : List String :=
  [ "  <div className=\"flex items-center gap-2\">",
    "    <RadioGroup.Item " ++ textAttribute "value" option ++ " id=" ++ place.optionId option ++
      " />",
    "    <Label htmlFor=" ++ place.optionId option ++ ">" ++ escapeText (optionLabel option) ++
      "</Label>",
    "  </div>"]

/-- A button for each option. -/
def radioMarkup (place : Place) (options : List String) : String :=
  lines ([
    "<RadioGroup " ++ codeAttribute "value" "field.state.value" ++ " " ++
      codeAttribute "onValueChange" "field.handleChange" ++ ">"] ++
    options.flatMap (radioItem place) ++ [
    "</RadioGroup>"])

/-- The numbers that a slider shows, but for those it has without bounds. -/
def sliderNumbers (p : ControlProps) : List Number :=
  p.min.toList ++ p.max.toList ++ p.step.toList

/-- A slider; without bounds it goes from 0 to 100 in steps of 1. -/
def sliderMarkup (p : ControlProps) : String :=
  let low := (p.min.getD (.int 0)).literal
  let high := (p.max.getD (.int 100)).literal
  let step := (p.step.getD (.int 1)).literal
  lines [
    "<Slider",
    "  " ++ codeAttribute "value" ("[field.state.value ?? " ++ low ++ "]"),
    "  " ++ codeAttribute "onValueChange" "([v]) => field.handleChange(v)",
    "  " ++ codeAttribute "min" low,
    "  " ++ codeAttribute "max" high,
    "  " ++ codeAttribute "step" step,
    "/>"]

/-- A date. -/
def dateMarkup : String :=
  lines [
    "<DatePicker",
    "  " ++ codeAttribute "value" "field.state.value",
    "  " ++ codeAttribute "onValueChange" "field.handleChange",
    "/>"]

/-- The options of a component that offers a choice, or its failure under the name of the
field. -/
def requireOptions (c : Config) (fieldName : String) : Result (List String) :=
  match c.props.options with
  | some (first :: rest) => .ok (first :: rest)
  | _ => .error (.emptyOptions c.component.name fieldName)

theorem requireOptions_eq_ok {c : Config} {fieldName : String} {options : List String}
    (h : requireOptions c fieldName = .ok options) : c.props.options = some options := by
  unfold requireOptions at h
  split at h
  · rename_i first rest hgiven
    cases h
    exact hgiven
  · cases h

/-- The control of a configuration at a place, for the field with a name. -/
def controlMarkup (fieldName : String) (c : Config) (place : Place) : Result String :=
  match c.component with
  | .input => writing .longInteger (inputNumbers c.props) (inputMarkup c.props)
  | .textarea => writing .longInteger (textareaNumbers c.props) (textareaMarkup c.props)
  | .checkbox => .ok checkboxMarkup
  | .select => (requireOptions c fieldName).map selectMarkup
  | .radioGroup => (requireOptions c fieldName).map (radioMarkup place)
  | .slider => writing .longInteger (sliderNumbers c.props) (sliderMarkup c.props)
  | .datePicker => .ok dateMarkup
  | component => .ok (comment ("Unsupported component: " ++ component.name))

end FormSchema.Markup
