import FormSchema.Field.Basic

/-!
# Components and their configurations

A field is rendered by a component. Seven components hold one value, three hold other fields.

A `Config` says how a field is rendered: by which component, with which properties, and in which
`Frame` of label and description. Where the component holds other fields, `Parts` has them with
their own configurations, found by name. Properties that no component knows are kept.
-/

namespace FormSchema

/-! ## Components -/

/-- The components that render fields. -/
inductive Component
  | input
  | textarea
  | checkbox
  | radioGroup
  | select
  | slider
  | datePicker
  | fieldset
  | fieldArray
  | unionSwitch
deriving DecidableEq, Repr

namespace Component

/-- The name of a component. -/
def name : Component → String
  | input => "Input"
  | textarea => "Textarea"
  | checkbox => "Checkbox"
  | radioGroup => "RadioGroup"
  | select => "Select"
  | slider => "Slider"
  | datePicker => "DatePicker"
  | fieldset => "Fieldset"
  | fieldArray => "FieldArray"
  | unionSwitch => "UnionSwitch"

/-- All components. -/
def all : List Component :=
  [input, textarea, checkbox, radioGroup, select, slider, datePicker, fieldset, fieldArray,
    unionSwitch]

/-- The component with a name. -/
def ofName? (s : String) : Option Component :=
  all.find? fun c => c.name == s

theorem ofName?_name (c : Component) : ofName? c.name = some c := by
  cases c <;> decide +kernel

/-- Whether the component holds other fields. -/
def isComposite : Component → Bool
  | fieldset | fieldArray | unionSwitch => true
  | _ => false

end Component

/-! ## Configurations -/

/-- What stands around a control. -/
structure Frame where
  label : String
  description : Option String
  isRequired : Bool
deriving DecidableEq, Repr

/-- The properties of a component that holds one value. -/
structure ControlProps where
  type : Option String := none
  min : Option Number := none
  max : Option Number := none
  step : Option Number := none
  minLength : Option Int := none
  maxLength : Option Int := none
  pattern : Option String := none
  options : Option (List String) := none
deriving DecidableEq

mutual

/-- How a field is rendered. -/
structure Config where
  component : Component
  props : ControlProps
  parts : Parts
  /-- The properties that no component knows. -/
  extras : List (String × Datum)
  frame : Frame

/-- The fields that a component holds, with their configurations. -/
structure Parts where
  /-- The configurations of the fields of an object or a tuple. -/
  childConfigs : Option (List (String × Config))
  childFields : Option (List Field)
  /-- The configuration of the element of an array or the value of a record. -/
  elementConfig : Option Config
  elementField : Option Field
  discriminator : Option String
  variants : Option (List VariantConfig)

/-- The fields of one variant of a union, with their configurations. -/
structure VariantConfig where
  tag : String
  fields : List Field
  configs : List (String × Config)

end

/-- No parts. -/
def Parts.none : Parts :=
  ⟨.none, .none, .none, .none, .none, .none⟩

end FormSchema
