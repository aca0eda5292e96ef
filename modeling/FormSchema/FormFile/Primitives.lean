import FormSchema.Control.Config
import FormSchema.Data.Reading

/-!
# What a form imports

A form imports a part of the user interface for every component it is rendered with. Components
that hold other fields are made of several parts instead. Buttons and the frames of fields are
always there, and the steps of a form need cards as well.
-/

namespace FormSchema

mutual

/-- The components of a configuration and of all configurations below it. -/
def Config.components : Config → List Component
  | ⟨component, _, parts, _, _⟩ => component :: parts.components

/-- The components below a configuration. -/
def Parts.components : Parts → List Component
  | ⟨childConfigs, _, elementConfig, _, _, variants⟩ =>
    childComponents childConfigs ++ elementComponents elementConfig ++ unionComponents variants

/-- The components of the fields of an object or a tuple. -/
def childComponents : Option (List (String × Config)) → List Component
  | some configs => allComponents configs
  | none => []

/-- The components of an element. -/
def elementComponents : Option Config → List Component
  | some config => config.components
  | none => []

/-- The components of the variants of a union. -/
def unionComponents : Option (List VariantConfig) → List Component
  | some variants => variantComponents variants
  | none => []

/-- The components of configurations. -/
def allComponents : List (String × Config) → List Component
  | [] => []
  | (_, config) :: rest => config.components ++ allComponents rest

/-- The components of variants. -/
def variantComponents : List VariantConfig → List Component
  | [] => []
  | ⟨_, _, configs⟩ :: rest => allComponents configs ++ variantComponents rest

end

/-- The parts that cards are made of. -/
def cardPrimitives : List String :=
  ["Card", "CardContent", "CardHeader", "CardTitle"]

/-- The parts of the user interface that one component needs. -/
def Component.primitives (c : Component) : List String :=
  match c with
  | .radioGroup => [c.name, "Label"]
  | .unionSwitch => "Select" :: cardPrimitives
  | .fieldArray => "Input" :: cardPrimitives
  | .fieldset => cardPrimitives
  | c => [c.name]

/-- The names a form imports from the user interface, sorted. -/
def primitives (components : List Component) (hasSteps : Bool) : List String :=
  sortedNames (["Button", "Field"] ++ components.flatMap Component.primitives ++
    if hasSteps then cardPrimitives else [])

end FormSchema
