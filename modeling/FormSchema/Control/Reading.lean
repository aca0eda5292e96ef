import FormSchema.Control.Config
import FormSchema.Field.Reading

/-!
# Reading control configurations from records

The members of the record of a configuration are the component, the properties and the frame.
Parts stand among the properties. Every failure of a property is kept, so that they can be
counted.
-/

namespace FormSchema

/-- The members that a frame is read from. -/
def Frame.read (es : Entries) : Checked Frame :=
  (((Checked.valid Frame.mk).and
    (es.required "label" Datum.text?)).and
    (es.nullable "description" Datum.text?)).and
    (es.withDefault "required" Datum.truth? true)

/-- The frame of a configuration, which has to be there. -/
def readFrame (es : Entries) : Checked Frame :=
  match es.lookup "field_props" with
  | some (.record members) => (Frame.read members).under "field_props"
  | _ => .invalid ["field_props"]

/-- The properties of a component that holds one value. -/
def ControlProps.read (es : Entries) : Checked ControlProps :=
  ((((((((Checked.valid ControlProps.mk).and
    (es.nullable "type" Datum.text?)).and
    (es.nullableNumber "min")).and
    (es.nullableNumber "max")).and
    (es.nullableNumber "step")).and
    (es.nullable "min_length" Datum.integer?)).and
    (es.nullable "max_length" Datum.integer?)).and
    (es.nullable "pattern" Datum.text?)).and
    (es.nullableTexts "options")

/-- The names of the properties that components know. -/
def knownProps : List String :=
  ["type", "min", "max", "step", "min_length", "max_length", "pattern", "options",
    "child_configs", "child_fields", "element_config", "element_field", "discriminator",
    "variant_configs"]

/-- The properties that no component knows. -/
def extraProps (es : Entries) : List (String × Datum) :=
  es.filter fun (name, _) => !knownProps.contains name

/-- A list of fields that may be missing or null. -/
def nullableFields (es : Entries) (name : String) : Checked (Option (List Field)) :=
  match es.lookup name with
  | none => .valid none
  | some .null => .valid none
  | some (.list items) => ((readFields items).under name).map some
  | some _ => .invalid [name]

/-- A list of fields that may be missing and is then empty. -/
def fieldsOrNone (es : Entries) (name : String) : Checked (List Field) :=
  match es.lookup name with
  | none => .valid []
  | some (.list items) => (readFields items).under name
  | some _ => .invalid [name]

/-- A field that may be missing or null. -/
def nullableField (es : Entries) (name : String) : Checked (Option Field) :=
  match es.lookup name with
  | none => .valid none
  | some .null => .valid none
  | some d => ((Field.read d).under name).map some

mutual

/-- Reads a configuration from a record. -/
def Config.read (d : Datum) : Checked Config :=
  match d with
  | .record es =>
    let component :=
      Checked.ofOption "component" (es.lookup "component" >>= Datum.text? >>= Component.ofName?)
    let props : Checked (ControlProps × Parts × List (String × Datum)) :=
      match _h : es.lookup "props" with
      | none => .valid ({}, Parts.none, [])
      | some (.record members) => (readProps members).under "props"
      | some _ => .invalid ["props"]
    (((Checked.valid fun component (props : ControlProps × Parts × List (String × Datum)) frame =>
      Config.mk component props.1 props.2.1 props.2.2 frame).and component).and props).and
      (readFrame es)
  | _ => .invalid [""]
termination_by sizeOf d
decreasing_by
  have := sizeOf_lookup_lt _h
  simp only [Datum.record.sizeOf_spec] at *
  omega

/-- Reads all properties of a component. -/
def readProps (es : Entries) : Checked (ControlProps × Parts × List (String × Datum)) :=
  let childConfigs : Checked (Option (List (String × Config))) :=
    match _h : es.lookup "child_configs" with
    | none => .valid none
    | some .null => .valid none
    | some (.record entries) => ((readConfigs entries).under "child_configs").map some
    | some _ => .invalid ["child_configs"]
  let elementConfig : Checked (Option Config) :=
    match _h : es.lookup "element_config" with
    | none => .valid none
    | some .null => .valid none
    | some d => ((Config.read d).under "element_config").map some
  let variants : Checked (Option (List VariantConfig)) :=
    match _h : es.lookup "variant_configs" with
    | none => .valid none
    | some .null => .valid none
    | some (.list items) => ((readVariantConfigs items).under "variant_configs").map some
    | some _ => .invalid ["variant_configs"]
  let parts :=
    ((((((Checked.valid Parts.mk).and
      childConfigs).and
      (nullableFields es "child_fields")).and
      elementConfig).and
      (nullableField es "element_field")).and
      (Entries.nullable es "discriminator" Datum.text?)).and
      variants
  ((ControlProps.read es).map fun props parts => (props, parts, extraProps es)).and parts
termination_by sizeOf es
decreasing_by
  all_goals
    have := sizeOf_lookup_lt _h
    try simp only [Datum.record.sizeOf_spec, Datum.list.sizeOf_spec] at *
    omega

/-- Reads the configurations of fields, found by name. -/
def readConfigs (entries : List (String × Datum)) : Checked (List (String × Config)) :=
  match entries with
  | [] => .valid []
  | (name, d) :: rest =>
    ((Config.read d).map fun c cs => (name, c) :: cs).and (readConfigs rest)
termination_by sizeOf entries

/-- Reads the variants of a union. -/
def readVariantConfigs (ds : List Datum) : Checked (List VariantConfig) :=
  match ds with
  | [] => .valid []
  | .record es :: rest =>
    let configs : Checked (List (String × Config)) :=
      match _h : es.lookup "configs" with
      | none => .valid []
      | some (.record entries) => readConfigs entries
      | some _ => .invalid ["configs"]
    let variant :=
      (((Checked.valid VariantConfig.mk).and
        (Entries.required es "value" Datum.text?)).and
        (fieldsOrNone es "fields")).and
        configs
    (variant.map fun v vs => v :: vs).and (readVariantConfigs rest)
  | _ :: rest => (Checked.invalid ["value"]).and (readVariantConfigs rest)
termination_by sizeOf ds
decreasing_by
  all_goals
    try have := sizeOf_lookup_lt _h
    simp only [Datum.record.sizeOf_spec, List.cons.sizeOf_spec] at *
    omega

end

end FormSchema
