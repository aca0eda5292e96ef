import FormSchema.Control.Reading
import FormSchema.Failure

/-!
# Rules

A `Rule` says which fields it accepts, by which component they are rendered, and which properties
the component gets. Of several rules the first one that accepts a field counts. A rule may fail,
and then no later one is asked.
-/

namespace FormSchema

/-- A rule for the rendering of fields. -/
structure Rule where
  name : String
  accepts : Field → Result Bool
  component : Component
  props : Field → Result Entries

/-- The first rule that accepts a field. -/
def firstRule? (rules : List Rule) (f : Field) : Result (Option Rule) :=
  match rules with
  | [] => .ok none
  | rule :: rest =>
    match rule.accepts f with
    | .error e => .error e
    | .ok true => .ok (some rule)
    | .ok false => firstRule? rest f

/-! ## Resolving -/

/-- The frame of a field. -/
def Field.frame (f : Field) : Frame :=
  ⟨f.label, f.description, f.isRequired⟩

/-- Configurations by name; of fields with one name the last one counts. -/
def configsByName (pairs : List (String × Config)) : List (String × Config) :=
  putEntries [] pairs

/-- The parts that a field brings along; a part that it does not bring may be given by a rule. -/
structure OwnParts where
  /-- The names of the properties that hold the parts. -/
  names : List String
  /-- Puts the parts where a rule has left a place for them. -/
  into : Parts → Parts

/-- No parts. -/
def OwnParts.none : OwnParts :=
  ⟨[], id⟩

/-- The fields of an object or a tuple. -/
def OwnParts.children (fields : List Field) (configs : List (String × Config)) : OwnParts :=
  ⟨["child_configs", "child_fields"], fun p =>
    { p with childConfigs := some (configsByName configs), childFields := some fields }⟩

/-- The element of an array or the value of a record. -/
def OwnParts.element (field : Field) (config : Config) : OwnParts :=
  ⟨["element_config", "element_field"], fun p =>
    { p with elementConfig := some config, elementField := some field }⟩

/-- The variants of a union. -/
def OwnParts.union (discriminator : Option String) (variants : List VariantConfig) : OwnParts :=
  ⟨["discriminator", "variant_configs"], fun p =>
    { p with discriminator := discriminator, variants := some variants }⟩

/-- The configuration that a rule gives a field with its own parts. -/
def configOf (rule : Rule) (f : Field) (given : Entries) (own : OwnParts) : Result Config :=
  let others := given.filter fun (name, _) => !own.names.contains name
  match (readProps others).toResult .props with
  | .error e => .error e
  | .ok (props, parts, extras) => .ok ⟨rule.component, props, own.into parts, extras, f.frame⟩

mutual

/-- The configuration of a field, with those of the fields below it. -/
def Field.resolve (rules : List Rule) : Field → Result Config
  | ⟨name, label, description, isOptional, isNullable, constraints, content, reference⟩ =>
    let f : Field :=
      ⟨name, label, description, isOptional, isNullable, constraints, content, reference⟩
    match firstRule? rules f with
    | .error e => .error e
    | .ok none => .error (.unmapped name content.type.name)
    | .ok (some rule) =>
      match rule.props f with
      | .error e => .error e
      | .ok given =>
        match content.resolveParts rules with
        | .error e => .error e
        | .ok own => configOf rule f given own

/-- The parts of a content, each with its configuration. -/
def Content.resolveParts (rules : List Rule) : Content → Result OwnParts
  | .object fields => (resolveAll rules fields).map (OwnParts.children fields)
  | .tuple elements => (resolveAll rules elements).map (OwnParts.children elements)
  | .array element => (element.resolve rules).map (OwnParts.element element)
  | .record value => (value.resolve rules).map (OwnParts.element value)
  | .union discriminator variants =>
    (resolveVariants rules variants).map (OwnParts.union discriminator)
  | _ => .ok OwnParts.none

/-- The configurations of fields, in order. -/
def resolveAll (rules : List Rule) : List Field → Result (List (String × Config))
  | [] => .ok []
  | f :: rest =>
    match f.resolve rules with
    | .error e => .error e
    | .ok config => (resolveAll rules rest).map fun configs => (f.name, config) :: configs

/-- The variants of a union, each with the configurations of its fields. -/
def resolveVariants (rules : List Rule) : List Variant → Result (List VariantConfig)
  | [] => .ok []
  | ⟨tag, fields⟩ :: rest =>
    match resolveAll rules fields with
    | .error e => .error e
    | .ok configs =>
      (resolveVariants rules rest).map fun variants =>
        ⟨tag, fields, configsByName configs⟩ :: variants

end

end FormSchema
