import FormSchema.Field.Record
import FormSchema.Rule.Basic

/-!
# Tables of rules

A `RuleTable` has three lists of rules: custom rules, default rules and fallbacks, asked in this
order. A rule replaces the one with its name, wherever that one stands.

In the default rules composite fields are told by their kind alone. Among the others the more special
rule stands before the more general one: a small enum before an enum, a number with near bounds
before a number, a string with a format or a large length before a string.
-/

namespace FormSchema

/-! ## The default rules -/

/-- The most options that radio buttons are used for. -/
def radioOptions : Nat := 4

/-- The widest span of numbers that a slider is used for. -/
def sliderSpan : Int := 100

/-- The length above which a string gets several lines. -/
def textareaLength : Int := 100

/-- A rule for all fields of a kind, without properties. -/
def kindRule (name : String) (type : FieldType) (component : Component) : Rule :=
  ⟨name, fun f => .ok (f.type == type), component, fun _ => .ok []⟩

/-- The options of an enum. -/
def optionsProp (f : Field) : Entries :=
  match f.content with
  | .enum first rest => [("options", .list ((first :: rest).map .text))]
  | _ => []

/-- Whether a field is an enum with few options. -/
def isSmallEnum (f : Field) : Bool :=
  match f.content with
  | .enum _ rest => rest.length + 1 ≤ radioOptions
  | _ => false

/-- Whether a field is a number with near bounds. -/
def isNarrowNumber (f : Field) : Result Bool :=
  if f.type == .number then
    match f.constraints.min, f.constraints.max with
    | some low, some high =>
      match low.spanAtMost? high sliderSpan with
      | some narrow => .ok narrow
      | none => .error .outOfReach
    | _, _ => .ok false
  else .ok false

/-- Whether a field is a string that may be long. -/
def isLongString (f : Field) : Bool :=
  f.type == .string &&
    match f.constraints.maxLength with
    | some n => n > textareaLength
    | none => false

/-- A rule for strings of a format. -/
def formatRule (name : String) (format : StringFormat) : Rule :=
  ⟨name, fun f => .ok (f.type == .string && f.constraints.format == some format), .input,
    fun _ => .ok [("type", .text format.name)]⟩

/-- The rules that hold unless others are given. -/
def defaultRules : List Rule :=
  [ kindRule "object-fieldset" .object .fieldset,
    kindRule "array-field-array" .array .fieldArray,
    kindRule "union-switch" .union .unionSwitch,
    kindRule "tuple-fieldset" .tuple .fieldset,
    kindRule "record-field-array" .record .fieldArray,
    kindRule "boolean-checkbox" .boolean .checkbox,
    ⟨"enum-radio-group", fun f => .ok (isSmallEnum f), .radioGroup,
      fun f => .ok (optionsProp f)⟩,
    ⟨"enum-select", fun f => .ok (f.type == .enum), .select, fun f => .ok (optionsProp f)⟩,
    kindRule "date-picker" .date .datePicker,
    ⟨"number-slider", isNarrowNumber, .slider, fun f =>
      .ok [("min", .ofOption .number f.constraints.min),
        ("max", .ofOption .number f.constraints.max),
        ("step", .number (f.constraints.step.getD (.int 1)))]⟩,
    ⟨"number-input", fun f => .ok (f.type == .number), .input, fun f =>
      .ok [("type", .text "number"), ("min", .ofOption .number f.constraints.min),
        ("max", .ofOption .number f.constraints.max),
        ("step", .ofOption .number f.constraints.step)]⟩,
    formatRule "string-email" .email,
    formatRule "string-url" .url,
    ⟨"string-textarea", fun f => .ok (isLongString f), .textarea, fun f =>
      .ok [("max_length", .ofOption .int f.constraints.maxLength)]⟩,
    ⟨"string-default", fun f => .ok (f.type == .string), .input, fun f =>
      .ok [("type", .text "text"), ("min_length", .ofOption .int f.constraints.minLength),
        ("max_length", .ofOption .int f.constraints.maxLength),
        ("pattern", .ofOption .text f.constraints.pattern)]⟩ ]

/-! ## Tables -/

/-- Rules in the order in which they are asked. -/
structure RuleTable where
  custom : List Rule
  defaults : List Rule
  fallbacks : List Rule

namespace RuleTable

/-- All rules, in the order in which they are asked. -/
def rules (t : RuleTable) : List Rule :=
  t.custom ++ t.defaults ++ t.fallbacks

/-- The names of the rules, in order. -/
def names (t : RuleTable) : List String :=
  t.rules.map Rule.name

/-- Whether a rule has a name. -/
def hasName (name : String) (rule : Rule) : Bool :=
  rule.name == name

/-- The table without the first rule that has a name. -/
def erase (t : RuleTable) (name : String) : RuleTable :=
  if t.custom.any (hasName name) then { t with custom := t.custom.eraseP (hasName name) }
  else if t.defaults.any (hasName name) then
    { t with defaults := t.defaults.eraseP (hasName name) }
  else { t with fallbacks := t.fallbacks.eraseP (hasName name) }

/-- The rules without the first one that has a name, if one has it. -/
def withoutFirst? (name : String) : List Rule → Option (List Rule)
  | [] => none
  | rule :: rest =>
    if hasName name rule then some rest
    else (withoutFirst? name rest).map fun others => rule :: others

/-- Takes out the first rule that has a name, and says whether there was one. -/
def remove (t : RuleTable) (name : String) : RuleTable × Bool :=
  match withoutFirst? name t.custom with
  | some custom => ({ t with custom }, true)
  | none =>
    match withoutFirst? name t.defaults with
    | some defaults => ({ t with defaults }, true)
    | none =>
      match withoutFirst? name t.fallbacks with
      | some fallbacks => ({ t with fallbacks }, true)
      | none => (t, false)

/-- Whether a rule of the table has a name. -/
def contains (t : RuleTable) (name : String) : Bool :=
  t.rules.any (hasName name)

/-- The rule with a name. -/
def get? (t : RuleTable) (name : String) : Option Rule :=
  t.rules.find? (hasName name)

/-- Puts a rule after the custom rules, or after all rules. -/
def insert (t : RuleTable) (rule : Rule) (beforeDefaults : Bool) : RuleTable :=
  let others := t.erase rule.name
  if beforeDefaults then { others with custom := others.custom ++ [rule] }
  else { others with fallbacks := others.fallbacks ++ [rule] }

/-- The table of some custom rules, with the default rules if they are wanted. -/
def ofRules (custom : List Rule) (includeDefaults : Bool) : RuleTable :=
  custom.foldl (fun t rule => t.insert rule true)
    ⟨[], if includeDefaults then defaultRules else [], []⟩

/-- The configuration that the rules of the table give a field. -/
def resolve (t : RuleTable) (f : Field) : Result Config :=
  f.resolve t.rules

end RuleTable

end FormSchema
