import FormSchema.Control.Config
import FormSchema.Failure
import FormSchema.Text.Layout

/-!
# Initial values

Every field has an initial value, written as a literal of the generated code: an empty text, the
lower bound of a number or zero, the first value of an enum, and for an object or a tuple the
initial values of its fields. An object is laid out over several lines, at a level of
indentation.

When the initial value of a field is written its configuration may be at hand, and with it those of
the fields of an object. They are handed down to these fields; the elements of a tuple get none.

The text of an initial value is there for any field. Writing it (`Field.writeInitial`) fails if one
of the lower bounds in it is too long (`Field.initialNumbers`).
-/

namespace FormSchema

/-- The indentation at a level. There is none at the levels below zero. -/
def padding (level : Int) : String :=
  Text.spaces (2 * level).toNat

/-- An object literal of lines, closed at a level. -/
def objectLiteral (level : Int) (members : List String) : String :=
  if members.isEmpty then "\x7b\x7d"
  else "\x7b\n" ++ Text.lines members ++ "\n" ++ padding level ++ "\x7d"

/-- A line with a member of an object literal, at a level. -/
def memberLine (level : Int) (name value : String) : String :=
  padding level ++ Text.propertyKey name ++ ": " ++ value ++ ","

mutual

/-- The initial value of a field. -/
def Field.initial (level : Int) : Field → String
  | ⟨_, _, _, _, _, constraints, content, _⟩ => content.initial level constraints

/-- The initial value of a content with its constraints. -/
def Content.initial (level : Int) (constraints : Constraints) : Content → String
  | .string => "\"\""
  | .number =>
    match constraints.min with
    | some n => n.literal
    | none => "0"
  | .boolean => "false"
  | .date => "undefined"
  | .enum first _ => Text.quoted first
  | .object fields => objectLiteral level (memberLines (level + 1) fields)
  | .array _ => "[]"
  | .tuple elements => "[" ++ Text.joined ", " (initials level elements) ++ "]"
  | .record _ => "\x7b\x7d"
  | .union _ _ => "\x7b\x7d"

/-- The initial values of fields as members of an object literal, one line each. -/
def memberLines (level : Int) : List Field → List String
  | [] => []
  | f :: rest => memberLine level f.name (f.initial level) :: memberLines level rest

/-- The initial values of fields. -/
def initials (level : Int) : List Field → List String
  | [] => []
  | f :: rest => f.initial level :: initials level rest

end

mutual

/-- The numbers that the initial value of a field is written with. -/
def Field.initialNumbers : Field → List Number
  | ⟨_, _, _, _, _, constraints, content, _⟩ => content.initialNumbers constraints

/-- The numbers that the initial value of a content with its constraints is written with. -/
def Content.initialNumbers (constraints : Constraints) : Content → List Number
  | .number => constraints.min.toList
  | .object fields => allInitialNumbers fields
  | .tuple elements => allInitialNumbers elements
  | _ => []

/-- The numbers that the initial values of fields are written with. -/
def allInitialNumbers : List Field → List Number
  | [] => []
  | f :: rest => f.initialNumbers ++ allInitialNumbers rest

end

/-! ## Beside configurations -/

/-- The configuration of a field below the one that is configured. -/
def childConfig? (config : Option Config) (name : String) : Option Config :=
  config >>= fun c => c.parts.childConfigs >>= fun configs => configs.lookup name

mutual

/-- The initial value of a field that may be configured. -/
def Field.initialWith (level : Int) : Field → Option Config → String
  | ⟨_, _, _, _, _, constraints, content, _⟩, config =>
    content.initialWith level constraints config

/-- The initial value of a content with its constraints, in a field that may be configured. -/
def Content.initialWith (level : Int) (constraints : Constraints) :
    Content → Option Config → String
  | .object fields, config =>
    objectLiteral level (memberLinesWith (level + 1) fields (childConfig? config))
  | .tuple elements, _ => "[" ++ Text.joined ", " (initialsWith level elements) ++ "]"
  | content, _ => content.initial level constraints

/-- The initial values of fields as members of an object literal. Each is configured by its
name. -/
def memberLinesWith (level : Int) : List Field → (String → Option Config) → List String
  | [], _ => []
  | f :: rest, configs =>
    memberLine level f.name (f.initialWith level (configs f.name)) ::
      memberLinesWith level rest configs

/-- The initial values of fields that are not configured. -/
def initialsWith (level : Int) : List Field → List String
  | [] => []
  | f :: rest => f.initialWith level none :: initialsWith level rest

end

/-! ## Writing -/

/-- Writes the initial value of a field that may be configured. -/
def Field.writeInitial (level : Int) (f : Field) (config : Option Config) : Result String :=
  writing .longInteger f.initialNumbers (f.initialWith level config)

/-- Writes the initial values of fields as members of an object literal. Each is configured by its
name. -/
def writeMembers (level : Int) (fields : List Field) (configs : String → Option Config) :
    Result String :=
  writing .longInteger (allInitialNumbers fields)
    (Text.lines (memberLinesWith level fields configs))

end FormSchema
