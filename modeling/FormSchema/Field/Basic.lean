import FormSchema.Data.Basic
import FormSchema.Text.Label

/-!
# Fields

A form is a tree of fields. A `Field` has a name, a label, what is known about its presence, its
`Constraints`, and a `Content` that says of which kind it is and which fields it is made of. Ten
kinds are told apart, five that hold one value and five that hold other fields. The kind of a
field is that of its content, and the content of an enum has a first value.

A field may stand for a schema of its own, which it then names.
-/

namespace FormSchema

/-- The kinds of fields. -/
inductive FieldType
  | string
  | number
  | boolean
  | date
  | enum
  | object
  | array
  | union
  | tuple
  | record
deriving DecidableEq, Repr

namespace FieldType

/-- The name of a kind. -/
def name : FieldType → String
  | string => "string"
  | number => "number"
  | boolean => "boolean"
  | date => "date"
  | enum => "enum"
  | object => "object"
  | array => "array"
  | union => "union"
  | tuple => "tuple"
  | record => "record"

/-- The kind with a name. -/
def ofName? : String → Option FieldType
  | "string" => some string
  | "number" => some number
  | "boolean" => some boolean
  | "date" => some date
  | "enum" => some enum
  | "object" => some object
  | "array" => some array
  | "union" => some union
  | "tuple" => some tuple
  | "record" => some record
  | _ => none

theorem ofName?_name (t : FieldType) : ofName? t.name = some t := by
  cases t <;> rfl

/-- Whether fields of the kind are made of other fields. -/
def isComposite : FieldType → Bool
  | object | array | union | tuple | record => true
  | _ => false

end FieldType

/-- The formats of strings that a form knows. -/
inductive StringFormat
  | email
  | url
  | uuid
  | cuid
  | datetime
deriving DecidableEq, Repr

namespace StringFormat

/-- The name of a format. -/
def name : StringFormat → String
  | email => "email"
  | url => "url"
  | uuid => "uuid"
  | cuid => "cuid"
  | datetime => "datetime"

/-- The format with a name. -/
def ofName? : String → Option StringFormat
  | "email" => some email
  | "url" => some url
  | "uuid" => some uuid
  | "cuid" => some cuid
  | "datetime" => some datetime
  | _ => none

end StringFormat

/-- What values of a field are held to. A member that is missing holds them to nothing. -/
structure Constraints where
  minLength : Option Int := none
  maxLength : Option Int := none
  pattern : Option String := none
  format : Option StringFormat := none
  min : Option Number := none
  max : Option Number := none
  step : Option Number := none
  isInt : Option Bool := none
  minItems : Option Int := none
  maxItems : Option Int := none
deriving DecidableEq

mutual

/-- A field of a form. -/
structure Field where
  name : String
  label : String
  description : Option String
  isOptional : Bool
  isNullable : Bool
  constraints : Constraints
  content : Content
  /-- The name of the schema that the field stands for. -/
  reference : Option String

/-- What a field holds, by its kind. -/
inductive Content
  | string
  | number
  | boolean
  | date
  | enum (first : String) (rest : List String)
  | object (fields : List Field)
  | array (element : Field)
  | tuple (elements : List Field)
  | record (value : Field)
  | union (discriminator : Option String) (variants : List Variant)

/-- A member of a union: its tag and its fields. -/
structure Variant where
  tag : String
  fields : List Field

end

/-- The name that is given, unless it is empty. -/
def givenName? : Option String → Option String
  | some name => if name.isEmpty then none else some name
  | none => none

namespace Content

/-- The kind of a content. -/
def type : Content → FieldType
  | string => .string
  | number => .number
  | boolean => .boolean
  | date => .date
  | enum _ _ => .enum
  | object _ => .object
  | array _ => .array
  | tuple _ => .tuple
  | record _ => .record
  | union _ _ => .union

/-- The content of a kind that has no parts. -/
def ofType? : FieldType → Option Content
  | .string => some string
  | .number => some number
  | .boolean => some boolean
  | .date => some date
  | _ => none

/-- The content of an enum, if it has values. -/
def ofValues? : List String → Option Content
  | first :: rest => some (enum first rest)
  | [] => none

/-- The fields that a content is made of. -/
def children : Content → List Field
  | object fields => fields
  | array element => [element]
  | tuple elements => elements
  | record value => [value]
  | union _ variants => variants.flatMap Variant.fields
  | _ => []

end Content

namespace Field

/-- The kind of a field. -/
def type (f : Field) : FieldType :=
  f.content.type

/-- Whether a value has to be given. -/
def isRequired (f : Field) : Bool :=
  !f.isOptional

/-- The fields right below a field. -/
def children (f : Field) : List Field :=
  f.content.children

end Field

end FormSchema
