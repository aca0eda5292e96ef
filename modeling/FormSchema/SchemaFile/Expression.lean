import FormSchema.Failure
import FormSchema.Field.Basic
import FormSchema.Text.Escape
import FormSchema.Text.Layout
import FormSchema.Text.Quoted

/-!
# Schema expressions

`Field.expression` writes the schema of a field: the constructor of its kind, its constraints in a
fixed order, and then what is known about its presence and its description. A field that stands
for a schema of its own is written as the name of that schema and nothing else.

In a union with a discriminator every variant is an object whose member at the discriminator is
the literal of its tag. In a plain union a variant that was made for a single option is written as
that option.

The text of a schema is there for any field. Writing it (`Field.writeExpression`) fails if one of
the numbers in it is too long (`Field.expressionNumbers`).
-/

namespace FormSchema

open Text (joined quoted propertyKey patternLiteral)

/-- The call of a method. -/
def methodCall (name argument : String) : String :=
  "." ++ name ++ "(" ++ argument ++ ")"

/-- The call of a method, if there is an argument for it. -/
def optionalCall {α : Type} (name : String) (write : α → String) : Option α → String
  | some a => methodCall name (write a)
  | none => ""

/-- The constructor of strings of a format. -/
def stringConstructor : Option StringFormat → String
  | some .email => "z.email()"
  | some .url => "z.url()"
  | some .uuid => "z.uuid()"
  | some .cuid => "z.cuid()"
  | some .datetime => "z.iso.datetime()"
  | none => "z.string()"

/-- The schema of a string. -/
def stringExpression (c : Constraints) : String :=
  stringConstructor c.format ++ optionalCall "min" intText c.minLength ++
    optionalCall "max" intText c.maxLength ++ optionalCall "regex" patternLiteral c.pattern

/-- The schema of a number. -/
def numberExpression (c : Constraints) : String :=
  "z.number()" ++ (if c.isInt == some true then methodCall "int" "" else "") ++
    optionalCall "min" Number.literal c.min ++ optionalCall "max" Number.literal c.max ++
    optionalCall "multipleOf" Number.literal c.step

/-- The schema of an array, from that of its element. -/
def arrayExpression (c : Constraints) (element : String) : String :=
  "z.array(" ++ element ++ ")" ++ optionalCall "min" intText c.minItems ++
    optionalCall "max" intText c.maxItems

/-- Expressions in brackets. -/
def bracketed (items : List String) : String :=
  "[" ++ joined ", " items ++ "]"

/-- The schema of an object, from those of its members. -/
def objectExpression (members : List (String × String)) : String :=
  if members.isEmpty then "z.object(\x7b\x7d)"
  else
    "z.object(\x7b " ++ joined ", " (members.map fun (name, e) => propertyKey name ++ ": " ++ e) ++
      " \x7d)"

/-- The schema of a literal text. -/
def literalExpression (s : String) : String :=
  "z.literal(" ++ quoted s ++ ")"

/-- The schema of a variant with a tag, the members given. -/
def taggedExpression (discriminator tag : String) (members : List (String × String)) : String :=
  objectExpression (members.map fun (name, e) =>
    (name, if name == discriminator then literalExpression tag else e))

/-- Whether a text starts with a word. -/
def startsWith (word s : String) : Bool :=
  word.toList.isPrefixOf s.toList

/-- The schema of a variant without a discriminator, the members given. -/
def optionExpression (tag : String) (members : List (String × String)) : String :=
  match members with
  | [(name, e)] =>
    if startsWith "variant_" tag && startsWith "option_" name then e else objectExpression members
  | _ => objectExpression members

/-- What follows the constructor and the constraints of a field. -/
def presenceCalls (isOptional isNullable : Bool) (description : Option String) : String :=
  (if isNullable then methodCall "nullable" "" else "") ++
    (if isOptional then methodCall "optional" "" else "") ++
    match description with
    | some s => if s.isEmpty then "" else methodCall "describe" (quoted s)
    | none => ""

mutual

/-- The schema of a field. -/
def Field.expression : Field → String
  | ⟨_, _, description, isOptional, isNullable, constraints, content, reference⟩ =>
    match givenName? reference with
    | some name => name
    | none => content.expression constraints ++ presenceCalls isOptional isNullable description

/-- The schema of a content with its constraints. -/
def Content.expression (c : Constraints) : Content → String
  | .string => stringExpression c
  | .number => numberExpression c
  | .boolean => "z.boolean()"
  | .date => "z.date()"
  | .enum first rest => "z.enum(" ++ bracketed ((first :: rest).map quoted) ++ ")"
  | .object fields => objectExpression (memberExpressions fields)
  | .array element => arrayExpression c element.expression
  | .tuple elements => "z.tuple(" ++ bracketed (elementExpressions elements) ++ ")"
  | .record value => "z.record(z.string(), " ++ value.expression ++ ")"
  | .union (some key) variants =>
    "z.discriminatedUnion(" ++ quoted key ++ ", " ++ bracketed (taggedExpressions key variants) ++
      ")"
  | .union none variants => "z.union(" ++ bracketed (optionExpressions variants) ++ ")"

/-- The names and the schemas of fields. -/
def memberExpressions : List Field → List (String × String)
  | [] => []
  | f :: rest => (f.name, f.expression) :: memberExpressions rest

/-- The schemas of fields. -/
def elementExpressions : List Field → List String
  | [] => []
  | f :: rest => f.expression :: elementExpressions rest

/-- The schemas of variants with a discriminator. -/
def taggedExpressions (discriminator : String) : List Variant → List String
  | [] => []
  | ⟨tag, fields⟩ :: rest =>
    taggedExpression discriminator tag (memberExpressions fields) ::
      taggedExpressions discriminator rest

/-- The schemas of variants without a discriminator. -/
def optionExpressions : List Variant → List String
  | [] => []
  | ⟨tag, fields⟩ :: rest =>
    optionExpression tag (memberExpressions fields) :: optionExpressions rest

end

/-! ## Numbers -/

/-- The numbers among the constraints that are written for a content. -/
def Content.numbers (c : Constraints) : Content → List Number
  | .string => (c.minLength.toList ++ c.maxLength.toList).map .int
  | .number => c.min.toList ++ c.max.toList ++ c.step.toList
  | .array _ => (c.minItems.toList ++ c.maxItems.toList).map .int
  | _ => []

mutual

/-- The numbers that the schema of a field is written with. -/
def Field.expressionNumbers : Field → List Number
  | ⟨_, _, _, _, _, constraints, content, reference⟩ =>
    match givenName? reference with
    | some _ => []
    | none => content.numbers constraints ++ content.innerNumbers

/-- The numbers that the schemas of the fields of a content are written with. -/
def Content.innerNumbers : Content → List Number
  | .object fields => memberNumbers none fields
  | .array element => element.expressionNumbers
  | .tuple elements => memberNumbers none elements
  | .record value => value.expressionNumbers
  | .union discriminator variants => variantNumbers discriminator variants
  | _ => []

/-- The numbers that the schemas of fields are written with. The field with a name that a literal
takes the place of is left out. -/
def memberNumbers (replaced : Option String) : List Field → List Number
  | [] => []
  | f :: rest =>
    if replaced == some f.name then memberNumbers replaced rest
    else f.expressionNumbers ++ memberNumbers replaced rest

/-- The numbers that the schemas of variants are written with. -/
def variantNumbers (discriminator : Option String) : List Variant → List Number
  | [] => []
  | ⟨_, fields⟩ :: rest =>
    memberNumbers discriminator fields ++ variantNumbers discriminator rest

end

/-- Writes the schema of a field. -/
def Field.writeExpression (f : Field) : Result String :=
  writing .longInteger f.expressionNumbers f.expression

end FormSchema
