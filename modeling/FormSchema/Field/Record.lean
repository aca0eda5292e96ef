import FormSchema.Field.Basic

/-!
# Fields as plain data, and equal fields

Every field has a record that tells all about it (`Field.toDatum`). A member that is missing is null
there.

Two fields are the same if all of their parts are (`Field.same`). Numbers count by their values: an
integer and a double may be the same.
-/

namespace FormSchema

/-! ## Records -/

/-- The record of constraints. -/
def Constraints.toDatum (c : Constraints) : Datum :=
  .record [
    ("min_length", .ofOption .int c.minLength),
    ("max_length", .ofOption .int c.maxLength),
    ("pattern", .ofText? c.pattern),
    ("format", .ofText? (c.format.map StringFormat.name)),
    ("min", .ofOption .number c.min),
    ("max", .ofOption .number c.max),
    ("step", .ofOption .number c.step),
    ("is_int", .ofOption .bool c.isInt),
    ("min_items", .ofOption .int c.minItems),
    ("max_items", .ofOption .int c.maxItems)]

mutual

/-- The record of a field. -/
def Field.toDatum : Field → Datum
  | ⟨name, label, description, isOptional, isNullable, constraints, content, reference⟩ =>
    .record [
      ("name", .text name),
      ("label", .text label),
      ("description", .ofText? description),
      ("type", .text content.type.name),
      ("is_optional", .bool isOptional),
      ("is_nullable", .bool isNullable),
      ("constraints", constraints.toDatum),
      ("metadata", .record (("kind", .text content.type.name) :: content.members)),
      ("schema_ref", .ofText? reference)]

/-- The members that tell about a content. -/
def Content.members : Content → List (String × Datum)
  | .enum first rest => [("values", .list ((first :: rest).map .text))]
  | .object fields => [("fields", .list (fieldRecords fields))]
  | .array element => [("element", element.toDatum)]
  | .tuple elements => [("elements", .list (fieldRecords elements))]
  | .record value => [("value_descriptor", value.toDatum)]
  | .union discriminator variants =>
    [("discriminator", .ofText? discriminator), ("variants", .list (variantRecords variants))]
  | _ => []

/-- The records of fields. -/
def fieldRecords : List Field → List Datum
  | [] => []
  | f :: rest => f.toDatum :: fieldRecords rest

/-- The records of the members of a union. -/
def variantRecords : List Variant → List Datum
  | [] => []
  | ⟨tag, fields⟩ :: rest =>
    .record [("value", .text tag), ("fields", .list (fieldRecords fields))] ::
      variantRecords rest

end

/-! ## Equality -/

/-- Whether two bounds are both missing or have one value. -/
def sameBound : Option Number → Option Number → Bool
  | some a, some b => a.same b
  | none, none => true
  | _, _ => false

/-- Whether two records of constraints hold values to the same. -/
def Constraints.same (c d : Constraints) : Bool :=
  c.minLength == d.minLength && c.maxLength == d.maxLength && c.pattern == d.pattern &&
    c.format == d.format && sameBound c.min d.min && sameBound c.max d.max &&
    sameBound c.step d.step && c.isInt == d.isInt && c.minItems == d.minItems &&
    c.maxItems == d.maxItems

mutual

/-- Whether two fields are the same. -/
def Field.same : Field → Field → Bool
  | ⟨name, label, description, isOptional, isNullable, constraints, content, reference⟩, g =>
    name == g.name && label == g.label && description == g.description &&
      isOptional == g.isOptional && isNullable == g.isNullable &&
      constraints.same g.constraints && content.same g.content && reference == g.reference

/-- Whether two contents are the same. -/
def Content.same : Content → Content → Bool
  | .string, .string => true
  | .number, .number => true
  | .boolean, .boolean => true
  | .date, .date => true
  | .enum first rest, .enum first' rest' => first == first' && rest == rest'
  | .object fields, .object fields' => sameFields fields fields'
  | .array element, .array element' => element.same element'
  | .tuple elements, .tuple elements' => sameFields elements elements'
  | .record value, .record value' => value.same value'
  | .union key variants, .union key' variants' => key == key' && sameVariants variants variants'
  | _, _ => false

/-- Whether two lists of fields are the same. -/
def sameFields : List Field → List Field → Bool
  | [], [] => true
  | f :: rest, g :: rest' => f.same g && sameFields rest rest'
  | _, _ => false

/-- Whether two lists of variants are the same. -/
def sameVariants : List Variant → List Variant → Bool
  | [], [] => true
  | ⟨tag, fields⟩ :: rest, v :: rest' =>
    tag == v.tag && sameFields fields v.fields && sameVariants rest rest'
  | _, _ => false

end

end FormSchema
