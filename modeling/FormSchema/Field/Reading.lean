import FormSchema.Data.Reading
import FormSchema.Field.Basic

/-!
# Reading fields from records

`Field.read` makes a field of a record. A label that is missing or empty is read off the name.
The metadata may be missing where the kind says it all. The kind of the metadata has to be that
of the field.

A failure that belongs to no member is reported under the empty name: a record is no record, the
kinds do not agree, or the kind is no kind and nothing else says which one is meant.
-/

namespace FormSchema

/-- Reads constraints from the entries of a record. -/
def Constraints.read (es : Entries) : Checked Constraints :=
  ((((((((((Checked.valid Constraints.mk).and
    (es.nullable "min_length" Datum.integer?)).and
    (es.nullable "max_length" Datum.integer?)).and
    (es.nullable "pattern" Datum.text?)).and
    (es.nullable "format" fun d => d.text? >>= StringFormat.ofName?)).and
    (es.nullableNumber "min")).and
    (es.nullableNumber "max")).and
    (es.nullableNumber "step")).and
    (es.nullable "is_int" Datum.truth?)).and
    (es.nullable "min_items" Datum.integer?)).and
    (es.nullable "max_items" Datum.integer?)

theorem sizeOf_lookup_lt {es : List (String × Datum)} {name : String} {d : Datum}
    (h : es.lookup name = some d) : sizeOf d < sizeOf es := by
  induction es with
  | nil => simp at h
  | cons e rest ih =>
    obtain ⟨k, v⟩ := e
    rw [List.lookup_cons] at h
    split at h
    · simp only [Option.some.injEq] at h
      simp only [h, List.cons.sizeOf_spec, Prod.mk.sizeOf_spec]; omega
    · have := ih h
      simp only [List.cons.sizeOf_spec]; omega

/-- The label that a record asks for, or the one that is read off the name. -/
def readLabel (es : Entries) : Checked String :=
  match es.lookup "label", es.lookup "name" with
  | some (.text (s : String)), some (.text name) =>
    .valid (if s.isEmpty then Text.label name else s)
  | some d, some (.text name) =>
    if d.truthy then .invalid ["label"] else .valid (Text.label name)
  | none, some (.text name) => .valid (Text.label name)
  | some (.text s), _ => .valid s
  | some _, _ => .invalid ["label"]
  | none, _ => .valid ""

/-- The constraints of a record, none if there are none. -/
def readConstraints (es : Entries) : Checked Constraints :=
  match es.lookup "constraints" with
  | none => .valid {}
  | some (.record members) => (Constraints.read members).under "constraints"
  | some _ => .invalid ["constraints"]

/-- The kind that a member names. -/
def readType (es : Entries) : Option FieldType :=
  es.lookup "type" >>= Datum.text? >>= FieldType.ofName?

/-- A field of the members of a record and a content, if the kinds agree. -/
def assembleField (es : Entries) (content : Checked Content) : Checked Field :=
  let read :=
    ((((((((Checked.valid fun name label description type isOptional isNullable constraints content
          reference =>
        ((⟨name, label, description, isOptional, isNullable, constraints, content,
          reference⟩ : Field), (type : FieldType))).and
      (es.required "name" Datum.text?)).and
      (readLabel es)).and
      (es.nullable "description" Datum.text?)).and
      (Checked.ofOption "type" (readType es))).and
      (es.withDefault "is_optional" Datum.truth? false)).and
      (es.withDefault "is_nullable" Datum.truth? false)).and
      (readConstraints es)).and
      (content.under "metadata")
  match read.and (es.nullable "schema_ref" Datum.text?) with
  | .valid (f, type) => if f.type == type then .valid f else .invalid [""]
  | .invalid members => .invalid members

/-- The content that follows from the kind alone, for a record without metadata. -/
def impliedContent (es : Entries) : Checked Content :=
  match readType es >>= Content.ofType? with
  | some content => .valid content
  | none => .invalid ["metadata"]

mutual

/-- Reads a field from a record. -/
def Field.read (d : Datum) : Checked Field :=
  match d with
  | .record es =>
    match _h : es.lookup "metadata" with
    | none | some .null =>
      if (es.lookup "type").isSome && (readType es).isNone then .invalid [""]
      else assembleField es (impliedContent es)
    | some metadata => assembleField es (readContent metadata)
  | _ => .invalid [""]
termination_by sizeOf d
decreasing_by
  have := sizeOf_lookup_lt _h
  simp only [Datum.record.sizeOf_spec]; omega

/-- Reads the content of a field from its metadata. -/
def readContent (d : Datum) : Checked Content :=
  match d with
  | .record es =>
    match es.lookup "kind" with
    | some (.text "string") => .valid .string
    | some (.text "number") => .valid .number
    | some (.text "boolean") => .valid .boolean
    | some (.text "date") => .valid .date
    | some (.text "enum") =>
      match Entries.requiredTexts es "values" with
      | .valid values => Checked.ofOption "values" (Content.ofValues? values)
      | .invalid members => .invalid members
    | some (.text "object") =>
      match _h : es.lookup "fields" with
      | none => .valid (.object [])
      | some (.list items) => (readFields items).map .object
      | some _ => .invalid ["fields"]
    | some (.text "array") =>
      match _h : es.lookup "element" with
      | none => .invalid ["element"]
      | some element => (Field.read element).map .array
    | some (.text "tuple") =>
      match _h : es.lookup "elements" with
      | none => .valid (.tuple [])
      | some (.list items) => (readFields items).map .tuple
      | some _ => .invalid ["elements"]
    | some (.text "record") =>
      match _h : es.lookup "value_descriptor" with
      | none => .invalid ["value_descriptor"]
      | some value => (Field.read value).map .record
    | some (.text "union") =>
      let discriminator := Entries.nullable es "discriminator" Datum.text?
      match _h : es.lookup "variants" with
      | none => discriminator.map fun key => .union key []
      | some (.list items) =>
        (discriminator.map fun key vs => .union key vs).and (readVariants items)
      | some _ => .invalid ["variants"]
    | _ => .invalid ["kind"]
  | _ => .invalid [""]
termination_by sizeOf d
decreasing_by
  all_goals
    have := sizeOf_lookup_lt _h
    simp only [Datum.record.sizeOf_spec, Datum.list.sizeOf_spec] at *
    omega

/-- Reads fields from records. -/
def readFields (ds : List Datum) : Checked (List Field) :=
  match ds with
  | [] => .valid []
  | d :: rest => ((Field.read d).map fun f fs => f :: fs).and (readFields rest)
termination_by sizeOf ds

/-- Reads the members of a union from records. -/
def readVariants (ds : List Datum) : Checked (List Variant) :=
  match ds with
  | [] => .valid []
  | .record es :: rest =>
    let fields : Checked (List Field) :=
      match _h : es.lookup "fields" with
      | none => .valid []
      | some (.list items) => readFields items
      | some _ => .invalid ["fields"]
    let variant := ((Entries.required es "value" Datum.text?).map Variant.mk).and fields
    (variant.map fun v vs => v :: vs).and (readVariants rest)
  | _ :: rest => (Checked.invalid ["variants"]).and (readVariants rest)
termination_by sizeOf ds
decreasing_by
  all_goals
    try have := sizeOf_lookup_lt _h
    simp only [Datum.record.sizeOf_spec, Datum.list.sizeOf_spec, List.cons.sizeOf_spec] at *
    omega

end

end FormSchema
