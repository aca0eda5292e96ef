import FormSchema.Introspection.Checks
import FormSchema.Introspection.Plan
import FormSchema.Introspection.Warned

/-!
# From nodes to fields

`fieldOf` makes the field of a value and, by its plan, the fields below it. A value that is
refused becomes a plain text field with a warning, and so does a check that is not known leave a
warning. Fields are named by the member of the shape they stand for; the element of an array, the
value of a record, the items of a tuple and the options of a union have names of their own. The
path to a field is what warnings are about. The walk fails where the tag of a union would be an
integer that is too long to be written.

Every value is smaller than the one it is a child of, which is why the walk ends.
-/

namespace FormSchema

/-! ## Names and paths -/

/-- The name of the element of an array. -/
def elementName : String := "item"

/-- The name of the value of a record. -/
def recordValueName : String := "value"

/-- The name of the option of a union at an index. -/
def optionName (index : Nat) : String :=
  "option_" ++ natText index

/-- The tag of the member of a union at an index that has none of its own. -/
def variantTag (index : Nat) : String :=
  "variant_" ++ natText index

/-- A name below a path. -/
def below (path name : String) : String :=
  path ++ "." ++ name

/-- A member of a shape below a path; the root has an empty path. -/
def memberPath (path name : String) : String :=
  if path.isEmpty then name else below path name

/-! ## Warnings -/

/-- A warning about the field at a path. -/
def fieldWarning (path message : String) : String :=
  "Field \"" ++ path ++ "\": " ++ message

/-- The warning of a refusal. -/
def Refusal.warning (path : String) : Refusal → String
  | unsupported tag =>
    fieldWarning path ("unsupported type \"" ++ tag ++ "\" -- rendered as a plain text input")
  | noValues => fieldWarning path "enum has no values -- rendered as a plain text input"

/-- The warning of a check that is not known. -/
def unknownCheckWarning (path check : String) : String :=
  fieldWarning path
    ("unknown check \"" ++ check ++ "\" -- constraint not reflected in generated form")

/-- The warning of a member of a union without a tag of its own. -/
def untaggedWarning (path discriminator : String) (index : Nat) : String :=
  fieldWarning path
    ("union member " ++ natText index ++ " has no literal \"" ++ discriminator ++
      "\" -- using tag \"" ++ variantTag index ++ "\"")

/-! ## Single fields -/

/-- The text of a description, which has to be a text. -/
def descriptionText (v : Value) : Result (Option String) :=
  if v.truthy then
    match v with
    | .text s => .ok (some s)
    | _ => .error (.invalid .field ["description"])
  else .ok none

/-- The field of a peeled node with its constraints and its content. -/
def Peeled.field (p : Peeled) (name : String) (constraints : Constraints) (content : Content) :
    Result Field :=
  match descriptionText p.description with
  | .error e => .error e
  | .ok description =>
    .ok ⟨name, Text.label name, description, p.isOptional, p.isNullable, constraints, content,
      none⟩

/-- The plain text field that stands for a node that is refused. -/
def Peeled.degraded (p : Peeled) (name : String) : Result Field :=
  p.field name {} .string

/-- The constraints of a field at a path, with a warning for every check that is not known. -/
def Node.fieldConstraints (n : Node) (path : String) : Warned Constraints :=
  if n.isFixed then pure {}
  else do
    let constraints ← .ofResult (n.constraints.1.toResult .constraints)
    .warn (n.constraints.2.map (unknownCheckWarning path))
    return constraints

/-! ## Members of tagged unions -/

/-- The shape of a member of a union that has a discriminator. -/
def taggedShape? (discriminator : Option String) (v : Value) : Result (Option Shape) :=
  match discriminator with
  | none => .ok none
  | some key =>
    if key.isEmpty then .ok none
    else
      match v.unwrap with
      | .error e => .error e
      | .ok u => (Value.node u.inner).shape?

/-- A member with a shape shows that of the node below its wrappers. -/
theorem exists_unwrap_of_taggedShape {discriminator : Option String} {v : Value} {shape : Shape}
    (h : taggedShape? discriminator v = .ok (some shape)) :
    ∃ u, v.unwrap = .ok u ∧ (Value.node u.inner).shape? = .ok (some shape) := by
  unfold taggedShape? at h
  split at h
  · cases h
  · split at h
    · cases h
    · split at h
      · cases h
      · rename_i u hu
        exact ⟨u, hu, h⟩

theorem taggedShape_size {discriminator : Option String} {v : Value} {shape : Shape}
    (h : taggedShape? discriminator v = .ok (some shape)) : sizeOf shape < sizeOf v := by
  obtain ⟨u, hu, hshape⟩ := exists_unwrap_of_taggedShape h
  have := unwrap_value_size hu
  have := shape_size hshape
  simp only [Value.node.sizeOf_spec] at this
  omega

/-- The first value of a literal, as a text. -/
def Node.literalTag? (n : Node) : Result (Option String) :=
  match n.kind with
  | .literal (v :: _) => writing .longInteger v.numbers (some v.display)
  | _ => .ok none

/-- The tag that a member of a union has at the discriminator. -/
def tag? (shape : Shape) (discriminator : String) : Result (Option String) :=
  match shape.lookup discriminator with
  | none => .ok none
  | some .null => .ok none
  | some v =>
    match v.unwrap with
    | .error e => .error e
    | .ok u => u.inner.literalTag?

/-- The tag of a member of a union, or the one for its index with a warning. -/
def tagOf (path discriminator : String) (index : Nat) (shape : Shape) : Warned String := do
  match ← .ofResult (tag? shape discriminator) with
  | some tag => return tag
  | none =>
    .warn [untaggedWarning path discriminator index]
    return variantTag index

/-! ## The walk -/

mutual

/-- The field with a name that a value becomes. -/
def fieldOf (path name : String) (v : Value) : Warned Field :=
  match _hp : v.peel with
  | .error e => .fail e
  | .ok p =>
    match p.node.plan with
    | .error e => .fail e
    | .ok (.refused reason) => do
      .warn [reason.warning path]
      .ofResult (p.degraded name)
    | .ok _ => do
      let constraints ← p.node.fieldConstraints path
      let content ← contentOf path p.node
      .ofResult (p.field name constraints content)
termination_by (sizeOf v, 0)
decreasing_by
  have := peel_size _hp
  exact Prod.Lex.left _ _ this

/-- The content that a node has as a field. -/
def contentOf (path : String) (n : Node) : Warned Content :=
  match _hn : n.plan with
  | .error e => .fail e
  | .ok (.leaf content) => return content
  | .ok (.object shape) => return .object (← fieldsOf path shape)
  | .ok (.array element) => return .array (← fieldOf (below path elementName) elementName element)
  | .ok (.tuple items) => return .tuple (← elementsOf path 0 items)
  | .ok (.record value) =>
    return .record (← fieldOf (below path recordValueName) recordValueName value)
  | .ok (.union discriminator options) =>
    return .union discriminator (← variantsOf path discriminator 0 options)
  | .ok _ => .fail .missingPart
termination_by (sizeOf n, 1)
decreasing_by
  all_goals
    have := plan_within _hn
    simp only [Plan.Within] at this
    rcases Nat.lt_or_eq_of_le this with h | h
    · exact Prod.Lex.left _ _ h
    · rw [h]; exact Prod.Lex.right _ (by decide)

/-- The fields of the members of a shape. -/
def fieldsOf (path : String) (shape : Shape) : Warned (List Field) :=
  match shape with
  | [] => return []
  | (name, v) :: rest => do
    let field ← fieldOf (memberPath path name) name v
    return field :: (← fieldsOf path rest)
termination_by (sizeOf shape, 0)
decreasing_by
  all_goals
    apply Prod.Lex.left
    simp only [List.cons.sizeOf_spec, Prod.mk.sizeOf_spec]
    omega

/-- The fields of the items of a tuple, from an index on. -/
def elementsOf (path : String) (index : Nat) (items : List Value) : Warned (List Field) :=
  match items with
  | [] => return []
  | v :: rest => do
    let field ← fieldOf (below path (natText index)) (natText index) v
    return field :: (← elementsOf path (index + 1) rest)
termination_by (sizeOf items, 0)
decreasing_by
  all_goals
    apply Prod.Lex.left
    simp only [List.cons.sizeOf_spec]
    omega

/-- The variants of the members of a union, from an index on. -/
def variantsOf (path : String) (discriminator : Option String) (index : Nat)
    (options : List Value) : Warned (List Variant) :=
  match options with
  | [] => return []
  | v :: rest => do
    let variant ← variantOf path discriminator index v
    return variant :: (← variantsOf path discriminator (index + 1) rest)
termination_by (sizeOf options, 0)
decreasing_by
  all_goals
    apply Prod.Lex.left
    simp only [List.cons.sizeOf_spec]
    omega

/-- The variant of a member of a union. A member with a shape has a tag and the fields of the
shape; any other member is the only field of its variant. -/
def variantOf (path : String) (discriminator : Option String) (index : Nat) (v : Value) :
    Warned Variant :=
  match _hs : taggedShape? discriminator v with
  | .error e => .fail e
  | .ok (some shape) => do
    let tag ← tagOf path (discriminator.getD "") index shape
    return ⟨tag, ← fieldsOf (below path tag) shape⟩
  | .ok none => do
    let field ← fieldOf (below path (optionName index)) (optionName index) v
    return ⟨variantTag index, [field]⟩
termination_by (sizeOf v, 1)
decreasing_by
  · exact Prod.Lex.left _ _ (taggedShape_size _hs)
  · exact Prod.Lex.right _ (by decide)

end

end FormSchema
