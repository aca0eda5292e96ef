import FormSchema.Proofs.SecondTrip

/-!
# Tagged unions in schema files

In the file of a form a member of a tagged union has the literal of its tag at the discriminator,
whatever stood there. So a tagged union that goes through a file keeps its discriminator, its tags
and the names of its fields, but the field at the discriminator comes back as a text that is
required and has no description (`settledVariants_tagged_iff`). The union is as it was just if this
field was one before and nothing is lost of the other fields (`readsAs_tagged`).

A literal becomes such a field just if its value is a text and it has neither a wrapper nor a
description (`isBareText_iff`). A number, a truth value, a description, or that the field may be
missing or null, is lost.
-/

namespace FormSchema

/-- A text that is required and has no description and no constraints. -/
def Field.IsBareText (f : Field) : Prop :=
  f.description = none ∧ f.isOptional = false ∧ f.isNullable = false ∧ f.constraints = {} ∧
    f.content = .string

/-- A literal with one text, number or truth value, which may have wrappers and a description. -/
def Value.IsLiteral (u : Value) : Prop :=
  ∃ p v content, u.peel = .ok p ∧ p.node.kind = .literal [v] ∧ literalPlan [v] = .leaf content

/-- A literal with one text that has no wrapper and no description. -/
def Value.IsBareLiteral (u : Value) : Prop :=
  ∃ p s, u.peel = .ok p ∧ p.node.kind = .literal [.text s] ∧ p.isOptional = false ∧
    p.isNullable = false ∧ p.description.truthy = false

/-! ## Literals at the discriminator -/

/-- A field is the literal of its name just if it is a bare text. -/
theorem literalField_eq_iff {f : Field} (h : f.Settles) :
    literalField f.name = f ↔ f.IsBareText := by
  have hlabel := h.label
  have hreference := h.reference
  obtain ⟨name, label, description, isOptional, isNullable, constraints, content, reference⟩ := f
  obtain rfl : label = Text.label name := hlabel
  obtain rfl : reference = none := hreference
  constructor
  · intro heq
    cases heq
    exact ⟨rfl, rfl, rfl, rfl, rfl⟩
  · rintro ⟨rfl, rfl, rfl, rfl, rfl⟩
    rfl

theorem descriptionText_eq_none {v : Value} {description : Option String}
    (h : descriptionText v = .ok description) : description = none ↔ v.truthy = false := by
  cases description with
  | some s =>
    obtain ⟨rfl, hne⟩ := descriptionText_eq_some h
    simp [Value.truthy, hne]
  | none =>
    unfold descriptionText at h
    split at h
    · split at h <;> cases h
    · rename_i hfalse
      simpa using hfalse

/-- A literal with one value becomes a bare text just if it is a bare literal. -/
theorem isBareText_iff {path name : String} {u : Value} {f : Field} {warnings : List String}
    (hu : u.IsLiteral) (h : (fieldOf path name u).run = .ok (f, warnings)) :
    f.IsBareText ↔ u.IsBareLiteral := by
  obtain ⟨p, v, content, hp, hkind, hplan⟩ := hu
  obtain ⟨description, hdescription, rfl⟩ := fieldOf_literal hp hkind hplan h
  rw [Field.IsBareText, descriptionText_eq_none hdescription]
  constructor
  · rintro ⟨hnone, hoptional, hnullable, -, rfl⟩
    cases v with
    | text s => exact ⟨p, s, hp, hkind, hoptional, hnullable, hnone⟩
    | _ => cases hplan
  · rintro ⟨q, s, hq, hliteral, hoptional, hnullable, hnone⟩
    obtain rfl : p = q := by simpa [hp] using hq
    obtain rfl : v = .text s := by simpa [hkind] using hliteral
    exact ⟨hnone, hoptional, hnullable, rfl, (Plan.leaf.inj hplan).symm⟩

/-! ## What comes back -/

theorem settledFields_names (discriminator : Option String) (fields : List Field) :
    (settledFields discriminator fields).map Field.name = fields.map Field.name := by
  induction fields with
  | nil => rfl
  | cons f rest ih =>
    rw [settledFields, List.map_cons, List.map_cons, ih]
    split
    · rfl
    · rw [Field.settled_name]

theorem settledVariants_tags (discriminator : Option String) (variants : List Variant) :
    (settledVariants discriminator variants).map Variant.tag = variants.map Variant.tag := by
  induction variants with
  | nil => rfl
  | cons v rest ih =>
    obtain ⟨tag, fields⟩ := v
    rw [settledVariants, List.map_cons, List.map_cons, ih]

theorem settledVariants_names (discriminator : Option String) (variants : List Variant) :
    (settledVariants discriminator variants).map (fun v => v.fields.map Field.name) =
      variants.map fun v => v.fields.map Field.name := by
  induction variants with
  | nil => rfl
  | cons v rest ih =>
    obtain ⟨tag, fields⟩ := v
    rw [settledVariants, List.map_cons, List.map_cons, ih, settledFields_names]

theorem settled_mem_settledFields {fields : List Field} {f : Field} (h : f ∈ fields) :
    f.settled ∈ settledFields none fields := by
  induction fields with
  | nil => cases h
  | cons first rest ih =>
    rw [settledFields]
    rcases List.mem_cons.1 h with rfl | hrest
    · exact List.mem_cons_self
    · exact List.mem_cons_of_mem _ (ih hrest)

/-- The variants come back as they were just if the fields at the discriminator are bare texts and
nothing is lost of the others. -/
theorem settledVariants_tagged_iff {key : String} {variants : List Variant}
    (h : ∀ v ∈ variants, ∀ f ∈ v.fields, f.Settles) :
    settledVariants (some key) variants = variants ↔ ∀ v ∈ variants, ∀ f ∈ v.fields,
      if f.name = key then f.IsBareText else f.settled = f := by
  rw [settledVariants_eq_iff]
  refine forall₂_congr fun v hv => ?_
  rw [settledFields_eq_iff]
  refine forall₂_congr fun f hf => ?_
  by_cases hname : f.name = key
  · rw [if_pos (by simp [hname]), if_pos hname, literalField_eq_iff (h v hv f hf)]
  · rw [if_neg (by simpa using Ne.symm hname), if_neg hname]

/-! ## Unions of forms -/

/-- The form that is read from the file of a form is what is left of it, if it can be read. -/
theorem readsAs_settled {schema : Value} {naming : Naming} {steps : Datum} {form : Form}
    {settings : Settings} (hbuilt : BuiltFrom (fun _ => True) schema) (hnodes : schema.AllWritable)
    (hform : introspect schema naming steps = .ok form) (hsettings : settings.HasPlainImport)
    (hnumbers : form.HasShortNumbers) (hname : Source.isWord naming.exportName.toList = true)
    (htype : Source.isWord (Text.typeName naming.exportName).toList = true) :
    (∀ root ∈ form.fields, ∀ f : Field, f.Within root → f.Settles) ∧
      ∃ second, form.ReadsAs settings second ∧ second.fields = settledFields none form.fields := by
  have hdistinct : schema.HasDistinctKeys := hbuilt.allSound.hasDistinctKeys
  obtain ⟨shape, hshape, hfields, rfl⟩ := fieldsOf_of_introspect hform
  have hwritten : ∀ root ∈ form.fields, ∀ f : Field, f.Within root → f.IsWritten :=
    fun root hroot f hf =>
      isWritten_of_comesFrom hdistinct hnodes (introspect_comesFrom hform root hroot f hf)
  have hsettles : ∀ root ∈ form.fields, ∀ f : Field, f.Within root → f.Settles :=
    fun root hroot f hf => (hwritten root hroot f hf).settles
  have hkeys : AreKeys (form.fields.map Field.name) := by
    rw [fieldsOf_names hfields]
    exact ⟨nodup_keys_of_shape hdistinct hshape,
      keys_of_shape hnodes.hasTexts (inside_of_shape hshape)⟩
  obtain ⟨warnings, hread, -⟩ := introspect_settles hkeys hsettles form.naming
  obtain ⟨file, hfile, hnode⟩ := Source.schema_schemaFile hsettings hname htype
    (isReadable_of_isWritten hwritten hnumbers)
  exact ⟨hsettles, _, ⟨hnumbers, file, form.node, hfile, hnode, hread⟩, rfl⟩

/-- A tagged union of a form keeps its discriminator, its tags and the names of its fields when the
file of the form is read. It keeps everything just if each field at the discriminator is a bare text
and nothing is lost of the other fields. A literal with one value, where such a field comes from
one, is a bare literal then. -/
theorem readsAs_tagged {schema : Value} {naming : Naming} {steps : Datum} {form : Form}
    {settings : Settings} (hbuilt : BuiltFrom (fun _ => True) schema) (hnodes : schema.AllWritable)
    (hform : introspect schema naming steps = .ok form) (hsettings : settings.HasPlainImport)
    (hnumbers : form.HasShortNumbers) (hname : Source.isWord naming.exportName.toList = true)
    (htype : Source.isWord (Text.typeName naming.exportName).toList = true) :
    ∃ second, form.ReadsAs settings second ∧
      ∀ root ∈ form.fields, ∀ key variants, root.content = .union (some key) variants →
        ∃ again, { root with constraints := {}, content := .union (some key) again } ∈
            second.fields ∧
          again.map Variant.tag = variants.map Variant.tag ∧
          (again.map fun v => v.fields.map Field.name) =
            (variants.map fun v => v.fields.map Field.name) ∧
          (again = variants ↔ ∀ v ∈ variants, ∀ f ∈ v.fields,
            if f.name = key then f.IsBareText else f.settled = f) ∧
          ∀ v ∈ variants, ∀ f ∈ v.fields, ∃ u : Value, u.Inside schema ∧
            (∃ path warnings, (fieldOf path f.name u).run = .ok (f, warnings)) ∧
              (u.IsLiteral → (f.IsBareText ↔ u.IsBareLiteral)) := by
  obtain ⟨hsettles, second, hreads, hsecond⟩ :=
    readsAs_settled hbuilt hnodes hform hsettings hnumbers hname htype
  refine ⟨second, hreads, fun root hroot key variants hcontent => ?_⟩
  have hwithin : ∀ v ∈ variants, ∀ f ∈ v.fields, f.Within root := by
    intro v hv f hf
    have hchild : f ∈ root.content.children := by
      rw [hcontent]
      exact List.mem_flatMap.2 ⟨v, hv, hf⟩
    exact .deeper hchild (.self f)
  refine ⟨settledVariants (some key) variants, ?_, settledVariants_tags _ _,
    settledVariants_names _ _, settledVariants_tagged_iff fun v hv f hf =>
      hsettles root hroot f (hwithin v hv f hf), fun v hv f hf => ?_⟩
  · have hmem : root.settled ∈ second.fields := hsecond ▸ settled_mem_settledFields hroot
    obtain ⟨name, label, description, isOptional, isNullable, constraints, content, reference⟩ :=
      root
    obtain rfl : content = .union (some key) variants := hcontent
    exact hmem
  · obtain ⟨u, hu, path, name, warnings, hfield⟩ :=
      introspect_comesFrom hform root hroot f (hwithin v hv f hf)
    obtain rfl := fieldOf_name hfield
    exact ⟨u, hu, ⟨path, warnings, hfield⟩, fun hliteral => isBareText_iff hliteral hfield⟩

/-! ## A union with a described tag -/

/-- The literal of a tag with a description. -/
def describedTag : Node :=
  (Node.plain (.literal [.text "a"])).withDescription (.text "Kind of item")

/-- An object with such a tag. -/
def describedNode : Node :=
  .plain (.object [("kind", .node describedTag)])

/-- A union with such an object. -/
def describedUnion : Node :=
  .plain (.union [.node describedNode] (some "kind"))

/-- The object of such a union. -/
def describedObject : Value :=
  .node (.plain (.object [("a", .node describedUnion)]))

/-- The variants of such a union. -/
def describedVariants : List Variant :=
  [⟨"a", [⟨"kind", "Kind", some "Kind of item", false, false, {}, .string, none⟩]⟩]

/-- The field of such a union. -/
def describedField : Field :=
  ⟨"a", "A", none, false, false, {}, .union (some "kind") describedVariants, none⟩

/-- The form of such an object. -/
def describedForm : Form :=
  ⟨⟨"F", "./s", "s"⟩, [describedField], [], none⟩

theorem builtFrom_describedObject : BuiltFrom (fun _ => True) describedObject := by
  have hliteral : Builder.literal.call [.text "a"] =
      .ok (.node (.plain (.literal [.text "a"]))) := rfl
  have hdescribe : Method.describe.call (.plain (.literal [.text "a"])) [.text "Kind of item"] =
      .ok (.node describedTag) := rfl
  have hunion : Builder.discriminatedUnion.call [.text "kind", .list [.node describedNode]] =
      .ok (.node describedUnion) := rfl
  have htag : BuiltFrom (fun _ => True) (.node describedTag) :=
    .call (.construct (by simpa using .text _) hliteral) rfl (by simpa using .text _) hdescribe
  have hmember : BuiltFrom (fun _ => True) (.node describedNode) := builtFrom_object htag
  refine builtFrom_object (.construct ?_ hunion)
  simpa using ⟨.text _, .list (by simpa using hmember)⟩

theorem allWritable_describedObject : describedObject.AllWritable := by
  have htag : (Value.node describedTag).AllWritable := by
    refine forall_inside_node ⟨by rintro _ ⟨⟩, by rintro _ ⟨⟩, by rintro _ ⟨⟩, ?_, ?_,
      by rintro _ _ ⟨⟩⟩ (by rintro _ ⟨⟩)
    · rintro _ ⟨⟩
      decide
    · rintro _ ⟨⟩ v hv
      obtain rfl := List.mem_singleton.1 hv
      show Text.isBasic "a" = true
      decide
  refine allWritable_object (by decide) (forall_inside_node ?_ ?_)
  · refine plain_isWritable (by rintro _ ⟨⟩) (by rintro _ ⟨⟩) ?_
    rintro _ _ ⟨⟩
    decide
  · exact List.forall_mem_singleton.2 (allWritable_object (by decide) htag)

theorem described_gives : (variantOf "a" (some "kind") 0 (.node describedNode)).run =
    .ok (⟨"a", [⟨"kind", "Kind", some "Kind of item", false, false, {}, .string, none⟩]⟩, []) := by
  have hpeel : (Value.node describedTag).peel =
      .ok ⟨describedTag, false, false, .text "Kind of item"⟩ := by
    rw [peel_of_unwrap (unwrap_of_isCore rfl) rfl]
    cbv
  have hfields (path : String) : (fieldsOf path [("kind", .node describedTag)]).run =
      .ok ([⟨"kind", "Kind", some "Kind of item", false, false, {}, .string, none⟩], []) := by
    refine fieldsOf_singleton ?_
    rw [fieldOf_of_plan hpeel rfl]
    cbv
  have hlookup : [("kind", Value.node describedTag)].lookup "kind" = some (.node describedTag) :=
    List.lookup_cons_self
  exact variantOf_of_run (taggedShape?_object (by decide)) (tagOf_of_literal hlookup rfl (by decide))
    (hfields _)

theorem introspect_describedObject :
    introspect describedObject ⟨"F", "./s", "s"⟩ .null = .ok describedForm := by
  have hvariants := variantsOf_of_run described_gives (by rw [variantsOf]; rfl)
  have hread : ((Plan.union (some "kind") [.node describedNode]).read "a").run =
      .ok (.union (some "kind") describedVariants, []) :=
    run_return hvariants _
  have hfield : (fieldOf "a" "a" (.node describedUnion)).run = _ := fieldOf_plain rfl rfl rfl hread
  have hlabel : Text.label "a" = "A" := by cbv
  rw [hlabel] at hfield
  exact introspect_of_fieldsOf (fieldsOf_singleton hfield) _

theorem hasShortNumbers_describedForm : describedForm.HasShortNumbers := by
  intro root hroot g hg k hk
  obtain rfl := List.mem_singleton.1 hroot
  cases hg with
  | self => cases hk
  | deeper hd => cases hd

/-- The description of the tag does not come back. -/
theorem readsAs_tagged_described :
    introspect describedObject ⟨"F", "./s", "s"⟩ .null = .ok describedForm ∧
      ∃ second again, describedForm.ReadsAs {} second ∧
        { describedField with content := .union (some "kind") again } ∈ second.fields ∧
          again ≠ describedVariants := by
  obtain ⟨second, hreads, hunions⟩ := readsAs_tagged builtFrom_describedObject
    allWritable_describedObject introspect_describedObject hasPlainImport_default
    hasShortNumbers_describedForm (by decide) (by decide)
  obtain ⟨again, hmem, -, -, hsame, -⟩ :=
    hunions describedField (List.mem_singleton_self _) "kind" describedVariants rfl
  refine ⟨introspect_describedObject, second, again, hreads, hmem, fun heq => ?_⟩
  have hbare := hsame.1 heq _ (List.mem_singleton_self _) _ (List.mem_singleton_self _)
  rw [if_pos rfl] at hbare
  exact absurd hbare.1 (by decide)

end FormSchema
