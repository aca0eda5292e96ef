import FormSchema.Field.Record
import FormSchema.Proofs.Restoring
import FormSchema.Proofs.Origin
import FormSchema.SchemaFile.Expression

/-!
# How forms are arranged

Every field at any depth of a form is arranged as the node it comes from (`introspect_isArranged`).
The members of an object become fields under their names, in their order, and the same is said of
the members of a tagged variant; the parts of an array, a tuple and a record have names of their
own. Where a union has no discriminator, each of its options becomes a variant with a single field,
both named by the index of the option, and the expression of the union has one expression for each
option, in order (`variantsOf_untagged`, `union_isArranged`).

The record of a field names the same kind twice, and that of an enum has a first value.
-/

namespace FormSchema

/-! ## What a field is made from -/

/-- The field is what the walk makes of the value, under the name of the field. -/
def Field.IsMadeOf (f : Field) (v : Value) : Prop :=
  ∃ path warnings, (fieldOf path f.name v).run = .ok (f, warnings)

/-- The fields have the names of the members of a shape, in order, and no two of them the same. -/
def AreMembers (shape : Shape) (fields : List Field) : Prop :=
  fields.map Field.name = shape.map Prod.fst ∧ (fields.map Field.name).Nodup

/-- The variant is written as its only field, not as an object. -/
def Variant.IsSynthetic (v : Variant) : Prop :=
  ∃ f, v.fields = [f] ∧ startsWith "variant_" v.tag = true ∧ startsWith "option_" f.name = true

/-- The variants are those of options without a shape: each has the tag of its index and a single
field, named by the index too, that is made of the option. -/
structure AreOptionsOf (options : List Value) (variants : List Variant) (fields : List Field) :
    Prop where
  made : List.Forall₂ (fun f v => Field.IsMadeOf f v) fields options
  tags : variants.map Variant.tag = (List.range options.length).map variantTag
  single : variants.map Variant.fields = fields.map fun f => [f]
  names : fields.map Field.name = (List.range options.length).map optionName

/-- The content has the parts of a node, under the names and in the order that belong to them. -/
def Content.IsArranged (n : Node) : Content → Prop
  | .object fields =>
    ∃ shape, (Value.node n).shape? = .ok (some shape) ∧ AreMembers shape fields
  | .array element => (∃ v, n.kind = .array v) ∧ element.name = "item"
  | .tuple elements =>
    ∃ items, n.kind = .tuple items ∧
      elements.map Field.name = (List.range items.length).map natText
  | .record value => (∃ key v, n.kind = .record key v) ∧ value.name = "value"
  | .union discriminator variants =>
    ∃ options, n.kind = .union options discriminator ∧
      List.Forall₂ (fun v variant => ∀ shape, taggedShape? discriminator v = .ok (some shape) →
        AreMembers shape (Variant.fields variant)) options variants ∧
      (givenName? discriminator = none → ∃ fields, AreOptionsOf options variants fields ∧
        (discriminator = none → (∀ v ∈ variants, v.IsSynthetic) ∧
          optionExpressions variants = fields.map Field.expression))
  | _ => True

/-- What holds of every field of the form of a schema. -/
structure Field.IsArranged (schema : Value) (f : Field) : Prop where
  type : f.toDatum.get? "type" = some (.text f.type.name)
  kind : (f.toDatum.get? "metadata").bind (fun d => d.get? "kind") = some (.text f.type.name)
  values : f.type = .enum → ∃ first rest,
    (f.toDatum.get? "metadata").bind (fun d => d.get? "values") = some (.list (first :: rest))
  label : f.label = Text.label f.name
  reference : f.reference = none
  content : ∃ (v : Value) (p : Peeled), v.Inside schema ∧ f.IsMadeOf v ∧ v.peel = .ok p ∧
    f.content.IsArranged p.node

/-! ## Records of fields -/

theorem Field.type_toDatum (f : Field) : f.toDatum.get? "type" = some (.text f.type.name) := by
  obtain ⟨name, label, description, isOptional, isNullable, constraints, content, reference⟩ := f
  rfl

theorem Field.metadata_toDatum (f : Field) :
    f.toDatum.get? "metadata" =
      some (.record (("kind", .text f.type.name) :: f.content.members)) := by
  obtain ⟨name, label, description, isOptional, isNullable, constraints, content, reference⟩ := f
  rfl

theorem Field.values_toDatum {f : Field} (h : f.type = .enum) : ∃ first rest,
    (f.toDatum.get? "metadata").bind (fun d => d.get? "values") =
      some (.list (first :: rest)) := by
  rw [f.metadata_toDatum]
  unfold Field.type at h
  cases hcontent : f.content with
  | enum first rest => exact ⟨.text first, rest.map .text, rfl⟩
  | _ => rw [hcontent] at h; cases h

/-! ## Items and options -/

theorem elementsOf_names {path : String} : ∀ {items : List Value} {index : Nat}
    {fields : List Field} {warnings : List String},
    (elementsOf path index items).run = .ok (fields, warnings) →
      fields.map Field.name = (List.range' index items.length).map natText
  | [], _, _, _, h => by
    rw [elementsOf, Warned.run_pure] at h
    cases h
    rfl
  | v :: rest, _, _, _, h => by
    obtain ⟨f, _, others, _, hf, hothers, rfl, -⟩ := elementsOf_cons h
    rw [List.map_cons, fieldOf_name hf, elementsOf_names hothers, List.length_cons,
      List.range'_succ, List.map_cons]

/-- The members of a tagged variant are fields in the order of the shape. -/
theorem variantsOf_members {path : String} {discriminator : Option String} :
    ∀ {options : List Value} {index : Nat} {variants : List Variant} {warnings : List String},
      (∀ v ∈ options, v.HasDistinctKeys) →
        (variantsOf path discriminator index options).run = .ok (variants, warnings) →
          List.Forall₂ (fun v variant => ∀ shape, taggedShape? discriminator v = .ok (some shape) →
            AreMembers shape (Variant.fields variant)) options variants
  | [], _, _, _, _, h => by
    rw [variantsOf, Warned.run_pure] at h
    cases h
    exact .nil
  | v :: rest, _, _, _, hkeys, h => by
    obtain ⟨variant, _, others, _, hv, hothers, rfl, -⟩ := variantsOf_cons h
    obtain ⟨hfirst, hrest⟩ := List.forall_mem_cons.1 hkeys
    refine .cons (fun shape hshape => ?_) (variantsOf_members hrest hothers)
    rcases variantOf_cases hv with ⟨shape', _, _, hshape', -, hfields, -⟩ | ⟨_, _, hnone, -⟩
    · obtain rfl : shape = shape' := by simpa [hshape] using hshape'
      have hnames := fieldsOf_names hfields
      exact ⟨hnames, hnames ▸ nodup_keys_of_taggedShape hfirst hshape⟩
    · rw [hshape] at hnone
      cases hnone

/-! ## Options without a shape -/

/-- The variants of single fields, tagged by their indices from one on. -/
def optionVariants (index : Nat) : List Field → List Variant
  | [] => []
  | f :: rest => ⟨variantTag index, [f]⟩ :: optionVariants (index + 1) rest

theorem optionVariants_tags : ∀ (index : Nat) (fields : List Field),
    (optionVariants index fields).map Variant.tag =
      (List.range' index fields.length).map variantTag
  | _, [] => rfl
  | index, f :: rest => by
    rw [optionVariants, List.map_cons, optionVariants_tags, List.length_cons, List.range'_succ,
      List.map_cons]

theorem optionVariants_fields : ∀ (index : Nat) (fields : List Field),
    (optionVariants index fields).map Variant.fields = fields.map fun f => [f]
  | _, [] => rfl
  | index, f :: rest => by
    rw [optionVariants, List.map_cons, optionVariants_fields, List.map_cons]

theorem optionVariants_isSynthetic : ∀ (index start : Nat) {fields : List Field},
    fields.map Field.name = (List.range' start fields.length).map optionName →
      ∀ v ∈ optionVariants index fields, v.IsSynthetic
  | _, _, [], _ => by simp [optionVariants]
  | index, start, f :: rest, hnames => by
    rw [List.length_cons, List.range'_succ, List.map_cons, List.map_cons, List.cons.injEq] at hnames
    refine List.forall_mem_cons.2 ⟨⟨f, rfl, startsWith_append _ _, ?_⟩,
      optionVariants_isSynthetic (index + 1) (start + 1) hnames.2⟩
    rw [hnames.1]
    exact startsWith_append _ _

/-- Synthetic variants are written as the expressions of their fields. -/
theorem optionExpressions_of_isSynthetic : ∀ (index : Nat) {fields : List Field},
    (∀ v ∈ optionVariants index fields, v.IsSynthetic) →
      optionExpressions (optionVariants index fields) = fields.map Field.expression
  | _, [], _ => rfl
  | index, f :: rest, h => by
    obtain ⟨⟨g, hg, htag, hname⟩, hrest⟩ := List.forall_mem_cons.1 h
    obtain rfl : f = g := List.singleton_inj.1 hg
    have hwritten : optionExpression (variantTag index) [(f.name, f.expression)] =
        f.expression := by
      rw [optionExpression, htag, hname]
      rfl
    rw [optionVariants, optionExpressions, memberExpressions, memberExpressions, hwritten,
      optionExpressions_of_isSynthetic (index + 1) hrest, List.map_cons]

theorem taggedShape?_of_givenName {discriminator : Option String} (v : Value)
    (h : givenName? discriminator = none) : taggedShape? discriminator v = .ok none := by
  unfold givenName? at h
  unfold taggedShape?
  split
  · rfl
  · split at h <;> simp_all

/-- Without a discriminator every option is the only field of its variant. -/
theorem variantsOf_untagged {path : String} {discriminator : Option String}
    (hnone : givenName? discriminator = none) :
    ∀ {options : List Value} {index : Nat} {variants : List Variant} {warnings : List String},
      (variantsOf path discriminator index options).run = .ok (variants, warnings) →
        ∃ fields, List.Forall₂ (fun f v => Field.IsMadeOf f v) fields options ∧
          fields.map Field.name = (List.range' index fields.length).map optionName ∧
          variants = optionVariants index fields
  | [], _, _, _, h => by
    rw [variantsOf, Warned.run_pure] at h
    cases h
    exact ⟨[], .nil, rfl, rfl⟩
  | v :: rest, index, _, _, h => by
    obtain ⟨variant, _, others, _, hv, hothers, rfl, -⟩ := variantsOf_cons h
    obtain ⟨fields, hmade, hnames, rfl⟩ := variantsOf_untagged hnone hothers
    rcases variantOf_cases hv with ⟨_, _, _, hshape, -⟩ | ⟨f, _, -, hf, rfl, -⟩
    · rw [taggedShape?_of_givenName v hnone] at hshape
      cases hshape
    · have hname := fieldOf_name hf
      refine ⟨f :: fields, .cons ⟨_, _, by rw [hname]; exact hf⟩ hmade, ?_, rfl⟩
      rw [List.map_cons, hname, hnames, List.length_cons, List.range'_succ, List.map_cons]

/-- The variants of a union without a discriminator, and its expression if none is given at all. -/
theorem union_isArranged {path : String} {discriminator : Option String} {options : List Value}
    {variants : List Variant} {warnings : List String} (hnone : givenName? discriminator = none)
    (h : (variantsOf path discriminator 0 options).run = .ok (variants, warnings)) :
    ∃ fields, AreOptionsOf options variants fields ∧ (∀ v ∈ variants, v.IsSynthetic) ∧
      optionExpressions variants = fields.map Field.expression := by
  obtain ⟨fields, hmade, hnames, rfl⟩ := variantsOf_untagged hnone h
  have hlength := hmade.length_eq
  have hsynthetic := optionVariants_isSynthetic 0 0 hnames
  refine ⟨fields, ⟨hmade, ?_, optionVariants_fields 0 fields, ?_⟩, hsynthetic,
    optionExpressions_of_isSynthetic 0 hsynthetic⟩
  · rw [optionVariants_tags, hlength, List.range_eq_range']
  · rw [hnames, hlength, List.range_eq_range']

/-! ## Every field -/

/-- The content of a field is arranged as the node. -/
theorem isArranged_of_plan {n : Node} {plan : Plan} {path : String} {content : Content}
    {warnings : List String} (hkeys : (Value.node n).HasDistinctKeys) (hplan : n.plan = .ok plan)
    (hread : (plan.read path).run = .ok (content, warnings)) : content.IsArranged n := by
  have hof := plan_isOf hplan
  cases Plan.makes_of_read hread with
  | leaf =>
    cases content with
    | string | number | boolean | date | enum => trivial
    | _ => cases hof
  | @object shape _ _ hfields =>
    have hnames := fieldsOf_names hfields
    exact ⟨shape, hof, hnames, hnames ▸ nodup_keys_of_shape hkeys hof⟩
  | @array element _ _ hf => exact ⟨⟨element, hof⟩, fieldOf_name hf⟩
  | @tuple items _ _ hfields =>
    refine ⟨items, hof, ?_⟩
    rw [elementsOf_names hfields, List.range_eq_range']
  | @record value _ _ hf =>
    obtain ⟨key, hkind⟩ := hof
    exact ⟨⟨key, value, hkind⟩, fieldOf_name hf⟩
  | @union discriminator options _ _ hvariants =>
    have hoptions : ∀ v ∈ options, v.HasDistinctKeys := fun v hv =>
      hkeys.of_inside (inside_of_plan hplan v hv)
    refine ⟨options, hof, variantsOf_members hoptions hvariants, fun hnone => ?_⟩
    obtain ⟨fields, hfields, hwritten⟩ := union_isArranged hnone hvariants
    exact ⟨fields, hfields, fun _ => hwritten⟩

/-- A field that comes from a schema is arranged as the node that it is of. -/
theorem isArranged_of_comesFrom {schema : Value} {f : Field} (hkeys : schema.HasDistinctKeys)
    (h : f.ComesFrom schema) : f.IsArranged schema := by
  obtain ⟨v, hv, path, name, warnings, hfield⟩ := h
  obtain ⟨p, hp, description, -, c, content, rfl, hcontent⟩ := fieldOf_cases hfield
  have hinside := (inside_of_peel hp).1.trans hv
  refine ⟨Field.type_toDatum _, ?_, Field.values_toDatum, rfl, rfl, v, p, hv, ⟨_, _, hfield⟩, hp,
    ?_⟩
  · rw [Field.metadata_toDatum]
    rfl
  · rcases hcontent with ⟨-, rfl⟩ | ⟨plan, _, _, hplan, -, hread⟩
    · trivial
    · exact isArranged_of_plan (hkeys.of_inside hinside) hplan hread

/-- The root fields of a form are those of the members of the schema, in order, and every field at
any depth is arranged as the node that it is of. -/
theorem introspect_isArranged {schema : Value} {naming : Naming} {steps : Datum} {form : Form}
    (hkeys : schema.HasDistinctKeys) (h : introspect schema naming steps = .ok form) :
    (∃ shape, schema.shape? = .ok (some shape) ∧ AreMembers shape form.fields) ∧
      ∀ root ∈ form.fields, ∀ f : Field, f.Within root → f.IsArranged schema := by
  obtain ⟨shape, hshape, hfields, -⟩ := fieldsOf_of_introspect h
  have hnames := fieldsOf_names hfields
  exact ⟨⟨shape, hshape, hnames, hnames ▸ nodup_keys_of_shape hkeys hshape⟩,
    fun root hroot f hf => isArranged_of_comesFrom hkeys (introspect_comesFrom h root hroot f hf)⟩

/-! ## A choice between a text and a number -/

/-- The union of texts and numbers. -/
def choiceNode : Node :=
  .plain (.union [.node (.plain (.string none)), .node (.plain .number)] none)

/-- The object of such a choice. -/
def choiceObject : Value :=
  .node (.plain (.object [("a", .node choiceNode)]))

/-- The fields of the two options. -/
def choiceOptions : List Field :=
  [⟨"option_0", "Option_0", none, false, false, {}, .string, none⟩,
    ⟨"option_1", "Option_1", none, false, false, {}, .number, none⟩]

/-- The form of such an object. -/
def choiceForm : Form :=
  ⟨⟨"F", "./s", "s"⟩, [⟨"a", "A", none, false, false, {},
    .union none (optionVariants 0 choiceOptions), none⟩], [], none⟩

theorem hasDistinctKeys_choiceObject : choiceObject.HasDistinctKeys := by
  have hleaf {kind : Kind} (hkeys : kind.keys = []) (hvalues : kind.values = []) :
      (Value.node (.plain kind)).AllSound fun _ => True :=
    plain_allSound (by simp [hkeys]) (by simp [hvalues])
  have hchoice : (Value.node choiceNode).AllSound fun _ => True :=
    plain_allSound List.nodup_nil (by simpa [Kind.values] using ⟨hleaf rfl rfl, hleaf rfl rfl⟩)
  have hobject : choiceObject.AllSound fun _ => True :=
    plain_allSound (List.nodup_singleton _) (by simpa [Kind.values] using hchoice)
  exact hobject.hasDistinctKeys

theorem introspect_choiceObject :
    introspect choiceObject ⟨"F", "./s", "s"⟩ .null = .ok choiceForm := by
  have htext : (fieldOf (below "a" (optionName 0)) (optionName 0)
      (.node (.plain (.string none)))).run = .ok (choiceOptions[0], []) := by
    rw [fieldOf_of_plan (peel_of_isCore rfl rfl) rfl]
    cbv
  have hamount : (fieldOf (below "a" (optionName 1)) (optionName 1)
      (.node (.plain .number))).run = .ok (choiceOptions[1], []) := by
    rw [fieldOf_of_plan (peel_of_isCore rfl rfl) rfl]
    cbv
  have hvariants := variantsOf_of_run (@variantOf_option "a" none _ _ _ _ rfl htext)
    (variantsOf_of_run (variantOf_option rfl hamount) (by rw [variantsOf]; rfl))
  have hread : ((Plan.union none
      [.node (.plain (.string none)), .node (.plain .number)]).read "a").run =
        .ok (.union none (optionVariants 0 choiceOptions), []) := run_return hvariants _
  have hfield : (fieldOf "a" "a" (.node choiceNode)).run = _ := fieldOf_plain rfl rfl rfl hread
  have hlabel : Text.label "a" = "A" := by cbv
  rw [hlabel] at hfield
  exact introspect_of_fieldsOf (fieldsOf_singleton hfield) _

/-- The form of a choice between a text and a number has a variant for each. -/
theorem introspect_isArranged_choice :
    choiceObject.HasDistinctKeys ∧
      introspect choiceObject ⟨"F", "./s", "s"⟩ .null = .ok choiceForm ∧
        ∀ root ∈ choiceForm.fields, ∀ f : Field, f.Within root → f.IsArranged choiceObject :=
  ⟨hasDistinctKeys_choiceObject, introspect_choiceObject,
    (introspect_isArranged hasDistinctKeys_choiceObject introspect_choiceObject).2⟩

end FormSchema
