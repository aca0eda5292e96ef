import FormSchema.Proofs.Rendering
import FormSchema.Proofs.Totality

/-!
# What is rendered is imported

The names that a form imports come from the components of its configurations, and what is rendered
comes from the configurations again, by another way. The two agree: if no text of a schema has an
opening angle bracket, every tag in the markup of a field of its form is among the imported names
(`fieldMarkup_isImported`), however deep the field is nested.

It is enough to look at one field, the rule that accepts it and the fields right below it
(`isServed_of_resolve`), as each configuration below that of a field is the configuration of a field
below it.
-/

namespace FormSchema

variable {rules : List Rule}

/-! ## Components of a configuration -/

theorem components_subset_all : ∀ {configs : List (String × Config)} {e : String × Config},
    e ∈ configs → e.2.components ⊆ allComponents configs
  | [], _, he => absurd he List.not_mem_nil
  | (name, c) :: rest, e, he => by
    rw [allComponents]
    rcases List.mem_cons.1 he with rfl | he
    · exact List.subset_append_left _ _
    · exact List.subset_append_of_subset_right _ (components_subset_all he)

theorem components_subset_variants : ∀ {variants : List VariantConfig} {v : VariantConfig}
    {e : String × Config}, v ∈ variants → e ∈ v.configs →
      e.2.components ⊆ variantComponents variants
  | [], _, _, hv, _ => absurd hv List.not_mem_nil
  | ⟨tag, fields, configs⟩ :: rest, v, e, hv, he => by
    rw [variantComponents]
    rcases List.mem_cons.1 hv with rfl | hv
    · exact List.subset_append_of_subset_left _ (components_subset_all he)
    · exact List.subset_append_of_subset_right _ (components_subset_variants hv he)

theorem components_subset_parts {p : Parts} {c : Config} (h : c ∈ p.configs) :
    c.components ⊆ p.components := by
  obtain ⟨childConfigs, childFields, elementConfig, elementField, discriminator, variants⟩ := p
  rw [Parts.components]
  rcases List.mem_append.1 h with h | h
  · rcases List.mem_append.1 h with h | h
    · obtain ⟨e, he, rfl⟩ := List.mem_map.1 h
      cases childConfigs with
      | none => exact absurd he List.not_mem_nil
      | some configs =>
        exact List.subset_append_of_subset_left _
          (List.subset_append_of_subset_left _ (components_subset_all he))
    · cases elementConfig with
      | none => exact absurd h List.not_mem_nil
      | some d =>
        obtain rfl := List.mem_singleton.1 h
        exact List.subset_append_of_subset_left _ (List.subset_append_right _ _)
  · obtain ⟨v, hv, hc⟩ := List.mem_flatMap.1 h
    obtain ⟨e, he, rfl⟩ := List.mem_map.1 hc
    cases variants with
    | none => exact absurd hv List.not_mem_nil
    | some vs =>
      exact List.subset_append_of_subset_right _ (components_subset_variants hv he)

theorem Config.components_eq (c : Config) : c.components = c.component :: c.parts.components := by
  obtain ⟨component, props, parts, extras, frame⟩ := c
  rfl

/-- The components of a configuration are those of all configurations within. -/
theorem Config.component_mem {d c : Config} (h : d.Within c) : d.component ∈ c.components := by
  induction h with
  | self => exact Config.components_eq _ ▸ List.mem_cons_self
  | deeper hb _ ih =>
    rw [Config.components_eq]
    exact List.mem_cons_of_mem _ (components_subset_parts hb ih)

/-! ## Properties by the default rules -/

/-- The texts of a field that its markup shows. -/
structure Field.IsPlain (f : Field) : Prop where
  name : FormSchema.IsPlain f.name
  label : FormSchema.IsPlain f.label
  texts : f.HasTexts FormSchema.IsPlain
  pattern : ∀ s ∈ f.constraints.pattern, FormSchema.IsPlain s

/-- The texts of the datum are plain, be it a text or a list of texts. -/
def Datum.IsPlain : Datum → Prop
  | .text s => FormSchema.IsPlain s
  | .list items => ∀ s, .text s ∈ items → FormSchema.IsPlain s
  | _ => True

theorem Datum.isPlain_number (o : Option Number) : (Datum.ofOption .number o).IsPlain := by
  cases o <;> trivial

theorem Datum.isPlain_int (o : Option Int) : (Datum.ofOption .int o).IsPlain := by
  cases o <;> trivial

theorem Datum.isPlain_text {o : Option String} (h : ∀ s ∈ o, FormSchema.IsPlain s) :
    (Datum.ofOption .text o).IsPlain := by
  cases o with
  | none => trivial
  | some s => exact h s rfl

theorem isPlain_optionsProp {f : Field} (hf : f.IsPlain) : ∀ e ∈ optionsProp f, e.2.IsPlain := by
  unfold optionsProp
  split
  · rename_i first rest hcontent
    have htexts := hf.texts.content
    rw [hcontent] at htexts
    refine List.forall_mem_singleton.2 fun s hs => ?_
    obtain ⟨t, ht, hsame⟩ := List.mem_map.1 hs
    exact Datum.text.inj hsame ▸ htexts t ht
  · simp

/-- What the default rules give a plain field is plain. -/
theorem isPlain_of_given {f : Field} (hf : f.IsPlain) {e : String × Datum} (h : f.Given e) :
    e.2.IsPlain := by
  cases h with
  | type hs =>
    simp only [List.mem_cons, List.not_mem_nil, or_false] at hs
    rcases hs with rfl | rfl | rfl | rfl <;> exact isPlain_fixed rfl (by decide)
  | options he => exact isPlain_optionsProp hf e he
  | min | max | step => exact Datum.isPlain_number _
  | unitStep => trivial
  | minLength | maxLength => exact Datum.isPlain_int _
  | pattern => exact Datum.isPlain_text hf.pattern

theorem ControlProps.IsIn.isPlain {p : ControlProps} {es : Entries} (h : p.IsIn es)
    (hes : ∀ e ∈ es, e.2.IsPlain) : p.IsPlain where
  type := fun s hs => by
    have hgiven := h.type
    rw [Option.mem_def.1 hs] at hgiven
    exact hes _ (mem_of_given (by simp [Datum.ofText?, Datum.ofOption]) hgiven)
  pattern := fun s hs => by
    have hgiven := h.pattern
    rw [Option.mem_def.1 hs] at hgiven
    exact hes _ (mem_of_given (by simp [Datum.ofText?, Datum.ofOption]) hgiven)
  options := fun options hoptions s hs => by
    have hgiven := h.options
    rw [Option.mem_def.1 hoptions] at hgiven
    exact hes _ (mem_of_given (by simp [Datum.ofOption]) hgiven) s (List.mem_map_of_mem hs)

/-! ## One field and its configuration -/

/-- The default rules render a union by a switch. -/
theorem component_of_union {f : Field} {c : Config}
    (h : ∀ g : Field, g.Within f → Covers defaultRules g) (hf : f.type = .union)
    (hc : f.resolve defaultRules = .ok c) : c.component = .unionSwitch := by
  obtain ⟨rule, _, _, hresolves⟩ := Field.resolvesTo h hc
  have haccepted := hresolves.accepted
  obtain ⟨_, _, _, _, _, _, content, _⟩ := f
  cases content with
  | union discriminator variants =>
    obtain rfl : _ = rule := Option.some.inj (Except.ok.inj haccepted)
    exact hresolves.component
  | _ => cases hf

/-- The parts of the configuration of a plain field show plain texts. -/
theorem isServed_of_resolve {names : List String} {f : Field} {c : Config}
    (hcovers : ∀ g : Field, g.Within f → Covers defaultRules g)
    (hplain : ∀ g : Field, g.Within f → g.IsPlain) (hc : f.resolve defaultRules = .ok c)
    (hnames : c.component.primitives ⊆ names) : c.IsServed names := by
  obtain ⟨rule, given, own, hf⟩ := Field.resolvesTo hcovers hc
  have hself := hplain f (.self f)
  have hprops := hf.props.isPlain fun e he => isPlain_of_given hself
    (given_of_defaultRules rule (firstRule?_eq_some hf.accepted).1 given hf.gives e he)
  have hframe : c.frame.IsPlain := by
    rw [hf.frame]
    exact ⟨hself.label, hself.texts.description⟩
  have hinitial : ∀ d ∈ f.children, IsPlain (d.initial 3) := fun d hd =>
    isPlain_initial 3 d fun g hg => (hplain g (.deeper hd hg)).texts
  refine ⟨hnames, hframe, hprops, fun fields configs hparts => ?_, fun d e hparts => ?_,
    fun key configs hparts => ?_⟩
  · rw [hf.parts] at hparts
    obtain rfl := children_of_resolveParts hf.brings hparts
    exact hself.texts.names
  · rw [hf.parts] at hparts
    obtain ⟨hd, he⟩ := element_of_resolveParts hf.brings hparts
    exact ⟨hinitial d hd, fun hunion =>
      component_of_union (fun g hg => hcovers g (.deeper hd hg)) hunion he⟩
  · rw [hf.parts] at hparts
    obtain ⟨variants, hcontent, hvariants⟩ := union_of_resolveParts hf.brings hparts
    have htexts := hself.texts.content
    rw [hcontent] at htexts
    refine ⟨htexts.1 key rfl, fun v hv => ?_⟩
    obtain ⟨variant, hvariant, htag, hfields, -⟩ := mem_of_resolveVariants hvariants v hv
    rw [htag, hfields]
    refine ⟨htexts.2 variant hvariant, fun g hg => hself.texts.names g ?_⟩
    rw [Field.children, hcontent]
    exact List.mem_flatMap.2 ⟨variant, hvariant, hg⟩

/-! ## Forms -/

/-- The patterns of all nodes inside a value are plain. -/
def Value.HasPlainPatterns (v : Value) : Prop :=
  ∀ n : Node, (Value.node n).Inside v → ∀ c ∈ n.checks, ∀ s ∈ c.pattern, IsPlain s

theorem isPlain_of_comesFrom {f : Field} {v : Value} (hname : IsPlain f.name)
    (htexts : v.HasTexts IsPlain) (hpatterns : v.HasPlainPatterns) (hf : f.ComesFrom v) :
    f.IsPlain := by
  have hself := hasTexts_of_comesFrom holdsWords_isPlain htexts hf
  obtain ⟨u, hu, _, _, _, hfield⟩ := hf
  obtain ⟨p, hp, _, -, c, content, rfl, hcontent⟩ := fieldOf_cases hfield
  refine ⟨hname, isPlain_label hname, hself, fun s hs => ?_⟩
  rcases hcontent with ⟨rfl, -⟩ | ⟨_, _, _, -, hc, -⟩
  · cases hs
  · have hnode := hpatterns p.node ((inside_of_peel hp).1.trans hu)
    exact (pattern_of_fieldConstraints hnode hc s hs).2

theorem mem_resolveAll : ∀ {fields : List Field} {configs : List (String × Config)},
    resolveAll rules fields = .ok configs →
      ∀ f ∈ fields, ∃ c, f.resolve rules = .ok c ∧ (f.name, c) ∈ configs
  | [], _, _ => fun _ hf => absurd hf List.not_mem_nil
  | f :: rest, _, h => by
    rw [resolveAll] at h
    split at h
    · cases h
    · rename_i c hc
      obtain ⟨others, hothers, rfl⟩ := map_eq_ok.1 h
      refine List.forall_mem_cons.2 ⟨⟨c, hc, List.mem_cons_self⟩, fun g hg => ?_⟩
      obtain ⟨d, hd, hmem⟩ := mem_resolveAll hothers g hg
      exact ⟨d, hd, List.mem_cons_of_mem _ hmem⟩

/-- The names that the configurations import hold the frame of a field and what each of their
components needs. -/
theorem primitives_of_components (components : List Component) (hasSteps : Bool) :
    ["Button", "Field"] ⊆ primitives components hasSteps ∧
      ∀ c ∈ components, c.primitives ⊆ primitives components hasSteps := by
  constructor
  · intro name hname
    exact mem_sortedNames.2 (List.mem_append_left _ (List.mem_append_left _ hname))
  · intro c hc name hname
    exact mem_sortedNames.2 (List.mem_append_left _
      (List.mem_append_right _ (List.mem_flatMap.2 ⟨c, hc, hname⟩)))

/-- With the default rules, every field of the form of a schema with integer bounds and plain texts
is rendered, unless one of its constraints is too long to be written, and each tag in its markup is
imported, whether the form has steps or not. -/
theorem fieldMarkup_isImported {schema : Value} {naming : Naming} {steps : Datum} {form : Form}
    (hform : introspect schema naming steps = .ok form) (hbounds : schema.HasIntegerBounds)
    (htexts : schema.HasTexts IsPlain) (hpatterns : schema.HasPlainPatterns) :
    ∃ configs, resolveAll defaultRules form.fields = .ok configs ∧
      ∀ f ∈ form.fields, ∃ c, f.resolve defaultRules = .ok c ∧ (f.name, c) ∈ configs ∧
        IsWritten f.AllShort (Markup.fieldMarkup (.path f.name) f c) ∧
          ∀ markup, Markup.fieldMarkup (.path f.name) f c = .ok markup →
            ∀ hasSteps, ∀ tag ∈ componentTags markup.toList,
              tag ∈ primitives (allComponents configs) hasSteps := by
  have hfrom := introspect_comesFrom hform
  have hcovers : ∀ root ∈ form.fields, ∀ g : Field, g.Within root → Covers defaultRules g :=
    fun root hroot g hg =>
      covers_defaultRules (hasIntegerBounds_of_comesFrom (hfrom root hroot g hg) hbounds)
  have hplain : ∀ root ∈ form.fields, ∀ g : Field, g.Within root → g.IsPlain :=
    fun root hroot g hg => isPlain_of_comesFrom
      (introspect_hasTexts holdsWords_isPlain htexts hform root hroot g hg).1 htexts hpatterns
      (hfrom root hroot g hg)
  obtain ⟨configs, hconfigs, -⟩ := resolveAll_succeeds form.fields hcovers
  refine ⟨configs, hconfigs, fun f hf => ?_⟩
  obtain ⟨c, hc, hmem⟩ := mem_resolveAll hconfigs f hf
  obtain ⟨c', hc', hoffer⟩ := f.resolve_succeeds (hcovers f hf)
  obtain rfl : c = c' := Except.ok.inj (hc.symm.trans hc')
  have hname := (hplain f hf f (.self f)).name
  have hwritten := Markup.fieldMarkup_isWritten
    (hoffer.allShow (allShort_of_resolve (hcovers f hf) hc)) (.path f.name) f
  refine ⟨c, hc, hmem, hwritten, fun markup hmarkup hasSteps => ?_⟩
  obtain ⟨hbase, hneeded⟩ := primitives_of_components (allComponents configs) hasSteps
  have hserved : c.AllServed (primitives (allComponents configs) hasSteps) := by
    intro d hd
    obtain ⟨g, hg, hresolve⟩ := Field.resolve_within hd (hcovers f hf) hc
    exact isServed_of_resolve (fun e he => hcovers f hf e (he.trans hg))
      (fun e he => hplain f hf e (he.trans hg)) hresolve
      (hneeded d.component (components_subset_all hmem (Config.component_mem hd)))
  have hplace : (Markup.Place.path f.name).IsPlain := hname
  exact Markup.renders_field hbase hserved hplace hname hmarkup

theorem hasPlainTexts_agedShape :
    (Value.node (.plain (.object agedShape))).HasTexts IsPlain ∧
      (Value.node (.plain (.object agedShape))).HasPlainPatterns := by
  constructor
  · intro n hn
    have hnode := nodes_agedShape hn
    simp only [List.mem_cons, List.not_mem_nil, or_false] at hnode
    rcases hnode with rfl | rfl | rfl | rfl
    all_goals exact ⟨by decide, by rintro s ⟨⟩, by rintro values ⟨⟩, by rintro options key ⟨⟩⟩
  · intro n hn
    have hnode := nodes_agedShape hn
    simp only [List.mem_cons, List.not_mem_nil, or_false] at hnode
    rcases hnode with rfl | rfl | rfl | rfl
    all_goals simp [Node.plain, boundedNumber, tag, Node.withCheck, Check.valued]

/-- Whatever the age and the tags are rendered with is imported. -/
theorem fieldMarkup_isImported_aged :
    ∃ configs, resolveAll defaultRules agedFields = .ok configs ∧
      ∀ f ∈ agedFields, ∃ c markup, f.resolve defaultRules = .ok c ∧ (f.name, c) ∈ configs ∧
        Markup.fieldMarkup (.path f.name) f c = .ok markup ∧
          ∀ hasSteps, ∀ tag ∈ componentTags markup.toList,
            tag ∈ primitives (allComponents configs) hasSteps := by
  obtain ⟨configs, hconfigs, hall⟩ := fieldMarkup_isImported introspect_agedShape
    hasIntegerBounds_agedShape hasPlainTexts_agedShape.1 hasPlainTexts_agedShape.2
  refine ⟨configs, hconfigs, fun f hf => ?_⟩
  obtain ⟨c, hc, hmem, hwritten, htags⟩ := hall f hf
  obtain ⟨markup, hmarkup⟩ := hwritten.succeeds (hasShortBounds_agedShape f hf)
  exact ⟨c, markup, hc, hmem, hmarkup, htags markup hmarkup⟩

end FormSchema
