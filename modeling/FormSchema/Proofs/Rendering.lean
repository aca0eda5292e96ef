import FormSchema.Proofs.Bindings
import FormSchema.Proofs.MarkupTags
import FormSchema.Proofs.Offering

/-!
# Tags of rendered fields

A configuration is served by names if these hold all that its component needs, and if the texts of
its properties and its parts are plain (`Config.IsServed`). The markup of a field whose
configuration is served at every depth has no other tags (`renders_field`), wherever the field
stands: the fields of objects, tuples, variants and rows are rendered at places of their own, each
by its own configuration.
-/

set_option linter.unusedSectionVars false

namespace FormSchema

/-! ## Configurations that are served -/

/-- The names serve the configuration: they hold what its component needs, and what its markup
shows of it is plain. The variants of a row are chosen only where the element is a union. -/
structure Config.IsServed (names : List String) (c : Config) : Prop where
  primitives : c.component.primitives ⊆ names
  frame : c.frame.IsPlain
  props : c.props.IsPlain
  children : ∀ fields configs, c.parts.children? = some (fields, configs) →
    ∀ f ∈ fields, IsPlain f.name
  element : ∀ f d, c.parts.element? = some (f, d) →
    IsPlain (f.initial 3) ∧ (f.type = .union → d.component = .unionSwitch)
  union : ∀ key variants, c.parts.union? = some (key, variants) →
    IsPlain key ∧ ∀ v ∈ variants, IsPlain v.tag ∧ ∀ f ∈ v.fields, IsPlain f.name

/-- The names serve the configuration at every depth. -/
def Config.AllServed (names : List String) (c : Config) : Prop :=
  ∀ d : Config, d.Within c → d.IsServed names

variable {names : List String}

namespace Config.AllServed

variable {c : Config} (h : c.AllServed names)

include h

theorem isServed : c.IsServed names := h c (.self c)

theorem of_mem {d : Config} (hd : d ∈ c.parts.configs) : d.AllServed names :=
  fun b hb => h b (.deeper hd hb)

end Config.AllServed

/-- The names serve a variant. -/
def VariantConfig.IsServed (names : List String) (v : VariantConfig) : Prop :=
  (∀ e ∈ v.configs, e.2.AllServed names) ∧ IsPlain v.tag ∧ ∀ f ∈ v.fields, IsPlain f.name

theorem Config.AllServed.of_union {c : Config} (h : c.AllServed names) {key : String}
    {variants : List VariantConfig} (hc : c.parts.union? = some (key, variants)) :
    IsPlain key ∧ ∀ v ∈ variants, v.IsServed names := by
  obtain ⟨hkey, htexts⟩ := h.isServed.union key variants hc
  exact ⟨hkey, fun v hv =>
    ⟨fun e he => h.of_mem (Parts.mem_configs_of_union hc v hv e he), htexts v hv⟩⟩

/-! ## Markup -/

namespace Markup

variable (hbase : ["Button", "Field"] ⊆ names)

include hbase

mutual

/-- A field is rendered with what its configuration needs, wherever it stands. -/
theorem renders_field {c : Config} (h : c.AllServed names) {place : Place} (hplace : place.IsPlain)
    {f : Field} (hname : IsPlain f.name) {markup : String}
    (hmarkup : fieldMarkup place f c = .ok markup) : Renders names markup := by
  have hprimitives := h.isServed.primitives
  unfold fieldMarkup at hmarkup
  split at hmarkup
  · rename_i hcomponent
    rw [hcomponent] at hprimitives
    exact renders_fieldset h hprimitives hplace hname hmarkup
  · rename_i hcomponent
    rw [hcomponent] at hprimitives
    exact renders_array h hprimitives hplace hname hmarkup
  · rename_i hcomponent
    rw [hcomponent] at hprimitives
    exact renders_union h hprimitives hplace hname hmarkup
  · cases hmarkup
    exact renders_of_isPlain (isPlain_comment (isPlain_append.2 ⟨by decide, hname⟩))
  · cases hmarkup
    exact renders_of_isPlain (isPlain_comment (isPlain_append.2 ⟨by decide, hname⟩))
  · obtain ⟨control, hcontrol, rfl⟩ := map_eq_ok.1 hmarkup
    exact renders_boundField hbase hplace h.isServed.frame
      (renders_control h.isServed.props hplace hprimitives hcontrol)
termination_by (sizeOf c, 1, 0)

theorem renders_fieldset {c : Config} (h : c.AllServed names) (hcard : cardPrimitives ⊆ names)
    {place : Place} (hplace : place.IsPlain) {f : Field} (hname : IsPlain f.name)
    {markup : String} (hmarkup : fieldsetMarkup place f c = .ok markup) :
    Renders names markup := by
  unfold fieldsetMarkup at hmarkup
  split at hmarkup
  · cases hmarkup
    exact renders_of_isPlain (isPlain_comment (isPlain_append.2 ⟨hname, by decide⟩))
  · rename_i fields configs hc
    have hsize : sizeOf configs < sizeOf c := Nat.lt_trans (children_size hc) (parts_size c)
    have hconfigs : ∀ e ∈ configs, e.2.AllServed names := fun e he =>
      h.of_mem (Parts.mem_configs_of_children hc e he)
    obtain ⟨children, hchildren, rfl⟩ := map_eq_ok.1 hmarkup
    have hall := renders_children hconfigs hplace (h.isServed.children fields configs hc) hchildren
    exact renders_card hcard _ (renderAll_spaced (renderAll_indent 2 hall))
termination_by (sizeOf c, 0, 0)
decreasing_by exact Prod.Lex.left _ _ hsize

theorem renders_array {c : Config} (h : c.AllServed names)
    (hnames : "Input" :: cardPrimitives ⊆ names) {path : String} (hpath : IsPlain path)
    {f : Field} (hname : IsPlain f.name) {markup : String}
    (hmarkup : arrayMarkup path f c = .ok markup) : Renders names markup := by
  obtain ⟨hinput, hcard⟩ := List.cons_subset.1 hnames
  have hinput : ["Input"] ⊆ names := List.cons_subset.2 ⟨hinput, names.nil_subset⟩
  have hform := arrayForm_of_markup hmarkup
  generalize arrayBindings path f c = bindings at hform
  cases hform with
  | @comment front back hfront hback heq =>
    have hremarks : ∀ s ∈ arrayRemarks, IsPlain s := by decide
    have hplain : IsPlain front := by rcases hfront with rfl | rfl <;> assumption
    rw [heq]
    exact renders_of_isPlain (isPlain_comment (isPlain_append.2 ⟨hplain, hremarks back hback⟩))
  | @record element d hc hrecord =>
    have helement := h.of_mem (Parts.mem_configs_of_element hc)
    exact renders_record hcard hinput hpath helement.isServed.props helement.isServed.primitives
      hrecord
  | @objects element d fields configs children hc hchildren hmarkups heq =>
    have helement := h.of_mem (Parts.mem_configs_of_element hc)
    have hsize : sizeOf configs < sizeOf c :=
      Nat.lt_trans (children_size hchildren) (element_parts_size hc)
    have hconfigs : ∀ e ∈ configs, e.2.AllServed names := fun e he =>
      helement.of_mem (Parts.mem_configs_of_children hchildren e he)
    rw [heq]
    exact renders_objectArray hbase hcard hpath (renders_children hconfigs
      (Place.isPlain_rows hpath) (helement.isServed.children fields configs hchildren) hmarkups)
  | @unions element d key variants parts hc hunion hvariants hmarkups heq =>
    have helement := h.of_mem (Parts.mem_configs_of_element hc)
    obtain ⟨-, hswitch⟩ := h.isServed.element element d hc
    have hprimitives := helement.isServed.primitives
    rw [hswitch hunion] at hprimitives
    have hselect : ["Select"] ⊆ names :=
      List.cons_subset.2 ⟨(List.cons_subset.1 hprimitives).1, names.nil_subset⟩
    have hsize : sizeOf variants < sizeOf c :=
      Nat.lt_trans (union_size hvariants) (element_parts_size hc)
    obtain ⟨hkey, hserved⟩ := helement.of_union hvariants
    rw [heq]
    exact renders_unionArray hbase hcard hselect hpath hkey
      (renders_variants hserved (Place.isPlain_rows hpath) hmarkups)
  | @single element d hc _ hrows =>
    have helement := h.of_mem (Parts.mem_configs_of_element hc)
    obtain ⟨hinitial, -⟩ := h.isServed.element element d hc
    exact renders_singleArray hbase hcard hpath helement.isServed.props
      helement.isServed.primitives hinitial hrows
termination_by (sizeOf c, 0, 0)
decreasing_by all_goals exact Prod.Lex.left _ _ hsize

theorem renders_union {c : Config} (h : c.AllServed names)
    (hnames : "Select" :: cardPrimitives ⊆ names) {path : String} (hpath : IsPlain path)
    {f : Field} (hname : IsPlain f.name) {markup : String}
    (hmarkup : unionMarkup path f c = .ok markup) : Renders names markup := by
  obtain ⟨hselect, hcard⟩ := List.cons_subset.1 hnames
  have hselect : ["Select"] ⊆ names := List.cons_subset.2 ⟨hselect, names.nil_subset⟩
  unfold unionMarkup at hmarkup
  split at hmarkup
  · cases hmarkup
    exact renders_of_isPlain (isPlain_comment (isPlain_append.2 ⟨hname, by decide⟩))
  · rename_i key variants hc
    have hsize : sizeOf variants < sizeOf c := Nat.lt_trans (union_size hc) (parts_size c)
    obtain ⟨hkey, hserved⟩ := h.of_union hc
    obtain ⟨markups, hmarkups, rfl⟩ := map_eq_ok.1 hmarkup
    have hplace : (Place.path path).IsPlain := hpath
    exact renders_unionCard hbase hcard hselect hpath hkey
      (renders_variants hserved hplace hmarkups)
termination_by (sizeOf c, 0, 0)
decreasing_by exact Prod.Lex.left _ _ hsize

theorem renders_children {configs : List (String × Config)}
    (h : ∀ e ∈ configs, e.2.AllServed names) {place : Place} (hplace : place.IsPlain)
    {fields : List Field} (hfields : ∀ f ∈ fields, IsPlain f.name) {markups : List String}
    (hmarkups : childrenMarkup place configs fields = .ok markups) : RenderAll names markups := by
  match fields with
  | [] =>
    rw [childrenMarkup] at hmarkups
    cases hmarkups
    exact renderAll_nil
  | f :: rest =>
    obtain ⟨hname, hrest⟩ := List.forall_mem_cons.1 hfields
    unfold childrenMarkup at hmarkups
    split at hmarkups
    · exact renders_children h hplace hrest hmarkups
    · rename_i c hc
      have hsize : sizeOf c < sizeOf configs := sizeOf_lookup_config_lt hc
      have hserved : c.AllServed names := h _ (mem_of_lookup hc)
      split at hmarkups
      · cases hmarkups
      · rename_i markup hmarkup
        obtain ⟨others, hothers, rfl⟩ := map_eq_ok.1 hmarkups
        exact renderAll_cons.2
          ⟨renders_field hserved (Place.isPlain_child hplace hname) hname hmarkup,
            renders_children h hplace hrest hothers⟩
termination_by (sizeOf configs, 2, fields.length)
decreasing_by
  · exact Prod.Lex.right _ (Prod.Lex.right _ (by simp))
  · exact Prod.Lex.left _ _ hsize
  · exact Prod.Lex.right _ (Prod.Lex.right _ (by simp))

theorem renders_variants {variants : List VariantConfig}
    (h : ∀ v ∈ variants, v.IsServed names) {place : Place} (hplace : place.IsPlain)
    {discriminator : String} {markups : List (String × List String)}
    (hmarkups : variantsMarkup place discriminator variants = .ok markups) :
    VariantsRender names markups := by
  match variants with
  | [] =>
    rw [variantsMarkup] at hmarkups
    cases hmarkups
    exact fun _ hv => absurd hv List.not_mem_nil
  | ⟨tag, fields, configs⟩ :: rest =>
    obtain ⟨⟨hconfigs, htag, hnames⟩, hrest⟩ := List.forall_mem_cons.1 h
    unfold variantsMarkup at hmarkups
    split at hmarkups
    · cases hmarkups
    · rename_i children hchildren
      obtain ⟨others, hothers, rfl⟩ := map_eq_ok.1 hmarkups
      have hfields : ∀ f ∈ fields.filter fun f => f.name != discriminator, IsPlain f.name :=
        fun f hf => hnames f (List.mem_of_mem_filter hf)
      exact List.forall_mem_cons.2
        ⟨⟨htag, renders_children hconfigs hplace hfields hchildren⟩,
          renders_variants hrest hplace hothers⟩
termination_by (sizeOf variants, 2, 0)
decreasing_by
  · apply Prod.Lex.left
    simp only [List.cons.sizeOf_spec, VariantConfig.mk.sizeOf_spec]
    omega
  · apply Prod.Lex.left
    simp only [List.cons.sizeOf_spec]
    omega

end

end Markup

end FormSchema
