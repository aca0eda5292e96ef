import FormSchema.Proofs.BindingMarkup
import FormSchema.Proofs.Offering

/-!
# The bindings of a field stand in its markup

If the texts of a configuration are flat at every depth, the lines that bind something in the markup
of a field are those of its bindings, in the same order (`bindingLines_field`): no binding is
missing and no other line is among them, wherever the field stands.
-/

namespace FormSchema

/-! ## Flat configurations -/

/-- The texts of a configuration that stand in lines of the markup are flat. The initial value of an
element stands in a line only if its component holds one value. -/
structure Config.IsFlat (c : Config) : Prop where
  label : FormSchema.IsFlat c.frame.label
  options : ∀ options ∈ c.props.options, ∀ s ∈ options, FormSchema.IsFlat s
  children : ∀ fields configs, c.parts.children? = some (fields, configs) →
    ∀ f ∈ fields, FormSchema.IsFlat f.name
  element : ∀ f d, c.parts.element? = some (f, d) →
    FormSchema.IsFlat f.label ∧
      (d.component.isComposite = false → FormSchema.IsFlat (f.initial 3))
  union : ∀ key variants, c.parts.union? = some (key, variants) →
    FormSchema.IsFlat key ∧
      ∀ v ∈ variants, FormSchema.IsFlat v.tag ∧ ∀ f ∈ v.fields, FormSchema.IsFlat f.name

/-- The texts of a configuration are flat at every depth. -/
def Config.AllFlat (c : Config) : Prop :=
  ∀ d : Config, d.Within c → d.IsFlat

namespace Config.AllFlat

variable {c : Config} (h : c.AllFlat)

include h

theorem isFlat : c.IsFlat := h c (.self c)

theorem of_mem {d : Config} (hd : d ∈ c.parts.configs) : d.AllFlat :=
  fun b hb => h b (.deeper hd hb)

end Config.AllFlat

/-- The texts of a variant are flat at every depth. -/
def VariantConfig.IsFlat (v : VariantConfig) : Prop :=
  (∀ e ∈ v.configs, e.2.AllFlat) ∧ FormSchema.IsFlat v.tag ∧
    ∀ f ∈ v.fields, FormSchema.IsFlat f.name

/-- The key and the variants of a flat configuration are flat. -/
theorem Config.AllFlat.of_union {c : Config} (h : c.AllFlat) {key : String}
    {variants : List VariantConfig} (hc : c.parts.union? = some (key, variants)) :
    FormSchema.IsFlat key ∧ ∀ v ∈ variants, v.IsFlat := by
  obtain ⟨hkey, htexts⟩ := h.isFlat.union key variants hc
  exact ⟨hkey, fun v hv =>
    ⟨fun e he => h.of_mem (Parts.mem_configs_of_union hc v hv e he), htexts v hv⟩⟩

namespace Markup

/-! ## Bindings in order -/

/-- The markup of variants has their tags, in order. -/
theorem tags_variantsMarkup {place : Place} {discriminator : String} :
    ∀ {variants : List VariantConfig} {markups : List (String × List String)},
      variantsMarkup place discriminator variants = .ok markups →
        markups.map Prod.fst = variants.map VariantConfig.tag
  | [], _, h => by
    rw [variantsMarkup] at h
    cases h
    rfl
  | ⟨tag, fields, configs⟩ :: rest, _, h => by
    unfold variantsMarkup at h
    split at h
    · cases h
    · obtain ⟨others, hothers, rfl⟩ := map_eq_ok.1 h
      rw [List.map_cons, List.map_cons, tags_variantsMarkup hothers]

theorem isFlat_tags {place : Place} {discriminator : String} {variants : List VariantConfig}
    {markups : List (String × List String)} (h : ∀ v ∈ variants, v.IsFlat)
    (hmarkups : variantsMarkup place discriminator variants = .ok markups) :
    ∀ tag ∈ markups.map Prod.fst, IsFlat tag := by
  rw [tags_variantsMarkup hmarkups]
  exact List.forall_mem_map.2 fun v hv => (h v hv).2.1

/-- A comment binds nothing. -/
theorem bindingLines_comment {s t : String} (hs : IsFlat s) (ht : IsFlat t) :
    bindingLines (comment (s ++ t)) = [] :=
  (quiet_comment (isFlat_append.2 ⟨hs, ht⟩)).bindingLines_eq

mutual

/-- The lines that bind something in the markup of a field are those of its bindings, in order. -/
theorem bindingLines_field {c : Config} (h : c.AllFlat) {place : Place} (hplace : place.IsFlat)
    {f : Field} (hname : IsFlat f.name) {markup : String}
    (hmarkup : fieldMarkup place f c = .ok markup) :
    bindingLines markup = (fieldBindings place f c).flatMap Binding.lines := by
  have hsingle (hmarkup : singleMarkup place f c = .ok markup) :
      bindingLines markup = (singleBindings place c).flatMap Binding.lines := by
    obtain ⟨control, hcontrol, rfl⟩ := map_eq_ok.1 hmarkup
    rw [bindingLines_boundField hplace, bindingLines_control h.isFlat.options hplace hcontrol]
    rfl
  unfold fieldMarkup at hmarkup
  unfold fieldBindings
  cases hcomponent : c.component with
  | fieldset =>
    rw [hcomponent] at hmarkup
    exact bindingLines_fieldset h hplace hname hmarkup
  | fieldArray =>
    rw [hcomponent] at hmarkup
    cases place with
    | path path => exact bindingLines_array h hplace hname hmarkup
    | row template =>
      cases hmarkup
      exact bindingLines_comment (by decide) hname
  | unionSwitch =>
    rw [hcomponent] at hmarkup
    cases place with
    | path path => exact bindingLines_union h hplace hname hmarkup
    | row template =>
      cases hmarkup
      exact bindingLines_comment (by decide) hname
  | _ =>
    rw [hcomponent] at hmarkup
    exact hsingle hmarkup
termination_by (sizeOf c, 1, 0)

/-- The lines that bind in a fieldset are those of its bindings. -/
theorem bindingLines_fieldset {c : Config} (h : c.AllFlat) {place : Place} (hplace : place.IsFlat)
    {f : Field} (hname : IsFlat f.name) {markup : String}
    (hmarkup : fieldsetMarkup place f c = .ok markup) :
    bindingLines markup = (fieldsetBindings place c).flatMap Binding.lines := by
  rw [fieldsetBindings_eq]
  unfold fieldsetMarkup at hmarkup
  split at hmarkup <;> rename_i hc <;> rw [hc]
  · cases hmarkup
    exact bindingLines_comment hname (by decide)
  · rename_i fields configs
    have hsize : sizeOf configs < sizeOf c := Nat.lt_trans (children_size hc) (parts_size c)
    have hconfigs : ∀ e ∈ configs, e.2.AllFlat := fun e he =>
      h.of_mem (Parts.mem_configs_of_children hc e he)
    obtain ⟨children, hchildren, rfl⟩ := map_eq_ok.1 hmarkup
    rw [bindingLines_card h.isFlat.label, flatMap_spaced, flatMap_indent,
      bindingLines_children hconfigs hplace (h.isFlat.children fields configs hc) hchildren]
termination_by (sizeOf c, 0, 0)
decreasing_by exact Prod.Lex.left _ _ hsize

/-- The lines that bind in an array are those of its bindings, whatever it holds. -/
theorem bindingLines_array {c : Config} (h : c.AllFlat) {path : String} (hpath : IsFlat path)
    {f : Field} (hname : IsFlat f.name) {markup : String}
    (hmarkup : arrayMarkup path f c = .ok markup) :
    bindingLines markup = (arrayBindings path f c).flatMap Binding.lines := by
  have hform := arrayForm_of_markup hmarkup
  generalize arrayBindings path f c = bindings at hform ⊢
  cases hform with
  | @comment front back hfront hback heq =>
    have hremarks : ∀ s ∈ arrayRemarks, IsFlat s := by decide
    have hflat : IsFlat front := by rcases hfront with rfl | rfl <;> assumption
    rw [heq]
    exact bindingLines_comment hflat (hremarks back hback)
  | @record element d hc hrecord =>
    have helement := h.of_mem (Parts.mem_configs_of_element hc)
    exact bindingLines_record h.isFlat.label hpath helement.isFlat.options hrecord
  | @objects element d fields configs children hc hchildren hmarkups heq =>
    have helement := h.of_mem (Parts.mem_configs_of_element hc)
    obtain ⟨hlabel, -⟩ := h.isFlat.element element d hc
    have hsize : sizeOf configs < sizeOf c :=
      Nat.lt_trans (children_size hchildren) (element_parts_size hc)
    have hconfigs : ∀ e ∈ configs, e.2.AllFlat := fun e he =>
      helement.of_mem (Parts.mem_configs_of_children hchildren e he)
    rw [heq, bindingLines_objectArray h.isFlat.label hlabel, bindingLines_children hconfigs
      (Place.isFlat_rows hpath) (helement.isFlat.children fields configs hchildren) hmarkups]
  | @unions element d key variants parts hc _ hvariants hmarkups heq =>
    have helement := h.of_mem (Parts.mem_configs_of_element hc)
    have hsize : sizeOf variants < sizeOf c :=
      Nat.lt_trans (union_size hvariants) (element_parts_size hc)
    obtain ⟨hkey, hflat⟩ := helement.of_union hvariants
    rw [heq, bindingLines_unionArray h.isFlat.label hpath hkey (isFlat_tags hflat hmarkups),
      bindingLines_variants hflat (Place.isFlat_rows hpath) hmarkups]
    rfl
  | @single element d hc hsingle hrows =>
    have helement := h.of_mem (Parts.mem_configs_of_element hc)
    obtain ⟨-, hinitial⟩ := h.isFlat.element element d hc
    exact bindingLines_singleArray h.isFlat.label hpath helement.isFlat.options (hinitial hsingle)
      hrows
termination_by (sizeOf c, 0, 0)
decreasing_by all_goals exact Prod.Lex.left _ _ hsize

/-- The lines that bind in a union are those of its bindings. -/
theorem bindingLines_union {c : Config} (h : c.AllFlat) {path : String} (hpath : IsFlat path)
    {f : Field} (hname : IsFlat f.name) {markup : String}
    (hmarkup : unionMarkup path f c = .ok markup) :
    bindingLines markup = (unionBindings (.path path) c).flatMap Binding.lines := by
  rw [unionBindings_eq]
  unfold unionMarkup at hmarkup
  split at hmarkup <;> rename_i hc <;> rw [hc]
  · cases hmarkup
    exact bindingLines_comment hname (by decide)
  · rename_i key variants
    have hsize : sizeOf variants < sizeOf c := Nat.lt_trans (union_size hc) (parts_size c)
    obtain ⟨hkey, hflat⟩ := h.of_union hc
    have hplace : (Place.path path).IsFlat := hpath
    obtain ⟨markups, hmarkups, rfl⟩ := map_eq_ok.1 hmarkup
    rw [bindingLines_unionCard h.isFlat.label hpath hkey (isFlat_tags hflat hmarkups),
      bindingLines_variants hflat hplace hmarkups]
    rfl
termination_by (sizeOf c, 0, 0)
decreasing_by exact Prod.Lex.left _ _ hsize

/-- The lines that bind in the children of an object are those of their bindings. -/
theorem bindingLines_children {configs : List (String × Config)}
    (h : ∀ e ∈ configs, e.2.AllFlat) {place : Place} (hplace : place.IsFlat)
    {fields : List Field} (hfields : ∀ f ∈ fields, IsFlat f.name) {markups : List String}
    (hmarkups : childrenMarkup place configs fields = .ok markups) :
    markups.flatMap bindingLines =
      (childrenBindings place configs fields).flatMap Binding.lines := by
  match fields with
  | [] =>
    rw [childrenMarkup] at hmarkups
    cases hmarkups
    rw [childrenBindings]
    rfl
  | f :: rest =>
    obtain ⟨hname, hrest⟩ := List.forall_mem_cons.1 hfields
    rw [childrenBindings_cons, List.flatMap_append]
    unfold childrenMarkup at hmarkups
    split at hmarkups <;> rename_i hc <;> rw [hc]
    · exact bindingLines_children h hplace hrest hmarkups
    · rename_i c
      have hsize : sizeOf c < sizeOf configs := sizeOf_lookup_config_lt hc
      have hflat : c.AllFlat := h _ (mem_of_lookup hc)
      split at hmarkups
      · cases hmarkups
      · rename_i markup hmarkup
        obtain ⟨others, hothers, rfl⟩ := map_eq_ok.1 hmarkups
        rw [List.flatMap_cons,
          bindingLines_field hflat (Place.isFlat_child hplace hname) hname hmarkup,
          bindingLines_children h hplace hrest hothers]
termination_by (sizeOf configs, 2, fields.length)
decreasing_by
  · exact Prod.Lex.right _ (Prod.Lex.right _ (by simp))
  · exact Prod.Lex.left _ _ hsize
  · exact Prod.Lex.right _ (Prod.Lex.right _ (by simp))

/-- The lines that bind in the variants of a union are those of their bindings. -/
theorem bindingLines_variants {variants : List VariantConfig} (h : ∀ v ∈ variants, v.IsFlat)
    {place : Place} (hplace : place.IsFlat) {discriminator : String}
    {markups : List (String × List String)}
    (hmarkups : variantsMarkup place discriminator variants = .ok markups) :
    variantLines markups =
      (variantsBindings place discriminator variants).flatMap Binding.lines := by
  match variants with
  | [] =>
    rw [variantsMarkup] at hmarkups
    cases hmarkups
    rw [variantsBindings]
    rfl
  | ⟨tag, fields, configs⟩ :: rest =>
    obtain ⟨⟨hconfigs, -, hnames⟩, hrest⟩ := List.forall_mem_cons.1 h
    rw [variantsBindings, List.flatMap_append]
    unfold variantsMarkup at hmarkups
    split at hmarkups
    · cases hmarkups
    · rename_i children hchildren
      obtain ⟨others, hothers, rfl⟩ := map_eq_ok.1 hmarkups
      have hfields : ∀ f ∈ fields.filter fun f => f.name != discriminator, IsFlat f.name :=
        fun f hf => hnames f (List.mem_of_mem_filter hf)
      rw [variantLines, List.flatMap_cons, bindingLines_children hconfigs hplace hfields hchildren,
        ← variantLines, bindingLines_variants hrest hplace hothers]
termination_by (sizeOf variants, 2, 0)
decreasing_by
  · apply Prod.Lex.left
    simp only [List.cons.sizeOf_spec, VariantConfig.mk.sizeOf_spec]
    omega
  · apply Prod.Lex.left
    simp only [List.cons.sizeOf_spec]
    omega

end

end Markup

end FormSchema
