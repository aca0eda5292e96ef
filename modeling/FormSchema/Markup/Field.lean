import FormSchema.Markup.Composite

/-!
# Markup of fields

`fieldMarkup` renders a field at a place by its configuration. Where a component holds other
fields, theirs is inside, each at its own place: fieldsets and unions go on with paths, arrays and
records with rows. Inside rows only fieldsets go deeper; a collection or a union leaves a comment
there. It fails only if a choice has no options, or a number is too long to be written.

The configuration alone guides the way down, and gets smaller with each step.
-/

namespace FormSchema

theorem sizeOf_lookup_config_lt {configs : List (String × Config)} {name : String} {c : Config}
    (h : configs.lookup name = some c) : sizeOf c < sizeOf configs := by
  induction configs with
  | nil => simp at h
  | cons e rest ih =>
    obtain ⟨k, v⟩ := e
    rw [List.lookup_cons] at h
    split at h
    · simp only [Option.some.injEq] at h
      simp only [h, List.cons.sizeOf_spec, Prod.mk.sizeOf_spec]; omega
    · have := ih h
      simp only [List.cons.sizeOf_spec]; omega

/-- The fields of an object or a tuple with their configurations, if both are there. -/
def Parts.children? (p : Parts) : Option (List Field × List (String × Config)) :=
  match p.childFields, p.childConfigs with
  | some fields, some configs => some (fields, configs)
  | _, _ => Option.none

theorem children_size {p : Parts} {fields : List Field} {configs : List (String × Config)}
    (h : p.children? = some (fields, configs)) : sizeOf configs < sizeOf p := by
  obtain ⟨childConfigs, childFields, elementConfig, elementField, discriminator, variants⟩ := p
  unfold Parts.children? at h
  split at h
  · rename_i hf hc
    simp only at hf hc
    simp only [Option.some.injEq, Prod.mk.injEq] at h
    simp only [hc, h, Parts.mk.sizeOf_spec, Option.some.sizeOf_spec]; omega
  · simp at h

/-- The element of an array or the value of a record with its configuration, if both are
there. -/
def Parts.element? (p : Parts) : Option (Field × Config) :=
  match p.elementField, p.elementConfig with
  | some field, some config => some (field, config)
  | _, _ => Option.none

theorem element_size {p : Parts} {f : Field} {c : Config} (h : p.element? = some (f, c)) :
    sizeOf c < sizeOf p := by
  obtain ⟨childConfigs, childFields, elementConfig, elementField, discriminator, variants⟩ := p
  unfold Parts.element? at h
  split at h
  · rename_i hf hc
    simp only at hf hc
    simp only [Option.some.injEq, Prod.mk.injEq] at h
    simp only [hc, h, Parts.mk.sizeOf_spec, Option.some.sizeOf_spec]; omega
  · simp at h

/-- The discriminator and the variants of a union, if there are both. -/
def Parts.union? (p : Parts) : Option (String × List VariantConfig) :=
  match p.discriminator, p.variants with
  | some key, some variants =>
    if key.isEmpty || variants.isEmpty then Option.none else some (key, variants)
  | _, _ => Option.none

theorem union_size {p : Parts} {key : String} {variants : List VariantConfig}
    (h : p.union? = some (key, variants)) : sizeOf variants < sizeOf p := by
  obtain ⟨childConfigs, childFields, elementConfig, elementField, discriminator, variants'⟩ := p
  unfold Parts.union? at h
  split at h
  · rename_i hd hv
    simp only at hd hv
    split at h
    · simp at h
    · simp only [Option.some.injEq, Prod.mk.injEq] at h
      simp only [hv, h, Parts.mk.sizeOf_spec, Option.some.sizeOf_spec]; omega
  · simp at h

theorem parts_size (c : Config) : sizeOf c.parts < sizeOf c := by
  obtain ⟨component, props, parts, extras, frame⟩ := c
  simp only [Config.mk.sizeOf_spec]; omega

namespace Markup

/-- What stands for a field inside rows that cannot be edited there. -/
def rowComment (component : Component) (f : Field) : String :=
  match component with
  | .unionSwitch => comment ("Union inside array: " ++ f.name)
  | _ => comment ("Collection inside array: " ++ f.name)

mutual

/-- The markup of a field with a configuration at a place. -/
def fieldMarkup (place : Place) (f : Field) (c : Config) : Result String :=
  match c.component, place with
  | .fieldset, place => fieldsetMarkup place f c
  | .fieldArray, .path path => arrayMarkup path f c
  | .unionSwitch, .path path => unionMarkup path f c
  | .fieldArray, .row _ => .ok (rowComment .fieldArray f)
  | .unionSwitch, .row _ => .ok (rowComment .unionSwitch f)
  | _, place => singleMarkup place f c
termination_by (sizeOf c, 1, 0)

/-- A card with the fields of an object or a tuple. -/
def fieldsetMarkup (place : Place) (f : Field) (c : Config) : Result String :=
  match _h : c.parts.children? with
  | none => .ok (comment (f.name ++ ": no child configs"))
  | some (fields, configs) =>
    (childrenMarkup place configs fields).map fun children =>
      card c.frame.label (spaced (children.map (Text.indent 2)))
termination_by (sizeOf c, 0, 0)
decreasing_by
  have := children_size _h
  have := parts_size c
  exact Prod.Lex.left _ _ (by omega)

/-- The rows of an array, or the entries of a record. -/
def arrayMarkup (path : String) (f : Field) (c : Config) : Result String :=
  match _h : c.parts.element? with
  | none => .ok (comment (f.name ++ ": no element config"))
  | some (element, elementConfig) =>
    if f.type == .record then recordMarkup path c elementConfig
    else if elementConfig.component == .fieldset then
      match _k : elementConfig.parts.children? with
      | none => .ok (comment (path ++ ": no child configs for array element"))
      | some (fields, configs) =>
        (childrenMarkup (.rows path) configs fields).map (objectArray path c element)
    else if element.type == .union then
      match _k : elementConfig.parts.union? with
      | none => .ok (comment (path ++ ": no variant configs for array of unions"))
      | some (key, variants) =>
        (variantsMarkup (.rows path) key variants).map (unionArray path c key)
    else if elementConfig.component.isComposite then
      .ok (comment (f.name ++ ": nested collections are not editable inline"))
    else singleArray path c elementConfig element
termination_by (sizeOf c, 0, 0)
decreasing_by
  · have := children_size _k
    have := parts_size elementConfig
    have := element_size _h
    have := parts_size c
    exact Prod.Lex.left _ _ (by omega)
  · have := union_size _k
    have := parts_size elementConfig
    have := element_size _h
    have := parts_size c
    exact Prod.Lex.left _ _ (by omega)

/-- The choice of a variant with the fields of each. -/
def unionMarkup (path : String) (f : Field) (c : Config) : Result String :=
  match _h : c.parts.union? with
  | none => .ok (comment (f.name ++ ": no union config"))
  | some (key, variants) =>
    (variantsMarkup (.path path) key variants).map (unionCard path c key)
termination_by (sizeOf c, 0, 0)
decreasing_by
  have := union_size _h
  have := parts_size c
  exact Prod.Lex.left _ _ (by omega)

/-- The markup of fields below a place, each with the configuration under its name; a field
without one is left out. -/
def childrenMarkup (place : Place) (configs : List (String × Config)) (fields : List Field) :
    Result (List String) :=
  match fields with
  | [] => .ok []
  | f :: rest =>
    match _h : configs.lookup f.name with
    | none => childrenMarkup place configs rest
    | some c =>
      match fieldMarkup (place.child f.name) f c with
      | .error e => .error e
      | .ok markup => (childrenMarkup place configs rest).map fun others => markup :: others
termination_by (sizeOf configs, 2, fields.length)
decreasing_by
  · exact Prod.Lex.right _ (Prod.Lex.right _ (by simp))
  · have := sizeOf_lookup_config_lt _h
    exact Prod.Lex.left _ _ this
  · exact Prod.Lex.right _ (Prod.Lex.right _ (by simp))

/-- The tags of variants, each with the markup of its fields; the discriminator is left out. -/
def variantsMarkup (place : Place) (discriminator : String) (variants : List VariantConfig) :
    Result (List (String × List String)) :=
  match variants with
  | [] => .ok []
  | ⟨tag, fields, configs⟩ :: rest =>
    match childrenMarkup place configs (fields.filter fun f => f.name != discriminator) with
    | .error e => .error e
    | .ok children =>
      (variantsMarkup place discriminator rest).map fun others => (tag, children) :: others
termination_by (sizeOf variants, 2, 0)
decreasing_by
  · apply Prod.Lex.left
    simp only [List.cons.sizeOf_spec, VariantConfig.mk.sizeOf_spec]
    omega
  · apply Prod.Lex.left
    simp only [List.cons.sizeOf_spec]
    omega

end

end Markup

end FormSchema
