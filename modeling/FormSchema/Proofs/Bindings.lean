import FormSchema.Failure
import FormSchema.Markup.Field

/-!
# What the markup of a field binds

Markup binds fields to places, and where a choice has buttons, these have identifiers made from the
place. The bindings of a field are listed in the order in which they stand in its markup
(`fieldBindings`), by the same recursion on the configuration: fieldsets and unions go on with
paths, arrays and records with rows, and in rows only fieldsets go deeper.
-/

namespace FormSchema.Markup

open Text (escapeAttribute escapeTemplate escapeText optionLabel)

/-- A field that is bound to a place, or an option of a field there. -/
inductive Binding
  | name (place : Place)
  | option (place : Place) (value : String)
deriving DecidableEq, Repr

namespace Binding

/-- The lines of the markup that make the binding, without their margins. -/
def lines : Binding → List String
  | name place => [place.nameAttribute]
  | option place value =>
    ["<RadioGroup.Item " ++ textAttribute "value" value ++ " id=" ++ place.optionId value ++ " />",
      "<Label htmlFor=" ++ place.optionId value ++ ">" ++ escapeText (optionLabel value) ++
        "</Label>"]

/-- The body of the template literal in these lines, if the place is in rows. -/
def template? : Binding → Option String
  | name (.row template) => some template
  | option (.row template) value => some (template ++ "-" ++ escapeTemplate value)
  | _ => none

end Binding

/-- The bindings of a control at a place. -/
def controlBindings (place : Place) (c : Config) : List Binding :=
  match c.component with
  | .radioGroup => (c.props.options.getD []).map (Binding.option place)
  | _ => []

/-- The bindings of a field that holds one value. -/
def singleBindings (place : Place) (c : Config) : List Binding :=
  .name place :: controlBindings place c

/-- The bindings of the entries of a record. -/
def recordBindings (path : String) (valueConfig : Config) : List Binding :=
  if valueConfig.component.isComposite then [.name (.entries path)]
  else singleBindings (.entries path) valueConfig

mutual

/-- The bindings of a field with a configuration at a place. -/
def fieldBindings (place : Place) (f : Field) (c : Config) : List Binding :=
  match c.component, place with
  | .fieldset, place => fieldsetBindings place c
  | .fieldArray, .path path => arrayBindings path f c
  | .unionSwitch, .path path => unionBindings (.path path) c
  | .fieldArray, .row _ => []
  | .unionSwitch, .row _ => []
  | _, place => singleBindings place c
termination_by (sizeOf c, 1, 0)

/-- The bindings of the fields of an object or a tuple. -/
def fieldsetBindings (place : Place) (c : Config) : List Binding :=
  match _h : c.parts.children? with
  | none => []
  | some (fields, configs) => childrenBindings place configs fields
termination_by (sizeOf c, 0, 0)
decreasing_by
  have := children_size _h
  have := parts_size c
  exact Prod.Lex.left _ _ (by omega)

/-- The bindings of the rows of an array, or of the entries of a record. -/
def arrayBindings (path : String) (f : Field) (c : Config) : List Binding :=
  match _h : c.parts.element? with
  | none => []
  | some (element, elementConfig) =>
    if f.type == .record then recordBindings path elementConfig
    else if elementConfig.component == .fieldset then fieldsetBindings (.rows path) elementConfig
    else if element.type == .union then unionBindings (.rows path) elementConfig
    else if elementConfig.component.isComposite then []
    else singleBindings (.rows path) elementConfig
termination_by (sizeOf c, 0, 0)
decreasing_by
  all_goals
    have := element_size _h
    have := parts_size c
    exact Prod.Lex.left _ _ (by omega)

/-- The bindings of the discriminator of a union and of the fields of each variant. -/
def unionBindings (place : Place) (c : Config) : List Binding :=
  match _h : c.parts.union? with
  | none => []
  | some (key, variants) => .name (place.child key) :: variantsBindings place key variants
termination_by (sizeOf c, 0, 0)
decreasing_by
  have := union_size _h
  have := parts_size c
  exact Prod.Lex.left _ _ (by omega)

/-- The bindings of fields below a place, each with the configuration under its name. -/
def childrenBindings (place : Place) (configs : List (String × Config)) (fields : List Field) :
    List Binding :=
  match fields with
  | [] => []
  | f :: rest =>
    match _h : configs.lookup f.name with
    | none => childrenBindings place configs rest
    | some c => fieldBindings (place.child f.name) f c ++ childrenBindings place configs rest
termination_by (sizeOf configs, 2, fields.length)
decreasing_by
  · exact Prod.Lex.right _ (Prod.Lex.right _ (by simp))
  · have := sizeOf_lookup_config_lt _h
    exact Prod.Lex.left _ _ this
  · exact Prod.Lex.right _ (Prod.Lex.right _ (by simp))

/-- The bindings of the fields of variants, without the discriminator. -/
def variantsBindings (place : Place) (discriminator : String) (variants : List VariantConfig) :
    List Binding :=
  match variants with
  | [] => []
  | ⟨_, fields, configs⟩ :: rest =>
    childrenBindings place configs (fields.filter fun f => f.name != discriminator) ++
      variantsBindings place discriminator rest
termination_by (sizeOf variants, 2, 0)
decreasing_by
  · apply Prod.Lex.left
    simp only [List.cons.sizeOf_spec, VariantConfig.mk.sizeOf_spec]
    omega
  · apply Prod.Lex.left
    simp only [List.cons.sizeOf_spec]
    omega

end

/-! ## Bindings by the parts of a configuration -/

/-- A fieldset binds what its children bind. -/
theorem fieldsetBindings_eq (place : Place) (c : Config) :
    fieldsetBindings place c =
      match c.parts.children? with
      | none => []
      | some (fields, configs) => childrenBindings place configs fields := by
  unfold fieldsetBindings
  split <;> rename_i h <;> rw [h]

/-- An array binds by what its element is. -/
theorem arrayBindings_eq (path : String) (f : Field) (c : Config) :
    arrayBindings path f c =
      match c.parts.element? with
      | none => []
      | some (element, elementConfig) =>
        if f.type == .record then recordBindings path elementConfig
        else if elementConfig.component == .fieldset then
          fieldsetBindings (.rows path) elementConfig
        else if element.type == .union then unionBindings (.rows path) elementConfig
        else if elementConfig.component.isComposite then []
        else singleBindings (.rows path) elementConfig := by
  unfold arrayBindings
  split <;> rename_i h <;> rw [h]

/-- A union binds the choice of its variant and then what its variants bind. -/
theorem unionBindings_eq (place : Place) (c : Config) :
    unionBindings place c =
      match c.parts.union? with
      | none => []
      | some (key, variants) => .name (place.child key) :: variantsBindings place key variants := by
  unfold unionBindings
  split <;> rename_i h <;> rw [h]

theorem childrenBindings_cons (place : Place) (configs : List (String × Config)) (f : Field)
    (rest : List Field) :
    childrenBindings place configs (f :: rest) =
      (match configs.lookup f.name with
      | none => []
      | some c => fieldBindings (place.child f.name) f c) ++
        childrenBindings place configs rest := by
  rw [childrenBindings]
  split <;> rename_i h <;> rw [h]
  rfl

/-! ## The cases of an array -/

/-- What stands behind the name of an array or its path if there are no rows. -/
def arrayRemarks : List String :=
  [": no element config", ": no child configs for array element",
    ": no variant configs for array of unions", ": nested collections are not editable inline"]

/-- How the markup of an array or a record has come about, with the bindings in it. -/
inductive ArrayForm (path : String) (f : Field) (c : Config) (markup : String) :
    List Binding → Prop
  | comment {front back : String} : front = f.name ∨ front = path → back ∈ arrayRemarks →
    markup = Markup.comment (front ++ back) → ArrayForm path f c markup []
  | record {element : Field} {d : Config} : c.parts.element? = some (element, d) →
    recordMarkup path c d = .ok markup → ArrayForm path f c markup (recordBindings path d)
  | objects {element : Field} {d : Config} {fields : List Field}
    {configs : List (String × Config)} {children : List String} :
    c.parts.element? = some (element, d) → d.parts.children? = some (fields, configs) →
    childrenMarkup (.rows path) configs fields = .ok children →
    markup = objectArray path c element children →
    ArrayForm path f c markup (childrenBindings (.rows path) configs fields)
  | unions {element : Field} {d : Config} {key : String} {variants : List VariantConfig}
    {parts : List (String × List String)} :
    c.parts.element? = some (element, d) → element.type = .union →
    d.parts.union? = some (key, variants) → variantsMarkup (.rows path) key variants = .ok parts →
    markup = unionArray path c key parts →
    ArrayForm path f c markup
      (.name ((Place.rows path).child key) :: variantsBindings (.rows path) key variants)
  | single {element : Field} {d : Config} : c.parts.element? = some (element, d) →
    d.component.isComposite = false → singleArray path c d element = .ok markup →
    ArrayForm path f c markup (singleBindings (.rows path) d)

/-- The bindings of an array follow the cases of its markup. -/
theorem arrayForm_of_markup {path : String} {f : Field} {c : Config} {markup : String}
    (h : arrayMarkup path f c = .ok markup) :
    ArrayForm path f c markup (arrayBindings path f c) := by
  rw [arrayBindings_eq]
  unfold arrayMarkup at h
  split at h <;> rename_i hc <;> rw [hc]
  · cases h
    exact .comment (.inl rfl) (by simp [arrayRemarks]) rfl
  rename_i element elementConfig
  dsimp only
  split at h
  · rename_i hrecord
    rw [if_pos hrecord]
    exact .record hc h
  rename_i hrecord
  rw [if_neg hrecord]
  split at h
  · rename_i hfieldset
    rw [if_pos hfieldset, fieldsetBindings_eq]
    split at h <;> rename_i hchildren <;> rw [hchildren]
    · cases h
      exact .comment (.inr rfl) (by simp [arrayRemarks]) rfl
    · obtain ⟨children, hmarkups, rfl⟩ := map_eq_ok.1 h
      exact .objects hc hchildren hmarkups rfl
  rename_i hfieldset
  rw [if_neg hfieldset]
  split at h
  · rename_i hunion
    rw [if_pos hunion, unionBindings_eq]
    split at h <;> rename_i hvariants <;> rw [hvariants]
    · cases h
      exact .comment (.inr rfl) (by simp [arrayRemarks]) rfl
    · obtain ⟨parts, hmarkups, rfl⟩ := map_eq_ok.1 h
      exact .unions hc (eq_of_beq hunion) hvariants hmarkups rfl
  rename_i hunion
  rw [if_neg hunion]
  split at h
  · rename_i hcomposite
    rw [if_pos hcomposite]
    cases h
    exact .comment (.inl rfl) (by simp [arrayRemarks]) rfl
  · rename_i hsingle
    rw [if_neg hsingle]
    exact .single hc (Bool.eq_false_iff.2 hsingle) h

/-- The parts of an element are smaller than the configuration around it. -/
theorem element_parts_size {c d : Config} {element : Field}
    (h : c.parts.element? = some (element, d)) : sizeOf d.parts < sizeOf c :=
  Nat.lt_trans (parts_size d) (Nat.lt_trans (element_size h) (parts_size c))

end FormSchema.Markup
