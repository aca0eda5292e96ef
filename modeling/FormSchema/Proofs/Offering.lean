import FormSchema.FormFile.Layout
import FormSchema.Proofs.Bounds
import FormSchema.Proofs.Entries

/-!
# Configurations that can be rendered

Rendering fails on two things alone, a choice that has nothing to choose from and an integer that is
too long to be written. A configuration has other ones below it, those of the fields that its
component holds (`Config.Within`). If every choice among them has options (`Config.AllOffer`), the
field is rendered wherever it stands, in rows, cards and variants, unless a number that one of them
shows is too long (`fieldMarkup_isWritten`), and so is a form of such fields, divided into steps or
not (`FormFile.text_isWritten`).
-/

namespace FormSchema

/-! ## Results that are written -/

/-- The result is there, or an integer is too long to be written, which happens only if not all
numbers are short. -/
def IsWritten {α : Type} (short : Prop) (r : Result α) : Prop :=
  (∃ a, r = .ok a) ∨ r = .error .longInteger ∧ ¬short

namespace IsWritten

variable {α β : Type} {short : Prop} {r : Result α}

theorem of_ok (a : α) : IsWritten short (.ok a) :=
  .inl ⟨a, rfl⟩

theorem map {f : α → β} (h : IsWritten short r) : IsWritten short (r.map f) := by
  obtain ⟨a, rfl⟩ | ⟨rfl, hlong⟩ := h
  · exact of_ok _
  · exact .inr ⟨rfl, hlong⟩

/-- Writing numbers that are short enough, if they are, gives a text or a failure for a long one. -/
theorem of_writing {numbers : List Number} (h : short → ∀ n ∈ numbers, n.IsBounded) (a : α) :
    IsWritten short (writing .longInteger numbers a) := by
  cases hwriting : writing Failure.longInteger numbers a with
  | ok b => exact of_ok b
  | error e =>
    obtain ⟨hlong, rfl⟩ := writing_eq_error.1 hwriting
    exact .inr ⟨rfl, fun hshort => hlong fun n hn => Number.isShort_iff.2 (h hshort n hn)⟩

/-- With short numbers the text is written. -/
theorem succeeds (h : IsWritten short r) (hshort : short) : ∃ a, r = .ok a :=
  h.resolve_right fun hlong => hlong.2 hshort

/-- What is written where fewer numbers count is written where more do. -/
theorem mono {other : Prop} (h : IsWritten short r) (hother : other → short) : IsWritten other r :=
  h.imp_right (And.imp_right (mt hother))

end IsWritten

/-! ## Configurations below a configuration -/

/-- The configurations of the fields that a component holds. -/
def Parts.configs (p : Parts) : List Config :=
  (p.childConfigs.getD []).map Prod.snd ++ p.elementConfig.toList ++
    (p.variants.getD []).flatMap fun v => v.configs.map Prod.snd

/-- The first configuration lies below the second one at some depth, or is the second one. -/
inductive Config.Within : Config → Config → Prop
  | self (c : Config) : c.Within c
  | deeper {d b c : Config} : b ∈ c.parts.configs → d.Within b → d.Within c

namespace Parts

variable {p : Parts}

/-- The configurations of children are among those of the parts. -/
theorem mem_configs_of_children {fields : List Field} {configs : List (String × Config)}
    (h : p.children? = some (fields, configs)) : ∀ e ∈ configs, e.2 ∈ p.configs := by
  intro e he
  unfold children? at h
  split at h
  · rename_i hconfigs
    cases h
    rw [Parts.configs, hconfigs]
    exact List.mem_append_left _ (List.mem_append_left _ (List.mem_map_of_mem he))
  · cases h

/-- The configuration of an element is among those of the parts. -/
theorem mem_configs_of_element {f : Field} {d : Config} (h : p.element? = some (f, d)) :
    d ∈ p.configs := by
  unfold element? at h
  split at h
  · rename_i hconfig
    cases h
    rw [Parts.configs, hconfig]
    exact List.mem_append_left _ (List.mem_append_right _ (List.mem_singleton_self _))
  · cases h

/-- The configurations of the variants are among those of the parts. -/
theorem mem_configs_of_union {key : String} {variants : List VariantConfig}
    (h : p.union? = some (key, variants)) : ∀ v ∈ variants, ∀ e ∈ v.configs, e.2 ∈ p.configs := by
  intro v hv e he
  unfold union? at h
  split at h
  · rename_i hvariants
    split at h
    · cases h
    · cases h
      rw [Parts.configs, hvariants]
      exact List.mem_append_right _ (List.mem_flatMap.2 ⟨v, hv, List.mem_map_of_mem he⟩)
  · cases h

end Parts

/-- Whether a component lets choose among options. -/
def Component.isChoice (component : Component) : Bool :=
  component == .select || component == .radioGroup

/-- If the component lets choose, there is something to choose from. -/
def Config.Offers (c : Config) : Prop :=
  c.component.isChoice = true → ∃ first rest, c.props.options = some (first :: rest)

/-- Every choice at any depth of the configuration offers something. -/
def Config.AllOffer (c : Config) : Prop :=
  ∀ d : Config, d.Within c → d.Offers

/-- A configuration offers options throughout just if it does itself and its parts do. -/
theorem allOffer_iff {c : Config} :
    c.AllOffer ↔ c.Offers ∧ ∀ b ∈ c.parts.configs, b.AllOffer := by
  constructor
  · exact fun h => ⟨h c (.self c), fun b hb d hd => h d (.deeper hb hd)⟩
  · rintro ⟨hself, hparts⟩ d hd
    cases hd with
    | self => exact hself
    | deeper hb hd => exact hparts _ hb d hd

/-- The numbers that are written for a configuration itself: those of its control, and those of the
initial value of a new row. -/
def Config.numbers (c : Config) : List Number :=
  Markup.inputNumbers c.props ++ (c.parts.elementField.toList.flatMap Field.initialNumbers)

/-- All numbers at any depth of the configuration can be written. -/
def Config.AllShort (c : Config) : Prop :=
  ∀ d : Config, d.Within c → ∀ n ∈ d.numbers, n.IsBounded

/-- Every choice at any depth of the configuration offers something, and if numbers are short so are
those that are shown. -/
def Config.AllShow (short : Prop) (c : Config) : Prop :=
  ∀ d : Config, d.Within c → d.Offers ∧ (short → ∀ n ∈ d.numbers, n.IsBounded)

/-- What offers options throughout can be shown, if its numbers are short. -/
theorem Config.AllOffer.allShow {short : Prop} {c : Config} (h : c.AllOffer)
    (hshort : short → c.AllShort) : c.AllShow short :=
  fun d hd => ⟨h d hd, fun hs => hshort hs d hd⟩

namespace Config.AllShow

variable {short : Prop} {c : Config} (h : c.AllShow short)

include h

theorem offers : c.Offers := (h c (.self c)).1

theorem isBounded (hshort : short) : ∀ n ∈ c.numbers, n.IsBounded := (h c (.self c)).2 hshort

theorem of_part {b : Config} (hb : b ∈ c.parts.configs) : b.AllShow short :=
  fun d hd => h d (.deeper hb hd)

theorem of_children {fields : List Field} {configs : List (String × Config)}
    (hc : c.parts.children? = some (fields, configs)) : ∀ e ∈ configs, e.2.AllShow short :=
  fun e he => h.of_part (Parts.mem_configs_of_children hc e he)

theorem of_element {f : Field} {d : Config} (hc : c.parts.element? = some (f, d)) :
    d.AllShow short :=
  h.of_part (Parts.mem_configs_of_element hc)

theorem of_union {key : String} {variants : List VariantConfig}
    (hc : c.parts.union? = some (key, variants)) :
    ∀ v ∈ variants, ∀ e ∈ v.configs, e.2.AllShow short :=
  fun v hv e he => h.of_part (Parts.mem_configs_of_union hc v hv e he)

end Config.AllShow

/-! ## Markup -/

namespace Markup

section

variable {short : Prop}

/-- A text area writes only numbers that an input writes too. -/
theorem textareaNumbers_subset (p : ControlProps) : textareaNumbers p ⊆ inputNumbers p :=
  List.subset_append_of_subset_right _ (List.map_subset _ (List.subset_append_right _ _))

/-- A slider writes only numbers that an input writes too. -/
theorem sliderNumbers_subset (p : ControlProps) : sliderNumbers p ⊆ inputNumbers p :=
  List.subset_append_left _ _

/-- The control of a configuration that can be shown is written. -/
theorem controlMarkup_isWritten {c : Config} (h : c.AllShow short) (fieldName : String)
    (place : Place) : IsWritten short (controlMarkup fieldName c place) := by
  have hoptions (hc : c.component.isChoice = true) :
      IsWritten short (requireOptions c fieldName) := by
    obtain ⟨first, rest, hprops⟩ := h.offers hc
    exact .inl ⟨first :: rest, by rw [requireOptions, hprops]⟩
  have hnumbers {numbers : List Number} (hsubset : numbers ⊆ inputNumbers c.props) (markup : String) :
      IsWritten short (writing .longInteger numbers markup) :=
    .of_writing (fun hshort n hn =>
      h.isBounded hshort n (List.mem_append_left _ (hsubset hn))) markup
  unfold controlMarkup
  cases hcomponent : c.component with
  | select => exact (hoptions (by rw [hcomponent]; rfl)).map
  | radioGroup => exact (hoptions (by rw [hcomponent]; rfl)).map
  | input => exact hnumbers (List.Subset.refl _) _
  | textarea => exact hnumbers (textareaNumbers_subset _) _
  | slider => exact hnumbers (sliderNumbers_subset _) _
  | _ => exact .of_ok _

/-- A record of a configuration that can be shown is written. -/
theorem recordMarkup_isWritten {d : Config} (h : d.AllShow short) (path : String) (c : Config) :
    IsWritten short (recordMarkup path c d) := by
  unfold recordMarkup
  split
  · exact .of_ok _
  · exact (controlMarkup_isWritten h _ _).map

/-- The numbers of the initial value of a new row are among those of the configuration. -/
theorem singleArray_isWritten {c elementConfig : Config} {element : Field} (h : c.AllShow short)
    (hc : c.parts.element? = some (element, elementConfig)) (path : String) :
    IsWritten short (singleArray path c elementConfig element) := by
  have hfield : c.parts.elementField = some element := by
    unfold Parts.element? at hc
    split at hc
    · rename_i hfield _
      cases hc
      exact hfield
    · cases hc
  have hnumbers : element.initialNumbers ⊆ c.numbers := by
    rw [Config.numbers, hfield]
    exact List.subset_append_of_subset_right _ (by simp)
  unfold singleArray
  obtain ⟨control, hcontrol⟩ | ⟨hlong, hshort⟩ :=
    controlMarkup_isWritten (h.of_element hc) element.name (.rows path)
  · rw [hcontrol]
    exact .of_writing (fun hshort n hn => h.isBounded hshort n (hnumbers hn)) _
  · rw [hlong]
    exact .inr ⟨rfl, hshort⟩

mutual

/-- A field with a configuration in which every choice offers something is rendered, wherever it
stands, unless a number that is shown is too long. -/
theorem fieldMarkup_isWritten {c : Config} (h : c.AllShow short) (place : Place) (f : Field) :
    IsWritten short (fieldMarkup place f c) := by
  unfold fieldMarkup
  split
  · exact fieldsetMarkup_isWritten h _ f
  · exact arrayMarkup_isWritten h _ f
  · exact unionMarkup_isWritten h _ f
  · exact .of_ok _
  · exact .of_ok _
  · exact (controlMarkup_isWritten h _ _).map
termination_by (sizeOf c, 1, 0)

/-- A fieldset of a configuration that can be shown is written. -/
theorem fieldsetMarkup_isWritten {c : Config} (h : c.AllShow short) (place : Place) (f : Field) :
    IsWritten short (fieldsetMarkup place f c) := by
  unfold fieldsetMarkup
  split
  · exact .of_ok _
  · rename_i fields configs hc
    have hsize : sizeOf configs < sizeOf c := Nat.lt_trans (children_size hc) (parts_size c)
    exact (childrenMarkup_isWritten (h.of_children hc) place fields).map
termination_by (sizeOf c, 0, 0)
decreasing_by exact Prod.Lex.left _ _ hsize

/-- An array of a configuration that can be shown is written. -/
theorem arrayMarkup_isWritten {c : Config} (h : c.AllShow short) (path : String) (f : Field) :
    IsWritten short (arrayMarkup path f c) := by
  unfold arrayMarkup
  split
  · exact .of_ok _
  · rename_i element elementConfig hc
    have helement := h.of_element hc
    have hparts : sizeOf elementConfig.parts < sizeOf c :=
      Nat.lt_trans (parts_size elementConfig) (Nat.lt_trans (element_size hc) (parts_size c))
    split
    · exact recordMarkup_isWritten helement path c
    split
    · split
      · exact .of_ok _
      · rename_i fields configs hchildren
        have hsize : sizeOf configs < sizeOf c := Nat.lt_trans (children_size hchildren) hparts
        exact (childrenMarkup_isWritten (helement.of_children hchildren) (.rows path) fields).map
    split
    · split
      · exact .of_ok _
      · rename_i key variants hunion
        have hsize : sizeOf variants < sizeOf c := Nat.lt_trans (union_size hunion) hparts
        exact (variantsMarkup_isWritten (helement.of_union hunion) (.rows path) key).map
    split
    · exact .of_ok _
    · exact singleArray_isWritten h hc path
termination_by (sizeOf c, 0, 0)
decreasing_by all_goals exact Prod.Lex.left _ _ hsize

/-- A union of a configuration that can be shown is written. -/
theorem unionMarkup_isWritten {c : Config} (h : c.AllShow short) (path : String) (f : Field) :
    IsWritten short (unionMarkup path f c) := by
  unfold unionMarkup
  split
  · exact .of_ok _
  · rename_i key variants hc
    have hsize : sizeOf variants < sizeOf c := Nat.lt_trans (union_size hc) (parts_size c)
    exact (variantsMarkup_isWritten (h.of_union hc) (.path path) key).map
termination_by (sizeOf c, 0, 0)
decreasing_by exact Prod.Lex.left _ _ hsize

/-- The children of an object are written, if their configurations can be shown. -/
theorem childrenMarkup_isWritten {configs : List (String × Config)}
    (h : ∀ e ∈ configs, e.2.AllShow short) (place : Place) (fields : List Field) :
    IsWritten short (childrenMarkup place configs fields) := by
  match fields with
  | [] =>
    rw [childrenMarkup]
    exact .of_ok _
  | f :: rest =>
    have hrest := childrenMarkup_isWritten h place rest
    unfold childrenMarkup
    split
    · exact hrest
    · rename_i c hc
      have hshow : c.AllShow short := h _ (mem_of_lookup hc)
      have hsize : sizeOf c < sizeOf configs := sizeOf_lookup_config_lt hc
      obtain ⟨markup, hmarkup⟩ | ⟨hlong, hshort⟩ :=
        fieldMarkup_isWritten hshow (place.child f.name) f
      · rw [hmarkup]
        exact hrest.map
      · rw [hlong]
        exact .inr ⟨rfl, hshort⟩
termination_by (sizeOf configs, 2, fields.length)
decreasing_by
  · exact Prod.Lex.right _ (Prod.Lex.right _ (by simp))
  · exact Prod.Lex.left _ _ hsize

/-- The variants of a union are written, if their configurations can be shown. -/
theorem variantsMarkup_isWritten {variants : List VariantConfig}
    (h : ∀ v ∈ variants, ∀ e ∈ v.configs, e.2.AllShow short) (place : Place)
    (discriminator : String) : IsWritten short (variantsMarkup place discriminator variants) := by
  match variants with
  | [] =>
    rw [variantsMarkup]
    exact .of_ok _
  | ⟨tag, fields, configs⟩ :: rest =>
    obtain ⟨hfirst, hothers⟩ := List.forall_mem_cons.1 h
    have hrest := variantsMarkup_isWritten hothers place discriminator
    unfold variantsMarkup
    obtain ⟨children, hchildren⟩ | ⟨hlong, hshort⟩ := childrenMarkup_isWritten hfirst place
      (fields.filter fun f => f.name != discriminator)
    · rw [hchildren]
      exact hrest.map
    · rw [hlong]
      exact .inr ⟨rfl, hshort⟩
termination_by (sizeOf variants, 2, 0)
decreasing_by
  · apply Prod.Lex.left
    simp only [List.cons.sizeOf_spec]
    omega
  · apply Prod.Lex.left
    simp only [List.cons.sizeOf_spec, VariantConfig.mk.sizeOf_spec]
    omega

end

end

end Markup

/-! ## Form files -/

namespace FormFile

open Markup (fieldMarkup_isWritten)

variable {short : Prop} {chosen : Chosen} (h : ∀ e ∈ chosen, e.2.AllShow short)

/-- The chosen fields are written, if their configurations can be shown. -/
theorem rootMarkups_isWritten (margin : Nat) : ∀ {chosen : Chosen},
    (∀ e ∈ chosen, e.2.AllShow short) → IsWritten short (rootMarkups margin chosen)
  | [], _ => .of_ok _
  | (f, c) :: rest, h => by
    obtain ⟨hfirst, hothers⟩ := List.forall_mem_cons.1 h
    obtain ⟨markup, hmarkup⟩ | ⟨hlong, hshort⟩ := fieldMarkup_isWritten hfirst (.path f.name) f
    · rw [rootMarkups, hmarkup]
      exact (rootMarkups_isWritten margin hothers).map
    · rw [rootMarkups, hlong]
      exact .inr ⟨rfl, hshort⟩

include h

theorem fieldsMarkup_isWritten (margin : Nat) : IsWritten short (fieldsMarkup margin chosen) :=
  (rootMarkups_isWritten margin h).map

/-- The fields that a step names are rendered, whatever names they are. -/
theorem stepBlocks_isWritten (index : Nat) (steps : List Step) :
    IsWritten short (stepBlocks chosen index steps) := by
  induction steps generalizing index with
  | nil => exact .of_ok _
  | cons s rest ih =>
    have hnamed : ∀ e ∈ s.fields.filterMap (chosenNamed chosen), e.2.AllShow short := by
      intro e he
      obtain ⟨name, -, hname⟩ := List.mem_filterMap.1 he
      exact h e (List.mem_of_find?_eq_some hname)
    unfold stepBlocks
    obtain ⟨content, hcontent⟩ | ⟨hlong, hshort⟩ := fieldsMarkup_isWritten hnamed 12
    · rw [hcontent]
      exact (ih (index + 1)).map
    · rw [hlong]
      exact .inr ⟨rfl, hshort⟩

/-- A form file is written if every choice in its fields offers something, unless a number in it is
too long. -/
theorem text_isWritten (head : Head) (steps : List Step)
    (hinitial : short → ∀ n ∈ allInitialNumbers (chosen.map Prod.fst), n.IsBounded) :
    IsWritten short (text head chosen steps) := by
  have hstate : IsWritten short (writeState head (chosen.map Prod.fst)) := .of_writing hinitial _
  unfold text
  split
  · unfold plainFile
    obtain ⟨state, hstate⟩ | ⟨hlong, hshort⟩ := hstate
    · rw [hstate]
      exact (fieldsMarkup_isWritten h 6).map
    · rw [hlong]
      exact .inr ⟨rfl, hshort⟩
  · unfold steppedFile
    obtain ⟨state, hstate⟩ | ⟨hlong, hshort⟩ := hstate
    · rw [hstate]
      exact (stepBlocks_isWritten h 0 steps).map
    · rw [hlong]
      exact .inr ⟨rfl, hshort⟩

end FormFile

end FormSchema
