import FormSchema.Proofs.BindingOrder
import FormSchema.Proofs.Imports

/-!
# Fields with flat texts

The default rules give each kind of fields a component that holds one value or other fields, as the
fields of the kind do (`component_of_defaultRules`), and their only property that is shown between
tags is the list of the options of an enum (`Field.options_of_resolve`). So a field whose names,
labels and values are flat at every depth has a configuration whose texts are flat
(`allFlat_of_resolve`), and its markup has the lines of its bindings. Descriptions and patterns may
have line breaks, since they stand in attributes.
-/

namespace FormSchema

/-! ## Components and options by the default rules -/

/-- The component suits fields of the kind. -/
def Component.Suits (component : Component) (type : FieldType) : Prop :=
  component.isComposite = type.isComposite ∧
    (type = .object ∨ type = .tuple → component = .fieldset) ∧
      (type = .union → component = .unionSwitch)

instance (component : Component) (type : FieldType) : Decidable (component.Suits type) :=
  inferInstanceAs (Decidable (_ ∧ _ ∧ _))

theorem suits_of_type {component : Component} {f : Field} {type : FieldType} (hf : f.type = type)
    (hsuits : component.Suits type) : component.Suits f.type :=
  hf ▸ hsuits

theorem type_of_isSmallEnum {f : Field} (h : isSmallEnum f = true) : f.type = .enum := by
  unfold isSmallEnum at h
  split at h
  · rename_i hcontent
    rw [Field.type, hcontent]
    rfl
  · cases h

theorem type_of_isNarrowNumber {f : Field} (h : isNarrowNumber f = .ok true) :
    f.type = .number := by
  unfold isNarrowNumber at h
  split at h
  · rename_i hnumber
    exact eq_of_beq hnumber
  · cases h

theorem type_of_isLongString {f : Field} (h : isLongString f = true) : f.type = .string := by
  rw [isLongString, Bool.and_eq_true] at h
  exact eq_of_beq h.1

/-- A rule that accepts a field has a component that suits it. -/
theorem component_of_defaultRules {f : Field} : ∀ rule ∈ defaultRules,
    rule.accepts f = .ok true → rule.component.Suits f.type := by
  have htype {type : FieldType} (h : Except.ok (f.type == type) = (.ok true : Result Bool)) :
      f.type = type :=
    eq_of_beq (Except.ok.inj h)
  have hkind {name : String} {type : FieldType} {component : Component}
      (hsuits : component.Suits type) (h : (kindRule name type component).accepts f = .ok true) :
      component.Suits f.type :=
    suits_of_type (htype h) hsuits
  have hformat (name : String) (format : StringFormat)
      (h : (formatRule name format).accepts f = .ok true) : Component.input.Suits f.type := by
    have hboth := Except.ok.inj h
    rw [Bool.and_eq_true] at hboth
    exact suits_of_type (eq_of_beq hboth.1) (by decide)
  simp only [defaultRules, List.forall_mem_cons, List.not_mem_nil, false_implies, implies_true,
    and_true]
  exact ⟨hkind (by decide), hkind (by decide), hkind (by decide), hkind (by decide),
    hkind (by decide), hkind (by decide),
    fun h => suits_of_type (type_of_isSmallEnum (Except.ok.inj h)) (by decide),
    fun h => suits_of_type (htype h) (by decide), hkind (by decide),
    fun h => suits_of_type (type_of_isNarrowNumber h) (by decide),
    fun h => suits_of_type (htype h) (by decide), hformat _ _, hformat _ _,
    fun h => suits_of_type (type_of_isLongString (Except.ok.inj h)) (by decide),
    fun h => suits_of_type (htype h) (by decide)⟩

theorem Field.component_of_resolve {f : Field} {c : Config}
    (h : ∀ g : Field, g.Within f → Covers defaultRules g) (hc : f.resolve defaultRules = .ok c) :
    c.component.Suits f.type := by
  obtain ⟨rule, _, _, hf⟩ := Field.resolvesTo h hc
  rw [hf.component]
  obtain ⟨hrule, haccepts⟩ := firstRule?_eq_some hf.accepted
  exact component_of_defaultRules rule hrule haccepts

/-- Options are given to an enum only. -/
theorem Field.Given.mem_optionsProp {f : Field} {e : String × Datum} (h : f.Given e)
    (he : e.1 = "options") : e ∈ optionsProp f := by
  cases h with
  | options hprop => exact hprop
  | _ => exact absurd he (by simp)

/-- The options of a configuration are those of an enum. -/
theorem Field.options_of_resolve {f : Field} {c : Config}
    (h : ∀ g : Field, g.Within f → Covers defaultRules g) (hc : f.resolve defaultRules = .ok c) :
    ∀ options ∈ c.props.options, ∃ first rest, f.content = .enum first rest ∧
      options = first :: rest := by
  obtain ⟨rule, given, own, hf⟩ := Field.resolvesTo h hc
  intro options hoptions
  have hgiven := hf.props.options
  rw [Option.mem_def.1 hoptions] at hgiven
  obtain ⟨hrule, -⟩ := firstRule?_eq_some hf.accepted
  have hmem := mem_of_given (by simp [Datum.ofOption]) hgiven
  have hprop := (given_of_defaultRules rule hrule given hf.gives _ hmem).mem_optionsProp rfl
  unfold optionsProp at hprop
  split at hprop
  · rename_i first rest hcontent
    have hsame : options.map Datum.text = (first :: rest).map Datum.text :=
      Datum.list.inj (Prod.mk.inj (List.mem_singleton.1 hprop)).2
    exact ⟨first, rest, hcontent, List.map_injective_iff.2 (fun _ _ => Datum.text.inj) hsame⟩
  · cases hprop

/-! ## Flat fields -/

/-- The name, the label and the values of a field are flat. -/
structure Field.IsFlat (f : Field) : Prop where
  name : FormSchema.IsFlat f.name
  label : FormSchema.IsFlat f.label
  content : f.content.HasTexts FormSchema.IsFlat

/-- The initial value of a field that holds one value is flat, whatever it is. -/
theorem isFlat_initial {f : Field} (level : Int) (h : f.type.isComposite = false) :
    FormSchema.IsFlat (f.initial level) := by
  obtain ⟨_, _, _, _, _, constraints, content, _⟩ := f
  rw [Field.initial]
  cases content with
  | string => exact show FormSchema.IsFlat "\"\"" by decide
  | boolean => exact show FormSchema.IsFlat "false" by decide
  | date => exact show FormSchema.IsFlat "undefined" by decide
  | number =>
    rw [Content.initial]
    split
    · exact isFlat_literal _
    · decide
  | enum first _ => exact isFlat_quoted first
  | _ => cases h

/-- The parts of the configuration of a flat field show flat texts. -/
theorem isFlat_of_resolve {f : Field} {c : Config}
    (hcovers : ∀ g : Field, g.Within f → Covers defaultRules g)
    (hflat : ∀ g : Field, g.Within f → g.IsFlat) (hc : f.resolve defaultRules = .ok c) :
    c.IsFlat := by
  obtain ⟨rule, given, own, hf⟩ := Field.resolvesTo hcovers hc
  have hself := hflat f (.self f)
  have hchild : ∀ g ∈ f.children, g.IsFlat := fun g hg => hflat g (.deeper hg (.self g))
  have hlabel : FormSchema.IsFlat c.frame.label := by
    rw [hf.frame]
    exact hself.label
  have hoptions : ∀ options ∈ c.props.options, ∀ s ∈ options, FormSchema.IsFlat s := by
    intro options hoptions
    obtain ⟨first, rest, hcontent, rfl⟩ := Field.options_of_resolve hcovers hc options hoptions
    have htexts := hself.content
    rw [hcontent] at htexts
    exact htexts
  refine ⟨hlabel, hoptions, fun fields configs hparts => ?_, fun d e hparts => ?_,
    fun key configs hparts => ?_⟩
  · rw [hf.parts] at hparts
    obtain rfl := children_of_resolveParts hf.brings hparts
    exact fun g hg => (hchild g hg).name
  · rw [hf.parts] at hparts
    obtain ⟨hd, he⟩ := element_of_resolveParts hf.brings hparts
    have hsuits := Field.component_of_resolve (fun g hg => hcovers g (.deeper hd hg)) he
    exact ⟨(hchild d hd).label, fun hsingle => isFlat_initial 3 (hsuits.1 ▸ hsingle)⟩
  · rw [hf.parts] at hparts
    obtain ⟨variants, hcontent, hvariants⟩ := union_of_resolveParts hf.brings hparts
    have htexts := hself.content
    rw [hcontent] at htexts
    refine ⟨htexts.1 key rfl, fun v hv => ?_⟩
    obtain ⟨variant, hvariant, htag, hfields, -⟩ := mem_of_resolveVariants hvariants v hv
    rw [htag, hfields]
    refine ⟨htexts.2 variant hvariant, fun g hg => (hchild g ?_).name⟩
    rw [Field.children, hcontent]
    exact List.mem_flatMap.2 ⟨variant, hvariant, hg⟩

/-- The configuration of a field that is flat at every depth has flat texts. -/
theorem allFlat_of_resolve {f : Field} {c : Config}
    (hcovers : ∀ g : Field, g.Within f → Covers defaultRules g)
    (hflat : ∀ g : Field, g.Within f → g.IsFlat) (hc : f.resolve defaultRules = .ok c) :
    c.AllFlat := by
  intro d hd
  obtain ⟨g, hg, hresolve⟩ := Field.resolve_within hd hcovers hc
  exact isFlat_of_resolve (fun e he => hcovers e (he.trans hg)) (fun e he => hflat e (he.trans hg))
    hresolve

end FormSchema
