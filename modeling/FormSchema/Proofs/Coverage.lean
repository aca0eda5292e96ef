import FormSchema.Generation
import FormSchema.Proofs.Exclusion
import FormSchema.Proofs.Offering
import FormSchema.Proofs.References

/-!
# Rules that cover fields

Rules cover a field (`Covers`) if the first one that accepts it gives properties that can be read
back, and options if its component lets choose. A field that is covered at every depth gets a
configuration in which every choice offers something (`Field.resolve_succeeds`), so a form of such
fields is generated with all of them (`Form.generate_of_covers`).

The default rules cover every field whose bounds are integers (`covers_defaultRules`). The list
ends in rules that test the kind of a field alone, one for each kind; the rules before them narrow
a kind down and may pass a field on.
-/

namespace FormSchema

/-! ## Properties -/

/-- The names of the properties of components that hold one value. -/
def controlNames : List String :=
  ["type", "min", "max", "step", "min_length", "max_length", "pattern", "options"]

/-- The entries give the properties: a property that is missing or null is not set. -/
structure ControlProps.IsIn (p : ControlProps) (es : Entries) : Prop where
  keys : ∀ e ∈ es, e.1 ∈ controlNames
  type : (es.lookup "type").getD .null = .ofText? p.type
  min : (es.lookup "min").getD .null = .ofOption .number p.min
  max : (es.lookup "max").getD .null = .ofOption .number p.max
  step : (es.lookup "step").getD .null = .ofOption .number p.step
  minLength : (es.lookup "min_length").getD .null = .ofOption .int p.minLength
  maxLength : (es.lookup "max_length").getD .null = .ofOption .int p.maxLength
  pattern : (es.lookup "pattern").getD .null = .ofText? p.pattern
  options : (es.lookup "options").getD .null =
    .ofOption (fun options => .list (options.map .text)) p.options

/-- A list of texts that was given is read back. -/
theorem nullableTexts_of_given {es : Entries} {name : String} {o : Option (List String)}
    (h : (es.lookup name).getD .null = .ofOption (fun ss => .list (ss.map .text)) o) :
    es.nullableTexts name = .valid o := by
  unfold Entries.nullableTexts
  cases hlookup : es.lookup name with
  | none =>
    rw [hlookup] at h
    cases o with
    | none => rfl
    | some _ => cases h
  | some d =>
    rw [hlookup] at h
    obtain rfl : d = _ := h
    cases o with
    | none => rfl
    | some ss =>
      show (Entries.textItems name (ss.map .text)).map some = _
      rw [textItems_texts]
      rfl

/-- Properties are read back from entries that give them. -/
theorem ControlProps.IsIn.read_eq {p : ControlProps} {es : Entries} (h : p.IsIn es) :
    ControlProps.read es = .valid p := by
  rw [ControlProps.read, nullable_of_given h.type (by simp) fun _ => rfl,
    nullableNumber_of_given h.min, nullableNumber_of_given h.max, nullableNumber_of_given h.step,
    nullable_of_given h.minLength (by simp) fun _ => rfl,
    nullable_of_given h.maxLength (by simp) fun _ => rfl,
    nullable_of_given h.pattern (by simp) fun _ => rfl, nullableTexts_of_given h.options]
  rfl

/-- The names of the properties that hold the parts of a component. -/
def partNames : List String :=
  ["child_configs", "child_fields", "element_config", "element_field", "discriminator",
    "variant_configs"]

/-- The properties are read from the entries, among which there are no parts. -/
structure ControlProps.IsReadFrom (p : ControlProps) (given : Entries) : Prop where
  apart : ∀ e ∈ given, e.1 ∉ partNames
  read_eq : ControlProps.read given = .valid p

/-- Given props are read back, with all else kept apart. -/
theorem readProps_of_isReadFrom {p : ControlProps} {given : Entries} (h : p.IsReadFrom given) :
    readProps given = .valid (p, Parts.none, extraProps given) := by
  have hnone {name : String} (hname : name ∈ partNames) : given.lookup name = none := by
    rw [← Option.not_isSome_iff_eq_none, Option.isSome_iff_exists]
    rintro ⟨d, hd⟩
    exact h.apart _ (mem_of_lookup hd) hname
  have hchildren : given.lookup "child_configs" = none := hnone (by decide)
  have helement : given.lookup "element_config" = none := hnone (by decide)
  have hvariants : given.lookup "variant_configs" = none := hnone (by decide)
  have hfields : nullableFields given "child_fields" = .valid none := by
    rw [nullableFields, hnone (by decide)]
  have hfield : nullableField given "element_field" = .valid none := by
    rw [nullableField, hnone (by decide)]
  have hkey : given.nullable "discriminator" Datum.text? = .valid none := by
    rw [Entries.nullable, hnone (by decide)]
  rw [readProps, h.read_eq, hfields, hfield, hkey]
  split
  · split
    · split
      · rfl
      all_goals simp_all
    all_goals simp_all
  all_goals simp_all

/-- What gives the properties of a control gives no parts. -/
theorem ControlProps.IsIn.isReadFrom {p : ControlProps} {es : Entries} (h : p.IsIn es) :
    p.IsReadFrom es where
  apart := fun e he hname => by
    have hapart : ∀ name ∈ controlNames, name ∉ partNames := by decide
    exact hapart e.1 (h.keys e he) hname
  read_eq := h.read_eq

theorem ControlProps.IsIn.extraProps_eq {p : ControlProps} {es : Entries} (h : p.IsIn es) :
    extraProps es = [] := by
  rw [extraProps, List.filter_eq_nil_iff]
  intro e he
  have hknown : controlNames ⊆ knownProps := by decide
  simpa using hknown (h.keys e he)

/-- Properties that are apart from the parts of the field stay as they are read. -/
theorem configOf_of_isReadFrom {rule : Rule} {f : Field} {given : Entries} {own : OwnParts}
    {p : ControlProps} (hgiven : p.IsReadFrom given) (hapart : ∀ e ∈ given, e.1 ∉ own.names) :
    configOf rule f given own =
      .ok ⟨rule.component, p, own.into Parts.none, extraProps given, f.frame⟩ := by
  have hkept : ∀ e ∈ given, (!own.names.contains e.1) = true := fun e he => by
    simpa using hapart e he
  rw [configOf, List.filter_eq_self.2 hkept, readProps_of_isReadFrom hgiven]
  rfl

/-! ## Rules -/

/-- The first rule that accepts the field gives properties that can be read, and options if its
component lets choose. -/
def Covers (rules : List Rule) (f : Field) : Prop :=
  ∃ (rule : Rule) (given : Entries) (props : ControlProps),
    firstRule? rules f = .ok (some rule) ∧ rule.props f = .ok given ∧ props.IsIn given ∧
      (rule.component.isChoice = true → ∃ first rest, props.options = some (first :: rest))

/-- The parts that a field brings along are apart from the properties, and every choice among them
offers something. -/
structure OwnParts.AreReady (own : OwnParts) : Prop where
  apart : ∀ name ∈ own.names, name ∉ controlNames
  offer : ∀ c ∈ (own.into Parts.none).configs, c.AllOffer

theorem areReady_none : OwnParts.none.AreReady where
  apart := fun _ hname => absurd hname List.not_mem_nil
  offer := fun _ hc => absurd hc List.not_mem_nil

theorem configsByName_forall {P : Config → Prop} {configs : List (String × Config)}
    (h : ∀ e ∈ configs, P e.2) : ∀ e ∈ configsByName configs, P e.2 :=
  putEntries_forall (fun _ he => absurd he List.not_mem_nil) h

/-- The parts of an object are ready, if its children offer options throughout. -/
theorem areReady_children {fields : List Field} {configs : List (String × Config)}
    (h : ∀ e ∈ configs, e.2.AllOffer) : (OwnParts.children fields configs).AreReady where
  apart := show ∀ name ∈ ["child_configs", "child_fields"], name ∉ controlNames by decide
  offer := by
    intro c hc
    simp only [OwnParts.children, Parts.configs, Parts.none, Option.getD, Option.toList,
      List.append_nil, List.flatMap_nil, List.mem_map] at hc
    obtain ⟨e, he, rfl⟩ := hc
    exact configsByName_forall h e he

/-- The parts of an array are ready, if its element offers options throughout. -/
theorem areReady_element {f : Field} {c : Config} (h : c.AllOffer) :
    (OwnParts.element f c).AreReady where
  apart := show ∀ name ∈ ["element_config", "element_field"], name ∉ controlNames by decide
  offer := by
    intro d hd
    obtain rfl : d = c := by
      simpa [OwnParts.element, Parts.configs, Parts.none] using hd
    exact h

/-- The parts of a union are ready, if its variants offer options throughout. -/
theorem areReady_union {discriminator : Option String} {variants : List VariantConfig}
    (h : ∀ v ∈ variants, ∀ e ∈ v.configs, e.2.AllOffer) :
    (OwnParts.union discriminator variants).AreReady where
  apart := show ∀ name ∈ ["discriminator", "variant_configs"], name ∉ controlNames by decide
  offer := by
    intro c hc
    simp only [OwnParts.union, Parts.configs, Parts.none, Option.getD, Option.toList,
      List.map_nil, List.nil_append, List.mem_flatMap, List.mem_map] at hc
    obtain ⟨v, hv, e, he, rfl⟩ := hc
    exact h v hv e he

/-- Props that are given and parts that are ready make up the configuration. -/
theorem configOf_eq {rule : Rule} {f : Field} {given : Entries} {own : OwnParts}
    {props : ControlProps} (hgiven : props.IsIn given) (hown : own.AreReady) :
    configOf rule f given own = .ok ⟨rule.component, props, own.into Parts.none, [], f.frame⟩ := by
  have hapart : ∀ e ∈ given, e.1 ∉ own.names := fun e he hname =>
    hown.apart e.1 hname (hgiven.keys e he)
  rw [configOf_of_isReadFrom hgiven.isReadFrom hapart, hgiven.extraProps_eq]

variable {rules : List Rule}

/-- A field gets the component and the properties of its rule, and the parts of its own. -/
theorem Field.resolve_of_parts {f : Field} {rule : Rule} {given : Entries} {props : ControlProps}
    {own : OwnParts} (hrule : firstRule? rules f = .ok (some rule))
    (hprops : rule.props f = .ok given) (hgiven : props.IsIn given)
    (hown : f.content.resolveParts rules = .ok own) (hready : own.AreReady) :
    f.resolve rules = .ok ⟨rule.component, props, own.into Parts.none, [], f.frame⟩ := by
  obtain ⟨name, label, description, isOptional, isNullable, constraints, content, reference⟩ := f
  simp only [Field.resolve, hrule, hprops, hown]
  exact configOf_eq hgiven hready

mutual

/-- If the rules cover a field and all fields below it, it gets a configuration in which every
choice offers something. -/
theorem Field.resolve_succeeds : ∀ f : Field, (∀ g : Field, g.Within f → Covers rules g) →
    ∃ c, f.resolve rules = .ok c ∧ c.AllOffer
  | ⟨name, label, description, isOptional, isNullable, constraints, content, reference⟩, h => by
    obtain ⟨rule, given, props, hrule, hprops, hgiven, hchoice⟩ := h _ (.self _)
    obtain ⟨own, hown, hready⟩ :=
      Content.resolveParts_succeeds content fun c hc g hg => h g (.deeper hc hg)
    exact ⟨_, Field.resolve_of_parts hrule hprops hgiven hown hready,
      allOffer_iff.2 ⟨hchoice, hready.offer⟩⟩

/-- The parts of a content are resolved and ready, if the rules cover all below it. -/
theorem Content.resolveParts_succeeds : ∀ content : Content,
    (∀ c ∈ content.children, ∀ g : Field, g.Within c → Covers rules g) →
      ∃ own, content.resolveParts rules = .ok own ∧ own.AreReady
  | .object fields, h => by
    obtain ⟨configs, hconfigs, hoffer⟩ := resolveAll_succeeds fields h
    exact ⟨_, by rw [Content.resolveParts, hconfigs]; rfl, areReady_children hoffer⟩
  | .tuple elements, h => by
    obtain ⟨configs, hconfigs, hoffer⟩ := resolveAll_succeeds elements h
    exact ⟨_, by rw [Content.resolveParts, hconfigs]; rfl, areReady_children hoffer⟩
  | .array element, h => by
    obtain ⟨c, hc, hoffer⟩ :=
      Field.resolve_succeeds element (h element (List.mem_singleton_self element))
    exact ⟨_, by rw [Content.resolveParts, hc]; rfl, areReady_element hoffer⟩
  | .record value, h => by
    obtain ⟨c, hc, hoffer⟩ :=
      Field.resolve_succeeds value (h value (List.mem_singleton_self value))
    exact ⟨_, by rw [Content.resolveParts, hc]; rfl, areReady_element hoffer⟩
  | .union discriminator variants, h => by
    obtain ⟨vs, hvs, hoffer⟩ := resolveVariants_succeeds variants fun v hv f hf =>
      h f (List.mem_flatMap.2 ⟨v, hv, hf⟩)
    exact ⟨_, by rw [Content.resolveParts, hvs]; rfl, areReady_union hoffer⟩
  | .string, _ | .number, _ | .boolean, _ | .date, _ | .enum _ _, _ => ⟨_, rfl, areReady_none⟩

/-- Fields are resolved and offer options throughout, if the rules cover all in them. -/
theorem resolveAll_succeeds : ∀ fields : List Field,
    (∀ f ∈ fields, ∀ g : Field, g.Within f → Covers rules g) →
      ∃ configs, resolveAll rules fields = .ok configs ∧ ∀ e ∈ configs, e.2.AllOffer
  | [], _ => ⟨[], rfl, fun _ he => absurd he List.not_mem_nil⟩
  | f :: rest, h => by
    obtain ⟨hfirst, hothers⟩ := List.forall_mem_cons.1 h
    obtain ⟨c, hc, hoffer⟩ := Field.resolve_succeeds f hfirst
    obtain ⟨configs, hconfigs, hrest⟩ := resolveAll_succeeds rest hothers
    exact ⟨(f.name, c) :: configs, by rw [resolveAll, hc, hconfigs]; rfl,
      List.forall_mem_cons.2 ⟨hoffer, hrest⟩⟩

/-- Variants are resolved and offer options throughout, if the rules cover all in them. -/
theorem resolveVariants_succeeds : ∀ variants : List Variant,
    (∀ v ∈ variants, ∀ f ∈ v.fields, ∀ g : Field, g.Within f → Covers rules g) →
      ∃ vs, resolveVariants rules variants = .ok vs ∧ ∀ v ∈ vs, ∀ e ∈ v.configs, e.2.AllOffer
  | [], _ => ⟨[], rfl, fun _ he => absurd he List.not_mem_nil⟩
  | ⟨tag, fields⟩ :: rest, h => by
    obtain ⟨hfirst, hothers⟩ := List.forall_mem_cons.1 h
    obtain ⟨configs, hconfigs, hoffer⟩ := resolveAll_succeeds fields hfirst
    obtain ⟨vs, hvs, hrest⟩ := resolveVariants_succeeds rest hothers
    exact ⟨⟨tag, fields, configsByName configs⟩ :: vs,
      by rw [resolveVariants, hconfigs, hvs]; rfl,
      List.forall_mem_cons.2 ⟨configsByName_forall hoffer, hrest⟩⟩

end

/-! ## Forms -/

/-- If the rules cover all fields, each is chosen with a configuration in which every choice offers
something. -/
theorem chosenBy_of_covers {fields : List Field}
    (h : ∀ root ∈ fields, ∀ g : Field, g.Within root → Covers rules g) :
    (chosenBy rules fields).map Prod.fst = fields ∧ exclusions rules fields = [] ∧
      ∀ e ∈ chosenBy rules fields, e.2.AllOffer := by
  induction fields with
  | nil => exact ⟨rfl, rfl, fun _ he => absurd he List.not_mem_nil⟩
  | cons f rest ih =>
    obtain ⟨hfirst, hothers⟩ := List.forall_mem_cons.1 h
    obtain ⟨c, hc, hoffer⟩ := f.resolve_succeeds hfirst
    obtain ⟨hfields, hexclusions, hrest⟩ := ih hothers
    have hchosen : chosenBy rules (f :: rest) = (f, c) :: chosenBy rules rest := by
      simp [chosenBy, hc]
    refine ⟨by rw [hchosen, List.map_cons, hfields], ?_,
      hchosen ▸ List.forall_mem_cons.2 ⟨hoffer, hrest⟩⟩
    simpa [exclusions, hc] using hexclusions

/-- If the rules cover all fields, at every depth, nothing is left out, and generating the form fails
only if a number is too long to be written. -/
theorem Form.generate_of_covers {form : Form} {short : Prop} (settings : Settings)
    (h : ∀ root ∈ form.fields, ∀ g : Field, g.Within root → Covers rules g)
    (hshort : short → (∀ e ∈ chosenBy rules form.fields, e.2.AllShort) ∧
      ∀ n ∈ allInitialNumbers form.fields, n.IsBounded) :
    IsWritten short (form.generate rules settings) ∧
      ∀ out, form.generate rules settings = .ok out →
        out.fields = form.fieldNames ∧ out.warnings = form.warnings := by
  obtain ⟨hfields, hexclusions, hoffer⟩ := chosenBy_of_covers h
  have hshow : ∀ e ∈ chosenBy rules form.fields, e.2.AllShow short :=
    fun e he => (hoffer e he).allShow fun hs => (hshort hs).1 e he
  have hinitial : short → ∀ n ∈ allInitialNumbers ((chosenBy rules form.fields).map Prod.fst),
      n.IsBounded := by
    rw [hfields]
    exact fun hs => (hshort hs).2
  refine ⟨(FormFile.text_isWritten hshow _ _ hinitial).map, fun out hout => ?_⟩
  obtain ⟨code, -, rfl⟩ := map_eq_ok.1 hout
  have hnames : (chosenBy rules form.fields).map (fun e => e.1.name) = form.fieldNames := by
    rw [Form.fieldNames, ← congrArg (List.map Field.name) hfields, List.map_map]
    rfl
  exact ⟨hnames, by rw [hexclusions, List.append_nil]⟩

/-! ## The default rules -/

/-- The bounds of a field that are given are integers. -/
def Field.HasIntegerBounds (f : Field) : Prop :=
  (∀ k ∈ f.constraints.min, ∃ i, k = .int i) ∧ ∀ k ∈ f.constraints.max, ∃ i, k = .int i

theorem isIn_nil : ({} : ControlProps).IsIn [] where
  keys := fun _ he => absurd he List.not_mem_nil
  type := rfl
  min := rfl
  max := rfl
  step := rfl
  minLength := rfl
  maxLength := rfl
  pattern := rfl
  options := rfl

/-- A rule for a control without options covers a field that it gives props. -/
theorem covers_of_plain {f : Field} {rule : Rule} {given : Entries} {props : ControlProps}
    (hrule : firstRule? rules f = .ok (some rule)) (hprops : rule.props f = .ok given)
    (hgiven : props.IsIn given) (hplain : rule.component.isChoice = false) : Covers rules f :=
  ⟨rule, given, props, hrule, hprops, hgiven, fun hchoice => by simp [hplain] at hchoice⟩

/-- A rule that accepts is the first one. -/
theorem firstRule?_accept {rule : Rule} {rest : List Rule} {f : Field}
    (h : rule.accepts f = .ok true) : firstRule? (rule :: rest) f = .ok (some rule) := by
  rw [firstRule?, h]

/-- A rule that rejects is passed over. -/
theorem firstRule?_reject {rule : Rule} {rest : List Rule} {f : Field}
    (h : rule.accepts f = .ok false) : firstRule? (rule :: rest) f = firstRule? rest f := by
  rw [firstRule?, h]

/-- The rule that is asked next accepts the field, or it leaves the field to the others. -/
theorem covers_of_asked {rule : Rule} {rest : List Rule} {f : Field} {accepts : Bool}
    (hskip : firstRule? rules f = firstRule? (rule :: rest) f)
    (hasked : rule.accepts f = .ok accepts)
    (hyes : firstRule? rules f = .ok (some rule) → Covers rules f)
    (hno : firstRule? rules f = firstRule? rest f → Covers rules f) : Covers rules f := by
  cases accepts with
  | true => exact hyes (hskip.trans (firstRule?_accept hasked))
  | false => exact hno (hskip.trans (firstRule?_reject hasked))

/-- An enum with few options gets buttons, and any other one a list. -/
theorem firstRule?_enum {f : Field} {first : String} {rest : List String}
    (hf : f.content = .enum first rest) : firstRule? defaultRules f =
      .ok (some (if isSmallEnum f then defaultRules[6] else defaultRules[7])) := by
  have hskip : firstRule? defaultRules f = firstRule? (defaultRules.drop 6) f := by
    obtain ⟨_, _, _, _, _, _, _, _⟩ := f
    obtain rfl := hf
    rfl
  cases hsmall : isSmallEnum f with
  | true =>
    have haccepts : defaultRules[6].accepts f = .ok true := congrArg Except.ok hsmall
    exact hskip.trans (firstRule?_accept haccepts)
  | false =>
    have hrejects : defaultRules[6].accepts f = .ok false := congrArg Except.ok hsmall
    have haccepts : defaultRules[7].accepts f = .ok true := by
      show Except.ok (f.content.type == .enum) = .ok true
      rw [hf]
      rfl
    exact hskip.trans ((firstRule?_reject hrejects).trans (firstRule?_accept haccepts))

/-- Whether an enum gets buttons or a list, its options are a property, and there are some. -/
theorem covers_enum {f : Field} {first : String} {rest : List String}
    (hf : f.content = .enum first rest) : Covers defaultRules f := by
  have hgiven : ({ options := some (first :: rest) } : ControlProps).IsIn (optionsProp f) := by
    rw [optionsProp, hf]
    exact ⟨by simp [controlNames], rfl, rfl, rfl, rfl, rfl, rfl, rfl, rfl⟩
  have hoptions : ∃ a as, some (first :: rest) = some (a :: as) := ⟨first, rest, rfl⟩
  refine ⟨_, optionsProp f, _, firstRule?_enum hf, ?_, hgiven, fun _ => hoptions⟩
  split <;> rfl

/-- Integers can always be subtracted. -/
theorem exists_isNarrowNumber {f : Field} (h : f.HasIntegerBounds) :
    ∃ narrow, isNarrowNumber f = .ok narrow := by
  unfold isNarrowNumber
  split
  · split
    · rename_i low high hlow hhigh
      obtain ⟨a, rfl⟩ := h.1 low hlow
      obtain ⟨b, rfl⟩ := h.2 high hhigh
      exact ⟨_, rfl⟩
    · exact ⟨_, rfl⟩
  · exact ⟨_, rfl⟩

/-- The default rules cover numbers with integer bounds. -/
theorem covers_number {f : Field} (h : f.HasIntegerBounds) (hf : f.content = .number) :
    Covers defaultRules f := by
  have hskip : firstRule? defaultRules f = firstRule? (defaultRules.drop 9) f := by
    obtain ⟨_, _, _, _, _, _, _, _⟩ := f
    obtain rfl := hf
    rfl
  have hslider : ControlProps.IsIn
      { min := f.constraints.min
        max := f.constraints.max
        step := some (f.constraints.step.getD (.int 1)) }
      [("min", .ofOption .number f.constraints.min), ("max", .ofOption .number f.constraints.max),
        ("step", .number (f.constraints.step.getD (.int 1)))] :=
    ⟨by simp [controlNames], rfl, rfl, rfl, rfl, rfl, rfl, rfl, rfl⟩
  have hinput : ControlProps.IsIn
      { type := some "number"
        min := f.constraints.min
        max := f.constraints.max
        step := f.constraints.step }
      [("type", .text "number"), ("min", .ofOption .number f.constraints.min),
        ("max", .ofOption .number f.constraints.max),
        ("step", .ofOption .number f.constraints.step)] :=
    ⟨by simp [controlNames], rfl, rfl, rfl, rfl, rfl, rfl, rfl, rfl⟩
  obtain ⟨narrow, hnarrow⟩ := exists_isNarrowNumber h
  refine covers_of_asked hskip hnarrow
    (fun hrule => covers_of_plain hrule rfl hslider rfl) fun hskip => ?_
  have haccepts : defaultRules[10].accepts f = .ok true := by
    show Except.ok (f.content.type == .number) = .ok true
    rw [hf]
    rfl
  exact covers_of_plain (hskip.trans (firstRule?_accept haccepts)) rfl hinput rfl

/-- The default rules cover strings. -/
theorem covers_string {f : Field} (hf : f.content = .string) : Covers defaultRules f := by
  have hskip : firstRule? defaultRules f = firstRule? (defaultRules.drop 11) f := by
    obtain ⟨_, _, _, _, _, _, _, _⟩ := f
    obtain rfl := hf
    rfl
  have htype (s : String) : ({ type := some s } : ControlProps).IsIn [("type", .text s)] :=
    ⟨by simp [controlNames], rfl, rfl, rfl, rfl, rfl, rfl, rfl, rfl⟩
  have hlong : ({ maxLength := f.constraints.maxLength } : ControlProps).IsIn
      [("max_length", .ofOption .int f.constraints.maxLength)] :=
    ⟨by simp [controlNames], rfl, rfl, rfl, rfl, rfl, rfl, rfl, rfl⟩
  have hdefault : ControlProps.IsIn
      { type := some "text"
        minLength := f.constraints.minLength
        maxLength := f.constraints.maxLength
        pattern := f.constraints.pattern }
      [("type", .text "text"), ("min_length", .ofOption .int f.constraints.minLength),
        ("max_length", .ofOption .int f.constraints.maxLength),
        ("pattern", .ofOption .text f.constraints.pattern)] :=
    ⟨by simp [controlNames], rfl, rfl, rfl, rfl, rfl, rfl, rfl, rfl⟩
  refine covers_of_asked hskip rfl
    (fun hemail => covers_of_plain hemail rfl (htype "email") rfl) fun hskip => ?_
  refine covers_of_asked hskip rfl
    (fun hurl => covers_of_plain hurl rfl (htype "url") rfl) fun hskip => ?_
  refine covers_of_asked hskip rfl
    (fun hlength => covers_of_plain hlength rfl hlong rfl) fun hskip => ?_
  have haccepts : defaultRules[14].accepts f = .ok true := by
    show Except.ok (f.content.type == .string) = .ok true
    rw [hf]
    rfl
  exact covers_of_plain (hskip.trans (firstRule?_accept haccepts)) rfl hdefault rfl

/-- The default rules cover every field with integer bounds. -/
theorem covers_defaultRules {f : Field} (h : f.HasIntegerBounds) : Covers defaultRules f := by
  cases hf : f.content with
  | enum first rest => exact covers_enum hf
  | number => exact covers_number h hf
  | string => exact covers_string hf
  | _ =>
    obtain ⟨_, _, _, _, _, _, _, _⟩ := f
    obtain rfl := hf
    exact covers_of_plain rfl rfl isIn_nil rfl

end FormSchema
