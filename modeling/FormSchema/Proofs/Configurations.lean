import FormSchema.Proofs.Coverage

/-!
# Configurations by rules

Each configuration below that of a field is the configuration of a field below it
(`Field.resolve_within`). So what holds of all configurations of a form is shown of one field, the
rule that accepts it and the fields right below it (`Field.ResolvesTo`).

What the default rules give a field as properties is known without the rule: the options of an enum,
constraints of the field, and words of their own (`given_of_defaultRules`). So the numbers that a
configuration shows are constraints of the field and of those below it, and are written if these are
short enough (`allShort_of_resolve`).
-/

namespace FormSchema

variable {rules : List Rule}

/-! ## Configurations below the one of a field -/

theorem mem_of_resolveAll : ∀ {fields : List Field} {configs : List (String × Config)},
    resolveAll rules fields = .ok configs →
      ∀ e ∈ configs, ∃ f ∈ fields, f.resolve rules = .ok e.2
  | [], _, h => by
    cases h
    exact fun _ he => absurd he List.not_mem_nil
  | f :: rest, _, h => by
    rw [resolveAll] at h
    split at h
    · cases h
    · rename_i c hc
      obtain ⟨others, hothers, rfl⟩ := map_eq_ok.1 h
      refine List.forall_mem_cons.2 ⟨⟨f, List.mem_cons_self, hc⟩, fun e he => ?_⟩
      obtain ⟨g, hg, hresolve⟩ := mem_of_resolveAll hothers e he
      exact ⟨g, List.mem_cons_of_mem f hg, hresolve⟩

/-- The variants of a union keep their tags and fields, and each of their configurations is that of
a field. -/
theorem mem_of_resolveVariants : ∀ {variants : List Variant} {configs : List VariantConfig},
    resolveVariants rules variants = .ok configs →
      ∀ v ∈ configs, ∃ variant ∈ variants, v.tag = variant.tag ∧ v.fields = variant.fields ∧
        ∀ e ∈ v.configs, ∃ f ∈ variant.fields, f.resolve rules = .ok e.2
  | [], _, h => by
    cases h
    exact fun _ hv => absurd hv List.not_mem_nil
  | ⟨tag, fields⟩ :: rest, _, h => by
    rw [resolveVariants] at h
    split at h
    · cases h
    · rename_i configs hconfigs
      obtain ⟨others, hothers, rfl⟩ := map_eq_ok.1 h
      refine List.forall_mem_cons.2 ⟨⟨_, List.mem_cons_self, rfl, rfl, ?_⟩, fun v hv => ?_⟩
      · exact configsByName_forall (P := fun c => ∃ f ∈ fields, f.resolve rules = .ok c)
          (mem_of_resolveAll hconfigs)
      · obtain ⟨variant, hvariant, hrest⟩ := mem_of_resolveVariants hothers v hv
        exact ⟨variant, List.mem_cons_of_mem _ hvariant, hrest⟩

/-- The parts that a content brings along have the configurations of the fields right below. -/
theorem mem_of_resolveParts {content : Content} {own : OwnParts}
    (h : content.resolveParts rules = .ok own) :
    ∀ c ∈ (own.into Parts.none).configs, ∃ f ∈ content.children, f.resolve rules = .ok c := by
  have hfields {fields : List Field}
      (h : (resolveAll rules fields).map (OwnParts.children fields) = .ok own) :
      ∀ c ∈ (own.into Parts.none).configs, ∃ f ∈ fields, f.resolve rules = .ok c := by
    obtain ⟨configs, hconfigs, rfl⟩ := map_eq_ok.1 h
    intro c hc
    simp only [OwnParts.children, Parts.configs, Parts.none, Option.getD, Option.toList,
      List.append_nil, List.flatMap_nil, List.mem_map] at hc
    obtain ⟨e, he, rfl⟩ := hc
    exact configsByName_forall (P := fun c => ∃ f ∈ fields, f.resolve rules = .ok c)
      (mem_of_resolveAll hconfigs) e he
  have hfield {f : Field} (h : (f.resolve rules).map (OwnParts.element f) = .ok own) :
      ∀ c ∈ (own.into Parts.none).configs, ∃ g ∈ [f], g.resolve rules = .ok c := by
    obtain ⟨d, hd, rfl⟩ := map_eq_ok.1 h
    intro c hc
    obtain rfl : c = d := by simpa [OwnParts.element, Parts.configs, Parts.none] using hc
    exact ⟨f, List.mem_singleton_self f, hd⟩
  cases content with
  | object fields => exact hfields h
  | tuple elements => exact hfields h
  | array element => exact hfield h
  | record value => exact hfield h
  | union discriminator variants =>
    obtain ⟨vs, hvs, rfl⟩ := map_eq_ok.1 h
    intro c hc
    simp only [OwnParts.union, Parts.configs, Parts.none, Option.getD, Option.toList,
      List.map_nil, List.nil_append, List.mem_flatMap, List.mem_map] at hc
    obtain ⟨v, hv, e, he, rfl⟩ := hc
    obtain ⟨variant, hvariant, -, -, hresolve⟩ := mem_of_resolveVariants hvs v hv
    obtain ⟨f, hf, hf'⟩ := hresolve e he
    exact ⟨f, List.mem_flatMap.2 ⟨variant, hvariant, hf⟩, hf'⟩
  | _ =>
    cases h
    exact fun _ hc => absurd hc List.not_mem_nil

section Parts

variable {content : Content} {own : OwnParts} (h : content.resolveParts rules = .ok own)

include h

theorem children_of_resolveParts {fields : List Field} {configs : List (String × Config)}
    (hc : (own.into Parts.none).children? = some (fields, configs)) :
    fields = content.children := by
  cases content with
  | object | tuple | array | record | union =>
    obtain ⟨_, -, rfl⟩ := map_eq_ok.1 h
    cases hc <;> rfl
  | _ =>
    cases h
    cases hc

theorem element_of_resolveParts {f : Field} {d : Config}
    (hc : (own.into Parts.none).element? = some (f, d)) :
    f ∈ content.children ∧ f.resolve rules = .ok d := by
  cases content with
  | array | record =>
    obtain ⟨_, hd, rfl⟩ := map_eq_ok.1 h
    cases hc
    exact ⟨List.mem_singleton_self _, hd⟩
  | object | tuple | union =>
    obtain ⟨_, -, rfl⟩ := map_eq_ok.1 h
    cases hc
  | _ =>
    cases h
    cases hc

theorem union_of_resolveParts {key : String} {configs : List VariantConfig}
    (hc : (own.into Parts.none).union? = some (key, configs)) :
    ∃ variants, content = .union (some key) variants ∧
      resolveVariants rules variants = .ok configs := by
  cases content with
  | union discriminator variants =>
    obtain ⟨vs, hvs, rfl⟩ := map_eq_ok.1 h
    cases discriminator with
    | none => cases hc
    | some key' =>
      simp only [OwnParts.union, Parts.union?] at hc
      split at hc
      · cases hc
      · cases hc
        exact ⟨variants, rfl, hvs⟩
  | object | tuple | array | record =>
    obtain ⟨_, -, rfl⟩ := map_eq_ok.1 h
    cases hc
  | _ =>
    cases h
    cases hc

end Parts

/-- What the configuration of a covered field is made of. -/
structure Field.ResolvesTo (rules : List Rule) (f : Field) (c : Config) (rule : Rule)
    (given : Entries) (own : OwnParts) : Prop where
  accepted : firstRule? rules f = .ok (some rule)
  gives : rule.props f = .ok given
  props : c.props.IsIn given
  brings : f.content.resolveParts rules = .ok own
  component : c.component = rule.component
  frame : c.frame = f.frame
  parts : c.parts = own.into Parts.none

theorem Field.resolvesTo {f : Field} {c : Config} (h : ∀ g : Field, g.Within f → Covers rules g)
    (hc : f.resolve rules = .ok c) : ∃ rule given own, f.ResolvesTo rules c rule given own := by
  obtain ⟨rule, given, props, hrule, hprops, hgiven, -⟩ := h f (.self f)
  obtain ⟨own, hown, hready⟩ :=
    Content.resolveParts_succeeds f.content fun d hd g hg => h g (.deeper hd hg)
  rw [Field.resolve_of_parts hrule hprops hgiven hown hready] at hc
  cases hc
  exact ⟨rule, given, own, hrule, hprops, hgiven, hown, rfl, rfl, rfl⟩

/-- Each configuration within that of a covered field is the configuration of a field within. -/
theorem Field.resolve_within {d c : Config} (hd : d.Within c) :
    ∀ {f : Field}, (∀ g : Field, g.Within f → Covers rules g) → f.resolve rules = .ok c →
      ∃ g : Field, g.Within f ∧ g.resolve rules = .ok d := by
  induction hd with
  | self => exact fun _ hc => ⟨_, .self _, hc⟩
  | deeper hb _ ih =>
    intro f h hc
    obtain ⟨_, _, own, hf⟩ := Field.resolvesTo h hc
    rw [hf.parts] at hb
    obtain ⟨child, hchild, hresolve⟩ := mem_of_resolveParts hf.brings _ hb
    obtain ⟨g, hg, hgd⟩ := ih (fun g hg => h g (.deeper hchild hg)) hresolve
    exact ⟨g, .deeper hchild hg, hgd⟩

/-! ## What the default rules give -/

/-- A property that the default rules may give the field. -/
inductive Field.Given (f : Field) : String × Datum → Prop
  | type {s : String} (h : s ∈ ["number", "text", "email", "url"]) : f.Given ("type", .text s)
  | options {e : String × Datum} (h : e ∈ optionsProp f) : f.Given e
  | min : f.Given ("min", .ofOption .number f.constraints.min)
  | max : f.Given ("max", .ofOption .number f.constraints.max)
  | step : f.Given ("step", .ofOption .number f.constraints.step)
  | unitStep : f.Given ("step", .number (f.constraints.step.getD (.int 1)))
  | minLength : f.Given ("min_length", .ofOption .int f.constraints.minLength)
  | maxLength : f.Given ("max_length", .ofOption .int f.constraints.maxLength)
  | pattern : f.Given ("pattern", .ofOption .text f.constraints.pattern)

theorem given_of_defaultRules {f : Field} : ∀ rule ∈ defaultRules, ∀ given,
    rule.props f = .ok given → ∀ e ∈ given, f.Given e := by
  have hkind (name : String) (type : FieldType) (component : Component) (given : Entries)
      (h : (kindRule name type component).props f = .ok given) : ∀ e ∈ given, f.Given e := by
    cases h
    simp
  have hformat (name : String) (format : StringFormat) (hname : format.name ∈ ["email", "url"])
      (given : Entries) (h : (formatRule name format).props f = .ok given) :
      ∀ e ∈ given, f.Given e := by
    cases h
    exact List.forall_mem_singleton.2
      (.type (List.mem_cons_of_mem _ (List.mem_cons_of_mem _ hname)))
  simp only [defaultRules, List.forall_mem_cons, List.not_mem_nil, false_implies, implies_true,
    and_true]
  refine ⟨hkind _ _ _, hkind _ _ _, hkind _ _ _, hkind _ _ _, hkind _ _ _, hkind _ _ _, ?_, ?_,
    hkind _ _ _, ?_, ?_, hformat _ _ (by decide), hformat _ _ (by decide), ?_, ?_⟩
  · rintro given ⟨⟩
    exact fun e => .options
  · rintro given ⟨⟩
    exact fun e => .options
  · rintro given ⟨⟩
    simp only [List.forall_mem_cons, List.not_mem_nil, false_implies, implies_true, and_true]
    exact ⟨.min, .max, .unitStep⟩
  · rintro given ⟨⟩
    simp only [List.forall_mem_cons, List.not_mem_nil, false_implies, implies_true, and_true]
    exact ⟨.type (by decide), .min, .max, .step⟩
  · rintro given ⟨⟩
    exact List.forall_mem_singleton.2 .maxLength
  · rintro given ⟨⟩
    simp only [List.forall_mem_cons, List.not_mem_nil, false_implies, implies_true, and_true]
    exact ⟨.type (by decide), .minLength, .maxLength, .pattern⟩

theorem firstRule?_eq_some {f : Field} {rule : Rule} : ∀ {rules : List Rule},
    firstRule? rules f = .ok (some rule) → rule ∈ rules ∧ rule.accepts f = .ok true
  | [], h => by cases h
  | first :: rest, h => by
    unfold firstRule? at h
    split at h
    · cases h
    · rename_i haccepts
      cases h
      exact ⟨List.mem_cons_self, haccepts⟩
    · exact (firstRule?_eq_some h).imp_left (List.mem_cons_of_mem first)

/-- A property that is a text stands among the entries. -/
theorem mem_of_given {es : Entries} {name : String} {d : Datum} (hd : d ≠ .null)
    (h : (es.lookup name).getD .null = d) : (name, d) ∈ es := by
  cases hlookup : es.lookup name with
  | none =>
    rw [hlookup] at h
    exact absurd h.symm hd
  | some found =>
    rw [hlookup] at h
    obtain rfl : found = d := h
    exact mem_of_lookup hlookup

/-! ## Numbers -/

/-- The constraints of a field that are written in its markup and in its initial value. -/
def Field.bounds (f : Field) : List Number :=
  f.constraints.min.toList ++ f.constraints.max.toList ++ f.constraints.step.toList ++
    (f.constraints.minLength.toList ++ f.constraints.maxLength.toList).map .int

/-- The constraints of a field and of all fields below it can be written. -/
def Field.AllShort (f : Field) : Prop :=
  ∀ g : Field, g.Within f → ∀ n ∈ g.bounds, n.isShort = true

theorem Field.allShort_iff {f : Field} :
    f.AllShort ↔ (∀ n ∈ f.bounds, n.isShort = true) ∧ ∀ c ∈ f.children, c.AllShort := by
  constructor
  · exact fun h => ⟨h f (.self f), fun c hc g hg => h g (.deeper hc hg)⟩
  · rintro ⟨hself, hchildren⟩ g hg
    cases hg with
    | self => exact hself
    | deeper hc hg => exact hchildren _ hc g hg

/-- A field without constraints of its own leaves it to the fields in it. -/
theorem Field.allShort_of_unconstrained {f : Field} (hf : f.constraints = {}) :
    f.AllShort ↔ ∀ c ∈ f.children, c.AllShort := by
  have hnone : f.bounds = [] := by rw [Field.bounds, hf]; rfl
  rw [Field.allShort_iff, hnone]
  exact and_iff_right fun _ hn => absurd hn List.not_mem_nil

theorem Field.mem_bounds {f : Field} {n : Number} :
    n ∈ f.bounds ↔ n ∈ f.constraints.min ∨ n ∈ f.constraints.max ∨ n ∈ f.constraints.step ∨
      (∃ i ∈ f.constraints.minLength, n = .int i) ∨ ∃ i ∈ f.constraints.maxLength, n = .int i := by
  simp [Field.bounds, eq_comm]

theorem Datum.mem_numbers_number {o : Option Number} {n : Number} :
    n ∈ (Datum.ofOption .number o).numbers ↔ n ∈ o := by
  cases o <;> simp [Datum.ofOption, Datum.numbers, eq_comm]

theorem Datum.mem_numbers_int {o : Option Int} {n : Number} :
    n ∈ (Datum.ofOption .int o).numbers ↔ ∃ i ∈ o, n = .int i := by
  cases o <;> simp [Datum.ofOption, Datum.numbers]

theorem Datum.numbers_texts (ss : List String) : (Datum.list (ss.map .text)).numbers = [] := by
  rw [Datum.numbers]
  induction ss with
  | nil => rfl
  | cons s rest ih => rw [List.map_cons, Datum.itemNumbers, ih]; rfl

theorem numbers_optionsProp {f : Field} : ∀ e ∈ optionsProp f, e.2.numbers = [] := by
  unfold optionsProp
  split
  · exact List.forall_mem_singleton.2 (Datum.numbers_texts _)
  · simp

/-- A number that the default rules give is a constraint of the field, or the step of a field that
has none. -/
theorem mem_bounds_of_given {f : Field} {e : String × Datum} (h : f.Given e) {n : Number}
    (hn : n ∈ e.2.numbers) : n ∈ f.bounds ∨ n = .int 1 := by
  cases h with
  | type => cases hn
  | options he =>
    rw [numbers_optionsProp e he] at hn
    cases hn
  | min => exact .inl (Field.mem_bounds.2 (.inl (Datum.mem_numbers_number.1 hn)))
  | max => exact .inl (Field.mem_bounds.2 (.inr (.inl (Datum.mem_numbers_number.1 hn))))
  | step => exact .inl (Field.mem_bounds.2 (.inr (.inr (.inl (Datum.mem_numbers_number.1 hn)))))
  | unitStep =>
    obtain rfl := List.mem_singleton.1 hn
    cases hstep : f.constraints.step with
    | none => exact .inr rfl
    | some k => exact .inl (Field.mem_bounds.2 (.inr (.inr (.inl hstep))))
  | minLength =>
    exact .inl (Field.mem_bounds.2 (.inr (.inr (.inr (.inl (Datum.mem_numbers_int.1 hn))))))
  | maxLength =>
    exact .inl (Field.mem_bounds.2 (.inr (.inr (.inr (.inr (Datum.mem_numbers_int.1 hn))))))
  | pattern => cases hpattern : f.constraints.pattern <;> rw [hpattern] at hn <;> cases hn

/-- A number among the properties is one of an entry that gives them. -/
theorem ControlProps.IsIn.exists_of_mem {p : ControlProps} {es : Entries} (h : p.IsIn es)
    {n : Number} (hn : n ∈ Markup.inputNumbers p) : ∃ e ∈ es, n ∈ e.2.numbers := by
  have hnumber {name : String} {o : Option Number}
      (hgiven : (es.lookup name).getD .null = .ofOption .number o) (hn : n ∈ o) :
      ∃ e ∈ es, n ∈ e.2.numbers := by
    rw [Option.mem_def.1 hn] at hgiven
    exact ⟨_, mem_of_given (by simp [Datum.ofOption]) hgiven, by simp [Datum.ofOption, Datum.numbers]⟩
  have hint {name : String} {o : Option Int}
      (hgiven : (es.lookup name).getD .null = .ofOption .int o) (hn : ∃ i ∈ o, n = .int i) :
      ∃ e ∈ es, n ∈ e.2.numbers := by
    obtain ⟨i, hi, rfl⟩ := hn
    rw [Option.mem_def.1 hi] at hgiven
    exact ⟨_, mem_of_given (by simp [Datum.ofOption]) hgiven, by simp [Datum.ofOption, Datum.numbers]⟩
  simp only [Markup.inputNumbers, List.map_append, List.mem_append, Option.mem_toList,
    List.mem_map] at hn
  rcases hn with ((hmin | hmax) | hstep) | ⟨i, hi, rfl⟩ | ⟨i, hi, rfl⟩
  · exact hnumber h.min hmin
  · exact hnumber h.max hmax
  · exact hnumber h.step hstep
  · exact hint h.minLength ⟨i, hi, rfl⟩
  · exact hint h.maxLength ⟨i, hi, rfl⟩

theorem allInitialNumbers_eq (fields : List Field) :
    allInitialNumbers fields = fields.flatMap Field.initialNumbers := by
  induction fields with
  | nil => rw [allInitialNumbers, List.flatMap_nil]
  | cons f rest ih => rw [allInitialNumbers, List.flatMap_cons, ih]

/-- The numbers of the initial value of a field are lower bounds of the field or of those below
it. -/
theorem Field.exists_of_mem_initialNumbers {f : Field} {n : Number} (hn : n ∈ f.initialNumbers) :
    ∃ g : Field, g.Within f ∧ g.content = .number ∧ n ∈ g.constraints.min := by
  suffices h : Ascends fun f => ∀ n ∈ f.initialNumbers,
      ∃ g : Field, g.Within f ∧ g.content = .number ∧ n ∈ g.constraints.min from
    Field.of_ascends h f n hn
  intro f ih n hn
  have hbelow {fields : List Field} (hfields : f.children = fields)
      (hn : n ∈ allInitialNumbers fields) :
      ∃ g : Field, g.Within f ∧ g.content = .number ∧ n ∈ g.constraints.min := by
    rw [allInitialNumbers_eq, ← hfields] at hn
    obtain ⟨c, hc, hn⟩ := List.mem_flatMap.1 hn
    obtain ⟨g, hg, hnumber⟩ := ih c hc n hn
    exact ⟨g, .deeper hc hg, hnumber⟩
  obtain ⟨_, _, _, _, _, constraints, content, _⟩ := f
  rw [Field.initialNumbers] at hn
  cases content with
  | number => exact ⟨_, .self _, rfl, Option.mem_toList.1 hn⟩
  | object fields => exact hbelow rfl hn
  | tuple elements => exact hbelow rfl hn
  | _ => exact absurd hn List.not_mem_nil

theorem Field.initialNumbers_isShort {f : Field} (h : f.AllShort) :
    ∀ n ∈ f.initialNumbers, n.isShort = true := by
  intro n hn
  obtain ⟨g, hg, -, hmin⟩ := Field.exists_of_mem_initialNumbers hn
  exact h g hg n (Field.mem_bounds.2 (.inl hmin))

theorem allInitialNumbers_isShort {fields : List Field} (h : ∀ f ∈ fields, f.AllShort) :
    ∀ n ∈ allInitialNumbers fields, n.isShort = true := by
  rw [allInitialNumbers_eq]
  intro n hn
  obtain ⟨f, hf, hn⟩ := List.mem_flatMap.1 hn
  exact Field.initialNumbers_isShort (h f hf) n hn

theorem elementField_of_resolveParts {content : Content} {own : OwnParts} {f : Field}
    (h : content.resolveParts rules = .ok own) (hf : (own.into Parts.none).elementField = some f) :
    f ∈ content.children := by
  cases content with
  | array | record =>
    obtain ⟨_, -, rfl⟩ := map_eq_ok.1 h
    cases hf
    exact List.mem_singleton_self _
  | object | tuple | union =>
    obtain ⟨_, -, rfl⟩ := map_eq_ok.1 h
    cases hf
  | _ =>
    cases h
    cases hf

/-- With the default rules, all numbers in the configuration of a field can be written if its
constraints and those of the fields below it can. -/
theorem allShort_of_resolve {f : Field} {c : Config}
    (h : ∀ g : Field, g.Within f → Covers defaultRules g) (hc : f.resolve defaultRules = .ok c)
    (hshort : f.AllShort) : c.AllShort := by
  intro d hd n hn
  rw [← Number.isShort_iff]
  obtain ⟨g, hg, hresolve⟩ := Field.resolve_within hd h hc
  obtain ⟨rule, given, own, hresolves⟩ := Field.resolvesTo (fun e he => h e (he.trans hg)) hresolve
  rcases List.mem_append.1 hn with hn | hn
  · obtain ⟨e, he, hne⟩ := hresolves.props.exists_of_mem hn
    obtain ⟨hrule, -⟩ := firstRule?_eq_some hresolves.accepted
    rcases mem_bounds_of_given (given_of_defaultRules rule hrule given hresolves.gives e he) hne with
      hbound | rfl
    · exact hshort g hg n hbound
    · decide
  · obtain ⟨element, helement, hn⟩ := List.mem_flatMap.1 hn
    rw [hresolves.parts, Option.mem_toList] at helement
    have hchild := elementField_of_resolveParts hresolves.brings helement
    exact Field.initialNumbers_isShort
      (fun e he => hshort e (.trans (.deeper hchild he) hg)) n hn

end FormSchema
