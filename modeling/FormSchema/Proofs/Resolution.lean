import FormSchema.Proofs.Coverage
import FormSchema.Proofs.Entries
import FormSchema.Failure

/-!
# How fields are resolved

To resolve a field is to look for a rule for it and for all fields below it. If the rules answer for
all of them, only one thing can go wrong: a field that no rule accepts. The fields are visited in
`Field.preorder`, each before the fields below it, and the first one without a rule is the one that
is named (`Field.failure_resolve`).

Otherwise the configuration has the shape of the field (`Field.IsMirroredBy`): each field of the
tree has the component and the properties of the first rule that accepts it, and the fields below it
are there in their order, each with the configuration that it gets on its own.
-/

namespace FormSchema

/-! ## Fields in order -/

mutual

/-- A field and all fields below it, each before the fields below it. -/
def Field.preorder : Field → List Field
  | ⟨name, label, description, isOptional, isNullable, constraints, content, reference⟩ =>
    ⟨name, label, description, isOptional, isNullable, constraints, content, reference⟩ ::
      content.preorder

/-- The fields of a content with all fields below them. -/
def Content.preorder : Content → List Field
  | .object fields => preorderAll fields
  | .tuple elements => preorderAll elements
  | .array element => element.preorder
  | .record value => value.preorder
  | .union _ variants => preorderVariants variants
  | _ => []

def preorderAll : List Field → List Field
  | [] => []
  | f :: rest => f.preorder ++ preorderAll rest

def preorderVariants : List Variant → List Field
  | [] => []
  | ⟨_, fields⟩ :: rest => preorderAll fields ++ preorderVariants rest

end

theorem preorderAll_eq (fields : List Field) :
    preorderAll fields = fields.flatMap Field.preorder := by
  induction fields with
  | nil => rw [preorderAll, List.flatMap_nil]
  | cons f rest ih => rw [preorderAll, List.flatMap_cons, ih]

theorem preorderVariants_eq (variants : List Variant) :
    preorderVariants variants = (variants.flatMap Variant.fields).flatMap Field.preorder := by
  induction variants with
  | nil => rw [preorderVariants]; rfl
  | cons v rest ih =>
    obtain ⟨_, fields⟩ := v
    rw [preorderVariants, List.flatMap_cons, List.flatMap_append, preorderAll_eq, ih]

/-- The fields of a content in pre-order are those of its children, one child after the other. -/
theorem Content.preorder_eq (content : Content) :
    content.preorder = content.children.flatMap Field.preorder := by
  cases content with
  | object fields => rw [Content.preorder, preorderAll_eq]; rfl
  | tuple elements => rw [Content.preorder, preorderAll_eq]; rfl
  | union _ variants => rw [Content.preorder, preorderVariants_eq]; rfl
  | _ => simp [Content.preorder, Content.children]

/-- A field comes before those below it. -/
theorem Field.preorder_eq (f : Field) : f.preorder = f :: f.children.flatMap Field.preorder := by
  obtain ⟨_, _, _, _, _, _, content, _⟩ := f
  rw [Field.preorder, content.preorder_eq]
  rfl

/-- The fields in pre-order are those within the field. -/
theorem Field.mem_preorder {g f : Field} : g ∈ f.preorder ↔ g.Within f := by
  suffices h : Ascends fun f => g ∈ f.preorder ↔ g.Within f from Field.of_ascends h f
  intro f ih
  show g ∈ f.preorder ↔ g.Within f
  rw [Field.preorder_eq, List.mem_cons, List.mem_flatMap]
  constructor
  · rintro (rfl | ⟨c, hc, hg⟩)
    · exact .self _
    · exact .deeper hc ((ih c hc).1 hg)
  · intro h
    cases h with
    | self => exact .inl rfl
    | deeper hc hg => exact .inr ⟨_, hc, (ih _ hc).2 hg⟩

/-! ## Rules that answer -/

/-- The rules answer for a field: each accepts the field or does not, and one that does gives
properties that can be read. -/
def AnswerFor (rules : List Rule) (f : Field) : Prop :=
  ∀ rule ∈ rules, (∃ accepted, rule.accepts f = .ok accepted) ∧
    (rule.accepts f = .ok true → ∃ given p, rule.props f = .ok given ∧
      ControlProps.IsReadFrom p given)

/-- The rule is the first one that accepts the field. -/
def Rule.IsFirstFor (rule : Rule) (rules : List Rule) (f : Field) : Prop :=
  ∃ before after, rules = before ++ rule :: after ∧
    (∀ other ∈ before, other.accepts f = .ok false) ∧ rule.accepts f = .ok true

/-- Whether the rule does not accept the field. -/
def Rule.rejects (rule : Rule) (f : Field) : Bool :=
  match rule.accepts f with
  | .ok false => true
  | _ => false

/-- Whether no rule accepts the field. -/
def Field.isUnmatched (rules : List Rule) (f : Field) : Bool :=
  rules.all fun rule => rule.rejects f

theorem Rule.rejects_iff {rule : Rule} {f : Field} :
    rule.rejects f = true ↔ rule.accepts f = .ok false := by
  rw [Rule.rejects]
  split <;> simp_all

/-- A field is unmatched just if every rule rejects it. -/
theorem Field.isUnmatched_iff {rules : List Rule} {f : Field} :
    f.isUnmatched rules = true ↔ ∀ rule ∈ rules, rule.accepts f = .ok false := by
  simp only [Field.isUnmatched, List.all_eq_true, Rule.rejects_iff]

/-- Rules that reject a field are passed over. -/
theorem firstRule?_append {a b : List Rule} {f : Field}
    (h : ∀ rule ∈ a, rule.accepts f = .ok false) : firstRule? (a ++ b) f = firstRule? b f := by
  induction a with
  | nil => rfl
  | cons rule rest ih =>
    obtain ⟨hrule, hrest⟩ := List.forall_mem_cons.1 h
    rw [List.cons_append, firstRule?_reject hrule, ih hrest]

/-- An unmatched field has no rule. -/
theorem firstRule?_of_isUnmatched {rules : List Rule} {f : Field} (h : f.isUnmatched rules = true) :
    firstRule? rules f = .ok none := by
  have hfirst := firstRule?_append (b := []) (Field.isUnmatched_iff.1 h)
  rwa [List.append_nil] at hfirst

/-- The first rule that accepts a field is chosen for it. -/
theorem firstRule?_of_isFirstFor {rules : List Rule} {rule : Rule} {f : Field}
    (h : rule.IsFirstFor rules f) : firstRule? rules f = .ok (some rule) := by
  obtain ⟨before, after, rfl, hbefore, hrule⟩ := h
  rw [firstRule?_append hbefore, firstRule?_accept hrule]

/-- Among rules that answer for a field one is the first to accept it, unless none does. -/
theorem exists_isFirstFor {rules : List Rule} {f : Field} (h : AnswerFor rules f) :
    f.isUnmatched rules = true ∨ ∃ rule : Rule, rule.IsFirstFor rules f := by
  induction rules with
  | nil => exact .inl rfl
  | cons rule rest ih =>
    obtain ⟨hrule, hrest⟩ := List.forall_mem_cons.1 h
    obtain ⟨accepted, haccepted⟩ := hrule.1
    cases accepted with
    | true => exact .inr ⟨rule, [], rest, rfl, List.forall_mem_nil _, haccepted⟩
    | false =>
      rcases ih hrest with hnone | ⟨first, before, after, rfl, hbefore, hfirst⟩
      · rw [Field.isUnmatched_iff] at hnone ⊢
        exact .inl (List.forall_mem_cons.2 ⟨haccepted, hnone⟩)
      · exact .inr ⟨first, rule :: before, after, rfl,
          List.forall_mem_cons.2 ⟨haccepted, hbefore⟩, hfirst⟩

/-- A field with a first rule is not unmatched. -/
theorem Rule.IsFirstFor.isUnmatched {rule : Rule} {rules : List Rule} {f : Field}
    (h : rule.IsFirstFor rules f) : f.isUnmatched rules = false := by
  obtain ⟨before, after, rfl, -, hrule⟩ := h
  have hmem : rule ∈ before ++ rule :: after := List.mem_append_right before List.mem_cons_self
  rw [Bool.eq_false_iff]
  intro hnone
  rw [Field.isUnmatched_iff.1 hnone rule hmem] at hrule
  cases hrule

/-! ## Failures -/

/-- The reason for which an operation fails, if it fails. -/
def failure? {α : Type} : Result α → Option Failure
  | .error e => some e
  | .ok _ => none

section

variable {α β : Type}

/-- A failure shows just if the result is one. -/
theorem failure?_eq_some {x : Result α} {e : Failure} : failure? x = some e ↔ x = .error e := by
  cases x <;> simp [failure?]

theorem failure?_map (x : Result α) (g : α → β) : failure? (x.map g) = failure? x := by
  cases x <;> rfl

end

/-- The failure of the first of the fields that no rule accepts. -/
def firstUnmapped? (rules : List Rule) (fields : List Field) : Option Failure :=
  (fields.find? (Field.isUnmatched rules)).map fun f => .unmapped f.name f.type.name

/-- The first unmatched field of two lists is looked for in the first list and then in the second.
-/
theorem firstUnmapped?_append (rules : List Rule) (a b : List Field) :
    firstUnmapped? rules (a ++ b) = (firstUnmapped? rules a).or (firstUnmapped? rules b) := by
  rw [firstUnmapped?, List.find?_append, Option.map_or]
  rfl

/-- An unmatched field at the front is the first one. -/
theorem firstUnmapped?_cons (rules : List Rule) (f : Field) (rest : List Field) :
    firstUnmapped? rules (f :: rest) =
      if f.isUnmatched rules then some (.unmapped f.name f.type.name)
      else firstUnmapped? rules rest := by
  rw [firstUnmapped?, List.find?_cons]
  cases f.isUnmatched rules <;> rfl

variable {rules : List Rule}

/-- If for each of the fields the first one without a rule is to blame, it is so for all of them in
their order. -/
theorem failure_resolveAll : ∀ {fields : List Field},
    (∀ f ∈ fields, failure? (f.resolve rules) = firstUnmapped? rules f.preorder) →
      failure? (resolveAll rules fields) =
        firstUnmapped? rules (fields.flatMap Field.preorder)
  | [], _ => rfl
  | f :: rest, h => by
    obtain ⟨hfirst, hothers⟩ := List.forall_mem_cons.1 h
    rw [List.flatMap_cons, firstUnmapped?_append, ← hfirst, ← failure_resolveAll hothers,
      resolveAll]
    cases f.resolve rules with
    | error e => rfl
    | ok c => exact failure?_map _ _

/-- Variants fail with the first unmatched field below them. -/
theorem failure_resolveVariants : ∀ {variants : List Variant},
    (∀ f ∈ variants.flatMap Variant.fields,
      failure? (f.resolve rules) = firstUnmapped? rules f.preorder) →
      failure? (resolveVariants rules variants) =
        firstUnmapped? rules ((variants.flatMap Variant.fields).flatMap Field.preorder)
  | [], _ => rfl
  | ⟨tag, fields⟩ :: rest, h => by
    rw [List.flatMap_cons, List.forall_mem_append] at h
    rw [List.flatMap_cons, List.flatMap_append, firstUnmapped?_append,
      ← failure_resolveAll h.1, ← failure_resolveVariants h.2, resolveVariants]
    cases resolveAll rules fields with
    | error e => rfl
    | ok configs => exact failure?_map _ _

/-- The parts of a content fail with the first unmatched field below it. -/
theorem failure_resolveParts {content : Content}
    (h : ∀ f ∈ content.children,
      failure? (f.resolve rules) = firstUnmapped? rules f.preorder) :
    failure? (content.resolveParts rules) =
      firstUnmapped? rules (content.children.flatMap Field.preorder) := by
  cases content with
  | object fields => exact (failure?_map _ _).trans (failure_resolveAll h)
  | tuple elements => exact (failure?_map _ _).trans (failure_resolveAll h)
  | union _ variants => exact (failure?_map _ _).trans (failure_resolveVariants h)
  | array element =>
    rw [Content.resolveParts, failure?_map, h element (List.mem_singleton_self element)]
    simp [Content.children]
  | record value =>
    rw [Content.resolveParts, failure?_map, h value (List.mem_singleton_self value)]
    simp [Content.children]
  | _ => rfl

/-- A field is resolved by its first rule: props first, then parts, then the configuration of
both. -/
theorem Field.resolve_eq (f : Field) :
    f.resolve rules =
      match firstRule? rules f with
      | .error e => .error e
      | .ok none => .error (.unmapped f.name f.type.name)
      | .ok (some rule) =>
        match rule.props f with
        | .error e => .error e
        | .ok given =>
          match f.content.resolveParts rules with
          | .error e => .error e
          | .ok own => configOf rule f given own := by
  obtain ⟨_, _, _, _, _, _, _, _⟩ := f
  rw [Field.resolve]
  rfl

/-! ## Properties without parts -/

/-- The parts of a field are put under the names for parts. -/
theorem names_of_resolveParts {content : Content} {own : OwnParts}
    (h : content.resolveParts rules = .ok own) : own.names ⊆ partNames := by
  cases content with
  | object | tuple =>
    obtain ⟨_, -, rfl⟩ := map_eq_ok.1 h
    exact show ["child_configs", "child_fields"] ⊆ partNames by decide
  | array | record =>
    obtain ⟨_, -, rfl⟩ := map_eq_ok.1 h
    exact show ["element_config", "element_field"] ⊆ partNames by decide
  | union =>
    obtain ⟨_, -, rfl⟩ := map_eq_ok.1 h
    exact show ["discriminator", "variant_configs"] ⊆ partNames by decide
  | _ =>
    cases h
    exact List.nil_subset _

/-- The configuration of a field by the rule that accepts it first. -/
theorem Field.resolve_of_isFirstFor {f : Field} {rule : Rule} {given : Entries} {p : ControlProps}
    (hrule : rule.IsFirstFor rules f) (hgiven : rule.props f = .ok given)
    (hread : p.IsReadFrom given) :
    f.resolve rules = (f.content.resolveParts rules).map fun own =>
      ⟨rule.component, p, own.into Parts.none, extraProps given, f.frame⟩ := by
  rw [Field.resolve_eq, firstRule?_of_isFirstFor hrule]
  dsimp only
  rw [hgiven]
  cases hown : f.content.resolveParts rules with
  | error e => rfl
  | ok own =>
    exact configOf_of_isReadFrom hread fun e he hname =>
      hread.apart e he (names_of_resolveParts hown hname)

/-- A first rule answers with props that can be read. -/
theorem AnswerFor.gives {f : Field} (h : AnswerFor rules f) {rule : Rule}
    (hrule : rule.IsFirstFor rules f) : ∃ given p, rule.props f = .ok given ∧
      ControlProps.IsReadFrom p given := by
  obtain ⟨before, after, rfl, -, haccepts⟩ := hrule
  exact (h rule (List.mem_append_right before List.mem_cons_self)).2 haccepts

/-- If the rules answer for a field and all fields below it, the field is resolved unless one of
them has no rule, and then the first one without a rule is named. -/
theorem Field.failure_resolve {f : Field} (h : ∀ g : Field, g.Within f → AnswerFor rules g) :
    failure? (f.resolve rules) = firstUnmapped? rules f.preorder := by
  refine Field.of_within f h fun f hself ih => ?_
  have hparts := failure_resolveParts ih
  rw [Field.preorder_eq, firstUnmapped?_cons]
  rcases exists_isFirstFor hself with hnone | ⟨rule, hrule⟩
  · rw [if_pos hnone, Field.resolve_eq, firstRule?_of_isUnmatched hnone]
    rfl
  · obtain ⟨given, p, hgiven, hread⟩ := hself.gives hrule
    rw [Field.resolve_of_isFirstFor hrule hgiven hread, failure?_map, hparts, hrule.isUnmatched]
    rfl

/-! ## The shape of a configuration -/

/-- The fields of an object or a tuple, and those of each variant, have different names. -/
def Content.HasDistinctNames : Content → Prop
  | .object fields => (fields.map Field.name).Nodup
  | .tuple elements => (elements.map Field.name).Nodup
  | .union _ variants => ∀ v ∈ variants, (v.fields.map Field.name).Nodup
  | _ => True

mutual

/-- The configuration has the shape of the field: at every depth a field has the component and the
properties of the rule that accepts it first. -/
def Field.IsMirroredBy (rules : List Rule) : Field → Config → Prop
  | ⟨name, label, description, isOptional, isNullable, constraints, content, reference⟩, c =>
    let f : Field :=
      ⟨name, label, description, isOptional, isNullable, constraints, content, reference⟩
    (∃ (rule : Rule) (given : Entries), rule.IsFirstFor rules f ∧ c.component = rule.component ∧
      rule.props f = .ok given ∧ c.props.IsReadFrom given ∧ c.extras = extraProps given) ∧
      c.frame = ⟨label, description, !isOptional⟩ ∧ content.AreMirroredBy rules c.parts

/-- The parts of a configuration are those of the content, and nothing else. -/
def Content.AreMirroredBy (rules : List Rule) : Content → Parts → Prop
  | .object fields, p => ∃ configs,
    p = { Parts.none with childConfigs := some configs, childFields := some fields } ∧
      MirrorFields rules fields configs
  | .tuple elements, p => ∃ configs,
    p = { Parts.none with childConfigs := some configs, childFields := some elements } ∧
      MirrorFields rules elements configs
  | .array element, p => ∃ c,
    p = { Parts.none with elementConfig := some c, elementField := some element } ∧
      element.resolve rules = .ok c ∧ element.IsMirroredBy rules c
  | .record value, p => ∃ c,
    p = { Parts.none with elementConfig := some c, elementField := some value } ∧
      value.resolve rules = .ok c ∧ value.IsMirroredBy rules c
  | .union discriminator variants, p => ∃ configs,
    p = { Parts.none with discriminator := discriminator, variants := some configs } ∧
      MirrorVariants rules variants configs
  | _, p => p = Parts.none

/-- One configuration for each field, in order, under its name: the one that the field gets on its
own. -/
def MirrorFields (rules : List Rule) : List Field → List (String × Config) → Prop
  | [], configs => configs = []
  | f :: rest, configs => ∃ c others, configs = (f.name, c) :: others ∧
    f.resolve rules = .ok c ∧ f.IsMirroredBy rules c ∧ MirrorFields rules rest others

/-- The variants in order, each with the configurations of its fields. -/
def MirrorVariants (rules : List Rule) : List Variant → List VariantConfig → Prop
  | [], configs => configs = []
  | ⟨tag, fields⟩ :: rest, configs => ∃ c others, configs = ⟨tag, fields, c⟩ :: others ∧
    MirrorFields rules fields c ∧ MirrorVariants rules rest others

end

/-- The configurations of fields stand under their names. -/
theorem keys_resolveAll : ∀ {fields : List Field} {configs : List (String × Config)},
    resolveAll rules fields = .ok configs → configs.map Prod.fst = fields.map Field.name
  | [], _, h => by cases h; rfl
  | f :: rest, configs, h => by
    rw [resolveAll] at h
    split at h
    · cases h
    · obtain ⟨others, hothers, rfl⟩ := map_eq_ok.1 h
      rw [List.map_cons, List.map_cons, keys_resolveAll hothers]

/-- If the names of the fields are different, their configurations stay as they are. -/
theorem configsByName_resolveAll {fields : List Field} {configs : List (String × Config)}
    (hnames : (fields.map Field.name).Nodup) (h : resolveAll rules fields = .ok configs) :
    configsByName configs = configs :=
  putEntries_nil (keys_resolveAll h ▸ hnames)

/-- Resolved fields are mirrored by their configurations, one by one. -/
theorem mirrorFields_of_resolveAll : ∀ {fields : List Field} {configs : List (String × Config)},
    (∀ f ∈ fields, ∀ c, f.resolve rules = .ok c → f.IsMirroredBy rules c) →
      resolveAll rules fields = .ok configs → MirrorFields rules fields configs
  | [], _, _, h => by cases h; exact (MirrorFields.eq_1 ..).mpr rfl
  | f :: rest, configs, hall, h => by
    obtain ⟨hfirst, hothers⟩ := List.forall_mem_cons.1 hall
    rw [resolveAll] at h
    split at h
    · cases h
    · rename_i c hc
      obtain ⟨others, hrest, rfl⟩ := map_eq_ok.1 h
      rw [MirrorFields]
      exact ⟨c, others, rfl, hc, hfirst c hc, mirrorFields_of_resolveAll hothers hrest⟩

/-- Resolved variants are mirrored by their configurations, one by one. -/
theorem mirrorVariants_of_resolveVariants : ∀ {variants : List Variant}
    {configs : List VariantConfig}, (∀ v ∈ variants, (v.fields.map Field.name).Nodup) →
      (∀ f ∈ variants.flatMap Variant.fields,
        ∀ c, f.resolve rules = .ok c → f.IsMirroredBy rules c) →
      resolveVariants rules variants = .ok configs → MirrorVariants rules variants configs
  | [], _, _, _, h => by cases h; exact (MirrorVariants.eq_1 ..).mpr rfl
  | ⟨tag, fields⟩ :: rest, configs, hnames, hall, h => by
    obtain ⟨hdistinct, hlater⟩ := List.forall_mem_cons.1 hnames
    rw [List.flatMap_cons, List.forall_mem_append] at hall
    rw [resolveVariants] at h
    split at h
    · cases h
    · rename_i found hfound
      obtain ⟨others, hrest, rfl⟩ := map_eq_ok.1 h
      rw [MirrorVariants, configsByName_resolveAll hdistinct hfound]
      exact ⟨found, others, rfl, mirrorFields_of_resolveAll hall.1 hfound,
        mirrorVariants_of_resolveVariants hlater hall.2 hrest⟩

/-- A content is mirrored by the parts it is resolved to. -/
theorem areMirroredBy_of_resolveParts {content : Content} {own : OwnParts}
    (hnames : content.HasDistinctNames)
    (hall : ∀ f ∈ content.children, ∀ c, f.resolve rules = .ok c → f.IsMirroredBy rules c)
    (h : content.resolveParts rules = .ok own) :
    content.AreMirroredBy rules (own.into Parts.none) := by
  cases content with
  | object fields =>
    obtain ⟨configs, hconfigs, rfl⟩ := map_eq_ok.1 h
    rw [Content.AreMirroredBy, OwnParts.children, configsByName_resolveAll hnames hconfigs]
    exact ⟨configs, rfl, mirrorFields_of_resolveAll hall hconfigs⟩
  | tuple elements =>
    obtain ⟨configs, hconfigs, rfl⟩ := map_eq_ok.1 h
    rw [Content.AreMirroredBy, OwnParts.children, configsByName_resolveAll hnames hconfigs]
    exact ⟨configs, rfl, mirrorFields_of_resolveAll hall hconfigs⟩
  | array element =>
    obtain ⟨c, hc, rfl⟩ := map_eq_ok.1 h
    rw [Content.AreMirroredBy]
    exact ⟨c, rfl, hc, hall element (List.mem_singleton_self element) c hc⟩
  | record value =>
    obtain ⟨c, hc, rfl⟩ := map_eq_ok.1 h
    rw [Content.AreMirroredBy]
    exact ⟨c, rfl, hc, hall value (List.mem_singleton_self value) c hc⟩
  | union discriminator variants =>
    obtain ⟨configs, hconfigs, rfl⟩ := map_eq_ok.1 h
    rw [Content.AreMirroredBy]
    exact ⟨configs, rfl, mirrorVariants_of_resolveVariants hnames hall hconfigs⟩
  | _ =>
    cases h
    rw [Content.AreMirroredBy]
    · rfl
    all_goals simp

/-- The configuration of a field mirrors it. -/
theorem Field.isMirroredBy_of_resolve {f : Field} (h : ∀ g : Field, g.Within f → AnswerFor rules g)
    (hnames : ∀ g : Field, g.Within f → g.content.HasDistinctNames) {c : Config}
    (hc : f.resolve rules = .ok c) : f.IsMirroredBy rules c := by
  have hboth : ∀ g : Field, g.Within f → AnswerFor rules g ∧ g.content.HasDistinctNames :=
    fun g hg => ⟨h g hg, hnames g hg⟩
  suffices hall : ∀ c, f.resolve rules = .ok c → f.IsMirroredBy rules c from hall c hc
  refine Field.of_within f hboth fun f ⟨hself, hdistinct⟩ ih c hc => ?_
  rcases exists_isFirstFor hself with hnone | ⟨rule, hrule⟩
  · rw [Field.resolve_eq, firstRule?_of_isUnmatched hnone] at hc
    cases hc
  · obtain ⟨given, p, hgiven, hread⟩ := hself.gives hrule
    rw [Field.resolve_of_isFirstFor hrule hgiven hread] at hc
    obtain ⟨own, hown, rfl⟩ := map_eq_ok.1 hc
    have hparts := areMirroredBy_of_resolveParts hdistinct ih hown
    obtain ⟨name, label, description, isOptional, isNullable, constraints, content, reference⟩ := f
    rw [Field.IsMirroredBy]
    exact ⟨⟨rule, given, hrule, rfl, hgiven, hread, rfl⟩, rfl, hparts⟩

/-! ## All outcomes -/

/-- The failure names the first field that is unmatched, and its type. -/
theorem firstUnmapped?_eq_some {fields : List Field} {e : Failure} :
    firstUnmapped? rules fields = some e ↔
      ∃ g, fields.find? (Field.isUnmatched rules) = some g ∧ e = .unmapped g.name g.type.name := by
  rw [firstUnmapped?, Option.map_eq_some_iff]
  simp only [eq_comm]

/-- Let the rules answer for a field and all fields below it, and let the names of fields beside
each other be different. The field is not resolved if and only if no rule accepts one of these
fields, and the first one in pre-order is then named with its kind. If there is a rule for each of
them, the configuration has the shape of the field, the component and the properties of the first
rule for each, and for each child what it gets on its own. -/
theorem Field.resolve_of_answerFor {f : Field} (h : ∀ g : Field, g.Within f → AnswerFor rules g)
    (hnames : ∀ g : Field, g.Within f → g.content.HasDistinctNames) :
    ((∃ e, f.resolve rules = .error e) ↔
        ∃ g : Field, g.Within f ∧ ∀ rule ∈ rules, rule.accepts g = .ok false) ∧
      (∀ e, f.resolve rules = .error e ↔
        ∃ g, f.preorder.find? (Field.isUnmatched rules) = some g ∧
          e = .unmapped g.name g.type.name) ∧
      ((∀ g : Field, g.Within f → ∃ rule ∈ rules, rule.accepts g = .ok true) →
        ∃ c, f.resolve rules = .ok c ∧ f.IsMirroredBy rules c) := by
  have hfailure (e : Failure) : f.resolve rules = .error e ↔
      ∃ g, f.preorder.find? (Field.isUnmatched rules) = some g ∧
        e = .unmapped g.name g.type.name := by
    rw [← failure?_eq_some, Field.failure_resolve h, firstUnmapped?_eq_some]
  have hfails : (∃ e, f.resolve rules = .error e) ↔
      ∃ g : Field, g.Within f ∧ ∀ rule ∈ rules, rule.accepts g = .ok false := by
    constructor
    · rintro ⟨e, he⟩
      obtain ⟨g, hg, -⟩ := (hfailure e).1 he
      exact ⟨g, Field.mem_preorder.1 (List.mem_of_find?_eq_some hg),
        Field.isUnmatched_iff.1 (List.find?_some hg)⟩
    · rintro ⟨g, hg, hnone⟩
      obtain ⟨first, hfirst⟩ := Option.isSome_iff_exists.1
        (List.find?_isSome.2 ⟨g, Field.mem_preorder.2 hg, Field.isUnmatched_iff.2 hnone⟩)
      exact ⟨_, (hfailure _).2 ⟨first, hfirst, rfl⟩⟩
  refine ⟨hfails, hfailure, fun hall => ?_⟩
  cases hc : f.resolve rules with
  | ok c => exact ⟨c, rfl, Field.isMirroredBy_of_resolve h hnames hc⟩
  | error e =>
    obtain ⟨g, hg, hnone⟩ := hfails.1 ⟨e, hc⟩
    obtain ⟨rule, hrule, haccepts⟩ := hall g hg
    rw [hnone rule hrule] at haccepts
    cases haccepts

/-- A rule for one kind of fields answers for every field. -/
theorem kindRules_answerFor {rules : List Rule}
    (h : ∀ rule ∈ rules, ∃ name kind component, rule = kindRule name kind component) (f : Field) :
    AnswerFor rules f := by
  intro rule hrule
  obtain ⟨name, kind, component, rfl⟩ := h rule hrule
  exact ⟨⟨_, rfl⟩, fun _ => ⟨[], {}, rfl, isIn_nil.isReadFrom⟩⟩

/-- A field with nothing but a name and a content. -/
def bareField (name : String) (content : Content) : Field :=
  ⟨name, name, none, false, false, {}, content, none⟩

/-- An object with a date in one of its variants and a number in an array. -/
def mixedField : Field :=
  bareField "root" (.object [
    bareField "choice" (.union none [⟨"a", [bareField "text" .string]⟩,
      ⟨"b", [bareField "text" .string, bareField "day" .date]⟩]),
    bareField "list" (.array (bareField "item" .number))])

theorem mixedField_hasDistinctNames {g : Field} (h : g.Within mixedField) :
    g.content.HasDistinctNames := by
  have hall : ∀ g ∈ mixedField.preorder, g.content.HasDistinctNames := by
    simp [mixedField, bareField, Field.preorder_eq, Field.children, Content.children,
      Content.HasDistinctNames]
  exact hall g (Field.mem_preorder.2 h)

/-- Without rules for dates and numbers the date is named, since it comes first. With these rules
behind the others there is a configuration. -/
theorem mixedField_resolve :
    let rules := [kindRule "object" .object .fieldset, kindRule "union" .union .unionSwitch,
      kindRule "array" .array .fieldArray, kindRule "string" .string .input]
    let more := rules ++ [kindRule "date" .date .datePicker, kindRule "number" .number .slider]
    mixedField.resolve rules = .error (.unmapped "day" "date") ∧
      ∃ c, mixedField.resolve more = .ok c ∧ mixedField.IsMirroredBy more c := by
  intro rules more
  have hrules : ∀ g : Field, g.Within mixedField → AnswerFor rules g := fun g _ =>
    kindRules_answerFor (by simp [rules]) g
  have hmore : ∀ g : Field, g.Within mixedField → AnswerFor more g := fun g _ =>
    kindRules_answerFor (by simp [rules, more]) g
  have hnames (g : Field) : g.Within mixedField → g.content.HasDistinctNames :=
    mixedField_hasDistinctNames
  obtain ⟨-, hfailure, -⟩ := Field.resolve_of_answerFor hrules hnames
  obtain ⟨-, -, hresolve⟩ := Field.resolve_of_answerFor hmore hnames
  refine ⟨(hfailure _).2 ⟨bareField "day" .date, rfl, rfl⟩, hresolve fun g hg => ?_⟩
  rw [← Field.mem_preorder] at hg
  revert g
  simp [mixedField, bareField, Field.preorder_eq, Field.children, Content.children, rules, more,
    kindRule, Field.type, Content.type]

end FormSchema
