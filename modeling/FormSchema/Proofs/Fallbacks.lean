import FormSchema.Proofs.Resolution
import FormSchema.Proofs.RuleHistory

/-!
# Rules put in beside others

A field is resolved by asking for the first rule that accepts it, and then in the same way for the
fields below it. So rules that have the same first one for all these fields resolve it alike
(`Field.resolve_congr`). A rule behind all others changes nothing where one was found before, and a
rule that accepts none of the fields changes nothing wherever it stands.

Where a field is resolved, a rule was found for every field within it
(`Field.firstRule?_of_resolve`). That makes a new fallback conservative: what was resolved stays as
it is (`resolve_insert_of_new`).
-/

namespace FormSchema

variable {a b rules : List Rule}

/-! ## Rules with the same answers -/

theorem resolveAll_congr : ∀ {fields : List Field},
    (∀ f ∈ fields, f.resolve a = f.resolve b) → resolveAll a fields = resolveAll b fields
  | [], _ => rfl
  | f :: rest, h => by
    obtain ⟨hfirst, hothers⟩ := List.forall_mem_cons.1 h
    rw [resolveAll, resolveAll, hfirst, resolveAll_congr hothers]

theorem resolveVariants_congr : ∀ {variants : List Variant},
    (∀ f ∈ variants.flatMap Variant.fields, f.resolve a = f.resolve b) →
      resolveVariants a variants = resolveVariants b variants
  | [], _ => rfl
  | ⟨tag, fields⟩ :: rest, h => by
    rw [List.flatMap_cons, List.forall_mem_append] at h
    rw [resolveVariants, resolveVariants, resolveAll_congr h.1, resolveVariants_congr h.2]

theorem resolveParts_congr {content : Content}
    (h : ∀ f ∈ content.children, f.resolve a = f.resolve b) :
    content.resolveParts a = content.resolveParts b := by
  cases content with
  | object | tuple => exact congrArg (Except.map _) (resolveAll_congr h)
  | union => exact congrArg (Except.map _) (resolveVariants_congr h)
  | array | record => exact congrArg (Except.map _) (h _ (List.mem_singleton_self _))
  | _ => rfl

/-- Rules with the same first one for a field and for all fields below it resolve it alike. -/
theorem Field.resolve_congr {f : Field}
    (h : ∀ g : Field, g.Within f → firstRule? a g = firstRule? b g) :
    f.resolve a = f.resolve b := by
  refine Field.of_within f h fun f hself ih => ?_
  rw [Field.resolve_eq, Field.resolve_eq, hself, resolveParts_congr ih]

/-! ## Fields that are resolved -/

theorem resolves_of_resolveAll : ∀ {fields : List Field} {configs : List (String × Config)},
    resolveAll rules fields = .ok configs → ∀ f ∈ fields, ∃ c, f.resolve rules = .ok c
  | [], _, _ => List.forall_mem_nil _
  | f :: rest, _, h => by
    rw [resolveAll] at h
    split at h
    · cases h
    · rename_i c hc
      obtain ⟨others, hothers, -⟩ := map_eq_ok.1 h
      exact List.forall_mem_cons.2 ⟨⟨c, hc⟩, resolves_of_resolveAll hothers⟩

theorem resolves_of_resolveVariants : ∀ {variants : List Variant} {configs : List VariantConfig},
    resolveVariants rules variants = .ok configs →
      ∀ f ∈ variants.flatMap Variant.fields, ∃ c, f.resolve rules = .ok c
  | [], _, _ => List.forall_mem_nil _
  | ⟨tag, fields⟩ :: rest, _, h => by
    rw [resolveVariants] at h
    split at h
    · cases h
    · rename_i configs hconfigs
      obtain ⟨others, hothers, -⟩ := map_eq_ok.1 h
      rw [List.flatMap_cons, List.forall_mem_append]
      exact ⟨resolves_of_resolveAll hconfigs, resolves_of_resolveVariants hothers⟩

theorem resolves_of_resolveParts {content : Content} {own : OwnParts}
    (h : content.resolveParts rules = .ok own) :
    ∀ f ∈ content.children, ∃ c, f.resolve rules = .ok c := by
  cases content with
  | object | tuple =>
    obtain ⟨_, hconfigs, -⟩ := map_eq_ok.1 h
    exact resolves_of_resolveAll hconfigs
  | union =>
    obtain ⟨_, hconfigs, -⟩ := map_eq_ok.1 h
    exact resolves_of_resolveVariants hconfigs
  | array | record =>
    obtain ⟨c, hc, -⟩ := map_eq_ok.1 h
    exact List.forall_mem_singleton.2 ⟨c, hc⟩
  | _ => exact List.forall_mem_nil _

/-- Where a field is resolved, a rule is found for it, and its parts are resolved. -/
theorem Field.found_of_resolve {f : Field} {c : Config} (h : f.resolve rules = .ok c) :
    (∃ rule, firstRule? rules f = .ok (some rule)) ∧
      ∃ own, f.content.resolveParts rules = .ok own := by
  rw [Field.resolve_eq] at h
  split at h
  · cases h
  · cases h
  · rename_i rule hrule
    split at h
    · cases h
    · split at h
      · cases h
      · rename_i own hown
        exact ⟨⟨rule, hrule⟩, own, hown⟩

/-- Where a field is resolved, a rule is found for it and for all fields below it. -/
theorem Field.firstRule?_of_resolve {g f : Field} (hg : g.Within f) :
    ∀ {c : Config}, f.resolve rules = .ok c → ∃ rule, firstRule? rules g = .ok (some rule) := by
  induction hg with
  | self => exact fun hc => (Field.found_of_resolve hc).1
  | deeper hd _ ih =>
    intro c hc
    obtain ⟨own, hown⟩ := (Field.found_of_resolve hc).2
    obtain ⟨d, hd⟩ := resolves_of_resolveParts hown _ hd
    exact ih hd

/-! ## One more rule -/

theorem firstRule?_append_of_some {f : Field} {rule : Rule} (more : List Rule)
    (h : firstRule? rules f = .ok (some rule)) :
    firstRule? (rules ++ more) f = .ok (some rule) := by
  induction rules with
  | nil => cases h
  | cons first rest ih =>
    rw [List.cons_append]
    rw [firstRule?] at h ⊢
    split at h
    · cases h
    · exact h
    · exact ih h

/-- A rule that does not accept a field can be left out for it. -/
theorem firstRule?_middle {f : Field} {rule : Rule} (h : rule.accepts f = .ok false) :
    ∀ before after : List Rule,
      firstRule? (before ++ rule :: after) f = firstRule? (before ++ after) f
  | [], after => firstRule?_reject h
  | first :: rest, after => by
    rw [List.cons_append, List.cons_append, firstRule?, firstRule?, firstRule?_middle h rest after]

/-- What is resolved is resolved in the same way if there are more rules behind. -/
theorem Field.resolve_append {f : Field} {c : Config} (h : f.resolve rules = .ok c)
    (more : List Rule) : f.resolve (rules ++ more) = .ok c := by
  rw [← h]
  refine Field.resolve_congr fun g hg => ?_
  obtain ⟨rule, hrule⟩ := Field.firstRule?_of_resolve hg h
  rw [firstRule?_append_of_some more hrule, hrule]

/-- A rule that accepts none of the fields changes nothing. -/
theorem Field.resolve_middle {f : Field} {rule : Rule}
    (h : ∀ g : Field, g.Within f → rule.accepts g = .ok false) (before after : List Rule) :
    f.resolve (before ++ rule :: after) = f.resolve (before ++ after) :=
  Field.resolve_congr fun g hg => firstRule?_middle (h g hg) before after

namespace RuleTable

/-- Under a new name a rule is put in behind the custom rules, or behind all rules, and nothing else
changes. -/
theorem rules_insert_of_new {t : RuleTable} {rule : Rule} (h : t.names.Nodup)
    (hnew : rule.name ∉ t.names) :
    (t.insert rule true).rules = t.custom ++ rule :: (t.defaults ++ t.fallbacks) ∧
      (t.insert rule false).rules = t.rules ++ [rule] := by
  rw [names_eq, List.mem_append, List.mem_append, not_or, not_or] at hnew
  obtain ⟨⟨hcustom, hdefaults⟩, hfallbacks⟩ := hnew
  rw [insert_eq h, insert_eq h, without_eq_self hcustom, without_eq_self hdefaults,
    without_eq_self hfallbacks]
  simp [rules]

theorem names_nodup_ofRules (custom : List Rule) (includeDefaults : Bool) (steps : List TableStep) :
    ((ofRules custom includeDefaults).run steps).names.Nodup := by
  rw [ofRules_eq_run]
  exact names_nodup_run steps (names_nodup_run _ (names_nodup_start includeDefaults))

/-- Whatever has been done to a table, a rule under a new name behind all others leaves every field
as it is that was resolved. Ahead of the default rules it changes nothing for a field, be it
resolved or not, unless it accepts that field or one below it. -/
theorem resolve_insert_of_new (custom : List Rule) (includeDefaults : Bool)
    (steps : List TableStep) (rule : Rule) (f : Field)
    (hnew : rule.name ∉ ((ofRules custom includeDefaults).run steps).names) :
    let t := (ofRules custom includeDefaults).run steps
    (∀ c, t.resolve f = .ok c → (t.insert rule false).resolve f = .ok c) ∧
      ((∀ g : Field, g.Within f → rule.accepts g = .ok false) →
        (t.insert rule true).resolve f = t.resolve f) := by
  intro t
  have hnames : t.names.Nodup := names_nodup_ofRules custom includeDefaults steps
  obtain ⟨hahead, hbehind⟩ := rules_insert_of_new hnames hnew
  constructor
  · intro c hc
    rw [resolve, hbehind]
    exact Field.resolve_append hc [rule]
  · intro hnone
    rw [resolve, resolve, hahead, Field.resolve_middle hnone, rules, List.append_assoc]

/-- The default rules, after a custom rule has come and gone, resolve an object without dates. A
fallback for texts does not change that, nor does a rule for dates ahead of the default rules. -/
theorem resolve_insert_of_new_text :
    let t := (ofRules [] true).run
      [.register (kindRule "notes" .string .textarea) true, .unregister "notes"]
    let f := bareField "root" (.object [bareField "text" .string,
      bareField "list" (.array (bareField "item" .boolean))])
    (∃ c, t.resolve f = .ok c ∧
      (t.insert (kindRule "texts" .string .textarea) false).resolve f = .ok c) ∧
      (t.insert (kindRule "dates" .date .input) true).resolve f = t.resolve f := by
  intro t f
  have hwithin {P : Field → Prop} (h : ∀ g ∈ f.preorder, P g) (g : Field) (hg : g.Within f) : P g :=
    h g (Field.mem_preorder.2 hg)
  have hcovers : ∀ g : Field, g.Within f → Covers t.rules g := hwithin fun g hg => by
    refine covers_defaultRules ?_
    revert g
    simp [f, bareField, Field.preorder_eq, Field.children, Content.children, Field.HasIntegerBounds]
  have hdates : ∀ g : Field, g.Within f → (kindRule "dates" .date .input).accepts g = .ok false :=
    hwithin (by simp [f, bareField, Field.preorder_eq, Field.children, Content.children, kindRule,
      Field.type, Content.type])
  obtain ⟨c, hc, -⟩ := Field.resolve_succeeds f hcovers
  obtain ⟨hfallback, -⟩ := resolve_insert_of_new [] true
    [.register (kindRule "notes" .string .textarea) true, .unregister "notes"]
    (kindRule "texts" .string .textarea) f (by decide)
  obtain ⟨-, hahead⟩ := resolve_insert_of_new [] true
    [.register (kindRule "notes" .string .textarea) true, .unregister "notes"]
    (kindRule "dates" .date .input) f (by decide)
  exact ⟨⟨c, hc, hfallback c hc⟩, hahead hdates⟩

end RuleTable

end FormSchema
