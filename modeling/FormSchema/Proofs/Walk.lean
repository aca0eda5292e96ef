import FormSchema.Introspection.Form

/-!
# The walk from values to fields

One step of the walk is told by the node that a value is peeled to and its plan (`peel_of_unwrap`,
`fieldOf_of_plan`), and every field comes from such a step (`exists_plan_of_fieldOf`). `Plan.Makes`
says what the step makes of each plan (`Plan.makes_of_read`).

The fields of a shape are named by its keys, in order (`fieldsOf_names`). Each field hangs on its
own member alone, so a shape with fewer members gives the fields of those that are left
(`fieldsOf_filter`).
-/

namespace FormSchema

/-! ## One field -/

theorem peelFrom_of_unwrap {isOptional isNullable : Bool} {d : Value} {n : Node} {u : Unwrapped}
    (h : n.unwrap = .ok u) :
    peelFrom isOptional isNullable d (.node n) =
      match u.inner.kind with
      | .pipe input _ =>
        peelFrom (isOptional || u.isOptional) (isNullable || u.isNullable)
          (nearer (nearer d n.description) u.inner.description) input
      | .bare "pipe" => .error .missingPart
      | _ =>
        .ok ⟨u.inner, isOptional || u.isOptional, isNullable || u.isNullable,
          nearer (nearer d n.description) u.inner.description⟩ := by
  rw [peelFrom]
  split
  · simp_all
  · rename_i inner opt nul hu
    obtain rfl : ⟨inner, opt, nul⟩ = u := by simp_all
    obtain ⟨kind, checks, description⟩ := inner
    cases kind <;> try rfl
    split <;> simp_all

theorem Peeled.field_name {p : Peeled} {name : String} {constraints : Constraints}
    {content : Content} {f : Field} (h : p.field name constraints content = .ok f) :
    f.name = name := by
  unfold Peeled.field at h
  split at h
  · cases h
  · cases h
    rfl

/-- A result that is made from another one has the warnings of that one. -/
theorem Warned.of_return {α β : Type} {w : Warned α} {make : α → β} {b : β} {warnings : List String}
    (h : (w >>= fun a => pure (make a)).run = .ok (b, warnings)) :
    ∃ a, w.run = .ok (a, warnings) ∧ b = make a := by
  obtain ⟨a, first, _, ha, hpure, rfl⟩ := (run_bind _ _ _ _).1 h
  rw [run_pure] at hpure
  cases hpure
  exact ⟨a, by rw [List.append_nil, ha], rfl⟩

/-- What is read at a path by a plan. -/
def Plan.read (path : String) : Plan → Warned Content
  | .leaf content => pure content
  | .object shape => return .object (← fieldsOf path shape)
  | .array element => return .array (← fieldOf (below path elementName) elementName element)
  | .tuple items => return .tuple (← elementsOf path 0 items)
  | .record value =>
    return .record (← fieldOf (below path recordValueName) recordValueName value)
  | .union discriminator options =>
    return .union discriminator (← variantsOf path discriminator 0 options)
  | .hollow => .fail .missingPart
  | .refused _ => .fail .missingPart

theorem contentOf_of_plan {path : String} {n : Node} {plan : Plan} (h : n.plan = .ok plan) :
    contentOf path n = plan.read path := by
  rw [contentOf]
  cases plan <;> split <;> simp_all [Plan.read]

/-- What a content that is read at a path by a plan looks like. -/
inductive Plan.Makes (path : String) : Plan → Content → Prop
  | leaf (content : Content) : Makes path (.leaf content) content
  | object {shape : Shape} {fields : List Field} {warnings : List String}
      (h : (fieldsOf path shape).run = .ok (fields, warnings)) :
      Makes path (.object shape) (.object fields)
  | array {element : Value} {f : Field} {warnings : List String}
      (h : (fieldOf (below path elementName) elementName element).run = .ok (f, warnings)) :
      Makes path (.array element) (.array f)
  | tuple {items : List Value} {fields : List Field} {warnings : List String}
      (h : (elementsOf path 0 items).run = .ok (fields, warnings)) :
      Makes path (.tuple items) (.tuple fields)
  | record {value : Value} {f : Field} {warnings : List String}
      (h : (fieldOf (below path recordValueName) recordValueName value).run = .ok (f, warnings)) :
      Makes path (.record value) (.record f)
  | union {discriminator : Option String} {options : List Value} {variants : List Variant}
      {warnings : List String}
      (h : (variantsOf path discriminator 0 options).run = .ok (variants, warnings)) :
      Makes path (.union discriminator options) (.union discriminator variants)

theorem Plan.makes_of_read {path : String} {plan : Plan} {content : Content}
    {warnings : List String} (h : (plan.read path).run = .ok (content, warnings)) :
    plan.Makes path content := by
  cases plan with
  | leaf content' =>
    cases h
    exact .leaf content
  | hollow => cases h
  | refused reason => cases h
  | _ =>
    obtain ⟨_, hparts, rfl⟩ := Warned.of_return h
    constructor
    exact hparts

/-- The field of a peeled node, by its plan. -/
def Peeled.read (path name : String) (p : Peeled) : Plan → Warned Field
  | .refused reason => do
    .warn [reason.warning path]
    .ofResult (p.degraded name)
  | plan => do
    let constraints ← p.node.fieldConstraints path
    let content ← plan.read path
    .ofResult (p.field name constraints content)

/-- How a peeled node becomes a field: with the constraints and the content that are read, or as
plain text with a warning if its plan is refused. -/
inductive Peeled.Becomes (path name : String) (p : Peeled) (f : Field) : Plan → List String → Prop
  | refused {reason : Refusal} (hfield : p.degraded name = .ok f) :
      Becomes path name p f (.refused reason) [reason.warning path]
  | read {plan : Plan} {c : Constraints} {content : Content} {first second : List String}
      (hshown : ∀ reason, plan ≠ .refused reason)
      (hc : (p.node.fieldConstraints path).run = .ok (c, first))
      (hread : (plan.read path).run = .ok (content, second))
      (hfield : p.field name c content = .ok f) : Becomes path name p f plan (first ++ second)

theorem Peeled.becomes_of_read {path name : String} {p : Peeled} {plan : Plan} {f : Field}
    {warnings : List String} (h : (p.read path name plan).run = .ok (f, warnings)) :
    p.Becomes path name f plan warnings := by
  unfold Peeled.read at h
  split at h
  · simp only [Warned.run_bind, Warned.run_ofResult] at h
    obtain ⟨_, _, _, hwarn, ⟨hfield, rfl⟩, rfl⟩ := h
    cases hwarn
    exact .refused hfield
  · rename_i hshown
    simp only [Warned.run_bind, Warned.run_ofResult] at h
    obtain ⟨c, first, _, hc, ⟨content, second, _, hread, ⟨hfield, rfl⟩, rfl⟩, rfl⟩ := h
    rw [List.append_nil]
    exact .read (fun reason => hshown reason) hc hread hfield

theorem fieldOf_of_plan {path name : String} {v : Value} {p : Peeled} {plan : Plan}
    (hp : v.peel = .ok p) (hplan : p.node.plan = .ok plan) :
    fieldOf path name v = p.read path name plan := by
  rw [fieldOf]
  split
  · simp_all
  · rename_i q hq
    obtain rfl : q = p := by simp_all
    rw [hplan, contentOf_of_plan hplan]
    cases plan <;> rfl

theorem fieldOf_of_plan_error {path name : String} {v : Value} {p : Peeled} {e : Failure}
    (hp : v.peel = .ok p) (hplan : p.node.plan = .error e) : fieldOf path name v = .fail e := by
  rw [fieldOf]
  split
  · simp_all
  · rename_i q hq
    obtain rfl : q = p := by simp_all
    rw [hplan]

/-- What is read by the plan of the node that a value is peeled to becomes the field. -/
theorem fieldOf_of_read {path name : String} {v : Value} {p : Peeled} {plan : Plan}
    {description : Option String} {c : Constraints} {content : Content} {first second : List String}
    (hp : v.peel = .ok p) (hdescription : descriptionText p.description = .ok description)
    (hc : (p.node.fieldConstraints path).run = .ok (c, first)) (hplan : p.node.plan = .ok plan)
    (hread : (plan.read path).run = .ok (content, second)) :
    (fieldOf path name v).run = .ok (⟨name, Text.label name, description, p.isOptional,
      p.isNullable, c, content, none⟩, first ++ second) := by
  rw [fieldOf_of_plan hp hplan]
  unfold Peeled.read
  split
  · cases hread
  · simp only [Warned.run_bind, Warned.run_ofResult, Peeled.field, hdescription]
    exact ⟨c, first, second, hc, ⟨content, second, [], hread, ⟨rfl, rfl⟩, List.append_nil _⟩, rfl⟩

/-- A field comes from a node that a value is peeled to and that has a plan. -/
theorem exists_plan_of_fieldOf {path name : String} {v : Value} {f : Field}
    {warnings : List String} (h : (fieldOf path name v).run = .ok (f, warnings)) :
    ∃ p plan, v.peel = .ok p ∧ p.node.plan = .ok plan ∧
      (p.read path name plan).run = .ok (f, warnings) := by
  cases hp : v.peel with
  | error e =>
    rw [fieldOf] at h
    split at h
    · cases h
    · simp_all
  | ok p =>
    cases hplan : p.node.plan with
    | error e =>
      rw [fieldOf_of_plan_error hp hplan] at h
      cases h
    | ok plan => exact ⟨p, plan, rfl, hplan, fieldOf_of_plan hp hplan ▸ h⟩

theorem Peeled.read_name {p : Peeled} {path name : String} {plan : Plan} {f : Field}
    {warnings : List String} (h : (p.read path name plan).run = .ok (f, warnings)) :
    f.name = name := by
  cases Peeled.becomes_of_read h with
  | refused hfield => exact Peeled.field_name hfield
  | read _ _ _ hfield => exact Peeled.field_name hfield

/-- A field has the name that it was asked for. -/
theorem fieldOf_name {path name : String} {v : Value} {f : Field} {warnings : List String}
    (h : (fieldOf path name v).run = .ok (f, warnings)) : f.name = name := by
  obtain ⟨p, plan, -, -, hread⟩ := exists_plan_of_fieldOf h
  exact Peeled.read_name hread

/-! ## The fields of a shape -/

theorem fieldsOf_cons {path name : String} {v : Value} {rest : Shape} {fields : List Field}
    {warnings : List String} :
    (fieldsOf path ((name, v) :: rest)).run = .ok (fields, warnings) ↔
      ∃ f first others more, (fieldOf (memberPath path name) name v).run = .ok (f, first) ∧
        (fieldsOf path rest).run = .ok (others, more) ∧ fields = f :: others ∧
          warnings = first ++ more := by
  rw [fieldsOf]
  simp only [Warned.run_bind, Warned.run_pure, Except.ok.injEq, Prod.mk.injEq]
  constructor
  · rintro ⟨f, first, more, hf, ⟨others, more', none, ho, ⟨rfl, rfl⟩, rfl⟩, rfl⟩
    exact ⟨f, first, others, more', hf, ho, rfl, by simp⟩
  · rintro ⟨f, first, others, more, hf, ho, rfl, rfl⟩
    exact ⟨f, first, more, hf, ⟨others, more, [], ho, ⟨rfl, rfl⟩, by simp⟩, rfl⟩

theorem fieldsOf_singleton {path name : String} {v : Value} {f : Field} {warnings : List String}
    (h : (fieldOf (memberPath path name) name v).run = .ok (f, warnings)) :
    (fieldsOf path [(name, v)]).run = .ok ([f], warnings) :=
  fieldsOf_cons.2 ⟨f, warnings, [], [], h, by rw [fieldsOf]; rfl, rfl, (List.append_nil _).symm⟩

/-- The fields of a shape are named by its keys. -/
theorem fieldsOf_names {path : String} : ∀ {shape : Shape} {fields : List Field}
    {warnings : List String}, (fieldsOf path shape).run = .ok (fields, warnings) →
      fields.map Field.name = shape.map Prod.fst
  | [], fields, warnings, h => by
    rw [fieldsOf, Warned.run_pure] at h
    cases h
    rfl
  | (name, v) :: rest, fields, warnings, h => by
    obtain ⟨f, first, others, more, hf, ho, rfl, -⟩ := fieldsOf_cons.1 h
    rw [List.map_cons, List.map_cons, fieldOf_name hf, fieldsOf_names ho]

/-- Without some members a shape gives the same fields, without those of the members. -/
theorem fieldsOf_filter {path : String} (keep : String → Bool) : ∀ {shape : Shape}
    {fields : List Field} {warnings : List String},
    (fieldsOf path shape).run = .ok (fields, warnings) →
      ∃ fewer, (fieldsOf path (shape.filter fun member => keep member.1)).run =
        .ok (fields.filter fun f => keep f.name, fewer)
  | [], fields, warnings, h => by
    rw [fieldsOf, Warned.run_pure] at h
    cases h
    exact ⟨[], by rw [List.filter_nil, List.filter_nil, fieldsOf, Warned.run_pure]⟩
  | (name, v) :: rest, fields, warnings, h => by
    obtain ⟨f, first, others, more, hf, ho, rfl, -⟩ := fieldsOf_cons.1 h
    obtain ⟨fewer, hfewer⟩ := fieldsOf_filter keep ho
    by_cases hk : keep name = true
    · refine ⟨first ++ fewer, ?_⟩
      rw [List.filter_cons_of_pos (by exact hk), List.filter_cons_of_pos (by rwa [fieldOf_name hf])]
      exact fieldsOf_cons.2 ⟨f, first, _, fewer, hf, hfewer, rfl, rfl⟩
    · refine ⟨fewer, ?_⟩
      rw [List.filter_cons_of_neg (by exact hk), List.filter_cons_of_neg (by rwa [fieldOf_name hf])]
      exact hfewer

/-- The form of an object node is made of the fields of its shape. -/
theorem introspect_of_fieldsOf {shape : Shape} {fields : List Field} {warnings : List String}
    (h : (fieldsOf "" shape).run = .ok (fields, warnings)) (naming : Naming) :
    introspect (.node (.plain (.object shape))) naming .null =
      .ok ⟨naming, fields, warnings, none⟩ := by
  have hshape : rootShape (.node (.plain (.object shape))) = .ok shape := by
    simp [rootShape, Node.plain, Value.shape?]
  rw [introspect, hshape]
  dsimp only
  rw [h]
  rfl

end FormSchema
