import FormSchema.Proofs.Extraction

/-!
# What a form warns of

The walk of a schema stops at each value that becomes a field and at each member of a union that
has a shape. `Node.visitsBelow` says by the kind of a node which stops are right below it, and
`Value.visits` lists all stops of a schema in pre-order: each one before those below it.

A stop is warned of if something is lost there (`Visit.Loses`): the kind of the node, an enum that
has nothing to choose from, a check by its name, or the tag of a member. Below a node that is
refused nothing is visited. The warnings of a form are those of the stops of its schema, one after
the other (`introspect_warnings`), so there are none exactly if nothing is lost.
-/

namespace FormSchema

/-! ## Nodes that are refused -/

/-- Whether the value is a text. -/
def Value.isText : Value → Bool
  | .text _ => true
  | _ => false

/-- The kind of field that values of a literal ask for. -/
def literalKindName : List Value → String
  | [.bool _] => "boolean"
  | [.text _] => "string"
  | [.number _] => "number"
  | first :: second :: rest => if (first :: second :: rest).all Value.isText then "enum" else "literal"
  | _ => "literal"

/-- The kind of field that a node asks for: literals go by their values, and an intersection of
objects is an object. -/
def Node.kindName (n : Node) : String :=
  match n.kind with
  | .literal values => literalKindName values
  | .intersection _ _ =>
    match (Value.node n).shape? with
    | .ok (some _) => "object"
    | _ => "intersection"
  | kind => kind.tag

/-- Whether a node has values to choose from. -/
def Node.hasChoices (n : Node) : Bool :=
  match n.kind with
  | .enum entries => !entries.isEmpty
  | .literal values => !values.isEmpty
  | _ => false

/-- Why the node has no field of its kind, if it has none: the kind is not supported, or it is an
enum without values. -/
def Node.refusal? (n : Node) : Option Refusal :=
  match FieldType.ofName? n.kindName with
  | none => some (.unsupported n.kindName)
  | some .enum => if n.hasChoices then none else some .noValues
  | some _ => none

/-- The reason of a plan that is refused. -/
def Plan.reason? : Plan → Option Refusal
  | .refused reason => some reason
  | _ => none

/-- Values have texts just if each of them is one. -/
theorem allTexts?_isSome : ∀ values : List Value,
    (allTexts? values).isSome = values.all Value.isText
  | [] => rfl
  | v :: rest => by
    cases v with
    | text s => simp [allTexts?, Value.isText, allTexts?_isSome rest]
    | _ => rfl

/-- A literal is refused for the reason that its plan gives. -/
theorem refusal?_literal (values : List Value) (checks : List Check) (description : Value) :
    Node.refusal? ⟨.literal values, checks, description⟩ = (literalPlan values).reason? := by
  rcases values with _ | ⟨first, _ | ⟨second, rest⟩⟩
  · rfl
  · cases first <;> rfl
  · have hname : Node.kindName ⟨.literal (first :: second :: rest), checks, description⟩ =
        if (allTexts? (first :: second :: rest)).isSome then "enum" else "literal" := by
      rw [allTexts?_isSome, Node.kindName]
      cases first <;> rfl
    rw [Node.refusal?, hname]
    cases htexts : allTexts? (first :: second :: rest) with
    | none =>
      have hplan : literalPlan (first :: second :: rest) = .refused (.unsupported "literal") := by
        cases first <;> simp [literalPlan, htexts]
      rw [hplan]
      rfl
    | some texts =>
      -- There are as many texts as values, so there is a first one.
      have hvalues := allTexts?_eq_some htexts
      cases texts with
      | nil => cases hvalues
      | cons text others =>
        have hplan : literalPlan (first :: second :: rest) = .leaf (.enum text others) := by
          cases first <;> simp [literalPlan, htexts, Content.ofValues?]
        rw [hplan]
        rfl

theorem refusal?_bare (tag : String) (checks : List Check) (description : Value) :
    Node.refusal? ⟨.bare tag, checks, description⟩ = (barePlan tag).reason? := by
  unfold barePlan
  split
  all_goals try rfl
  rename_i hstring hnumber hboolean hdate henum hobject harray htuple hrecord hunion
  have hnone : FieldType.ofName? tag = none := by
    unfold FieldType.ofName?
    split <;> simp_all
  simp only [Node.refusal?, Node.kindName, Kind.tag, hnone, Plan.reason?]

/-- A node is refused by its plan for the reason that its kind gives. -/
theorem refusal?_of_plan {n : Node} {plan : Plan} (h : n.plan = .ok plan) :
    n.refusal? = plan.reason? := by
  obtain ⟨kind, checks, description⟩ := n
  cases kind with
  | enum entries =>
    cases h
    cases entries <;> rfl
  | literal values =>
    cases h
    exact refusal?_literal values checks description
  | intersection left right =>
    simp only [Node.refusal?, Node.kindName]
    obtain ⟨shape, hshape, rfl⟩ | ⟨hshape, rfl⟩ := plan_intersection h
    · rw [hshape]
      rfl
    · rw [hshape]
      rfl
  | bare tag =>
    cases plan_bare h
    exact refusal?_bare tag checks description
  | _ =>
    cases h
    rfl

/-! ## Checks that are not known -/

/-- The names of the checks that have an effect on the constraints of a field. -/
def knownChecks : List String :=
  ["min_length", "max_length", "string_format", "greater_than", "less_than", "number_format",
    "multiple_of"]

/-- The names of the checks of a node that are not known, in order. -/
def Node.strangeChecks (n : Node) : List String :=
  (n.checks.map Check.name).filter fun name => !knownChecks.contains name

theorem setsIf_ne_unknown (member name : String) (o : Option Datum) :
    Effect.setsIf member o ≠ .unknown name := by
  cases o <;> simp [Effect.setsIf]

theorem formatEffect_ne_unknown (c : Check) (name : String) : c.formatEffect ≠ .unknown name := by
  unfold Check.formatEffect
  split
  · split <;> simp
  · split <;> simp
  · simp

/-- Whether a check is known is decided by its name alone. -/
theorem effect_eq_unknown_iff {collection : Bool} {c : Check} {name : String} :
    c.effect collection = .unknown name ↔ c.name = name ∧ c.name ∉ knownChecks := by
  have hknown {e : Effect} (he : e ≠ .unknown name) (hmem : c.name ∈ knownChecks) :
      e = .unknown name ↔ c.name = name ∧ c.name ∉ knownChecks :=
    iff_of_false he fun h => h.2 hmem
  unfold Check.effect
  split
  case h_8 hmin hmax hformat hgreater hless hnumber hmultiple =>
    simp_all [knownChecks]
  case h_3 h => exact hknown (formatEffect_ne_unknown c name) (by simp [h, knownChecks])
  case h_6 h =>
    refine hknown ?_ (by simp [h, knownChecks])
    split <;> simp
  all_goals
    rename_i h
    exact hknown (setsIf_ne_unknown _ _ _) (by simp [h, knownChecks])

theorem unknownNames_cons_of_ne {e : Effect} (h : ∀ name, e ≠ .unknown name) (rest : List Effect) :
    unknownNames (e :: rest) = unknownNames rest := by
  cases e with
  | unknown name => exact absurd rfl (h name)
  | _ => rfl

/-- The names that no effect knows are those of the unknown checks, in order. -/
theorem unknownNames_effects (collection : Bool) : ∀ checks : List Check,
    unknownNames (checks.map (Check.effect collection)) =
      (checks.map Check.name).filter fun name => !knownChecks.contains name
  | [] => rfl
  | c :: rest => by
    rw [List.map_cons, List.map_cons]
    by_cases hname : c.name ∈ knownChecks
    · rw [unknownNames_cons_of_ne fun name h => (effect_eq_unknown_iff.1 h).2 hname,
        List.filter_cons_of_neg (by simpa using hname), unknownNames_effects collection rest]
    · rw [effect_eq_unknown_iff.2 ⟨rfl, hname⟩, List.filter_cons_of_pos (by simpa using hname),
        ← unknownNames_effects collection rest]
      rfl

/-! ## Stops of the walk -/

/-- A stop of the walk: a value that becomes the field at a path, or a member of a union with a
shape and a discriminator, at its index below the path of the union. -/
inductive Visit
  | field (path : String) (v : Value)
  | member (path key : String) (index : Nat) (shape : Shape)

/-- The first value of the literal that the shape has at a key, if it has one there. -/
def Shape.literalAt? (shape : Shape) (key : String) : Option Value :=
  match shape.lookup key with
  | none => none
  | some v =>
    match v.unwrap with
    | .error _ => none
    | .ok u =>
      match u.inner.kind with
      | .literal (first :: _) => some first
      | _ => none

/-- The tag of a member at an index: its literal as a text, or one of its own. -/
def Shape.tagAt (shape : Shape) (key : String) (index : Nat) : String :=
  ((shape.literalAt? key).map Value.display).getD (variantTag index)

/-- The stops at the members of a shape below a path. -/
def memberVisits (path : String) (shape : Shape) : List Visit :=
  shape.map fun member => .field (memberPath path member.1) member.2

/-- The stop at the option of a union at an index. -/
def optionVisit (path : String) (discriminator : Option String) (index : Nat) (v : Value) : Visit :=
  match taggedShape? discriminator v with
  | .ok (some shape) => .member path (discriminator.getD "") index shape
  | _ => .field (below path (optionName index)) v

/-- The stops right below a node at a path. -/
def Node.visitsBelow (path : String) (n : Node) : List Visit :=
  match n.kind with
  | .array element => [.field (below path elementName) element]
  | .tuple items => items.zipIdx.map fun (v, index) => .field (below path (natText index)) v
  | .record _ value => [.field (below path recordValueName) value]
  | .union options discriminator =>
    options.zipIdx.map fun (v, index) => optionVisit path discriminator index v
  | _ =>
    match (Value.node n).shape? with
    | .ok (some shape) => memberVisits path shape
    | _ => []

/-- The stops right below a stop; a node that is refused has none. -/
def Visit.next : Visit → List Visit
  | .field path v =>
    match v.peel with
    | .error _ => []
    | .ok p => if p.node.refusal?.isSome then [] else p.node.visitsBelow path
  | .member path key index shape => memberVisits (below path (shape.tagAt key index)) shape

/-- How large the schema is at a stop. -/
noncomputable def Visit.size : Visit → Nat
  | .field _ v => sizeOf v
  | .member _ _ _ shape => sizeOf shape

/-- The members of a shape are smaller than the shape. -/
theorem memberVisits_size {path : String} {shape : Shape} :
    ∀ s ∈ memberVisits path shape, s.size < sizeOf shape :=
  List.forall_mem_map.2 fun _ he => member_size (List.mem_map_of_mem he)

theorem optionVisit_size (path : String) (discriminator : Option String) (index : Nat) (v : Value) :
    (optionVisit path discriminator index v).size ≤ sizeOf v := by
  unfold optionVisit
  split
  · rename_i hshape
    exact (taggedShape_size hshape).le
  · exact Nat.le_refl _

theorem visitsBelow_size {path : String} {n : Node} :
    ∀ s ∈ n.visitsBelow path, s.size < sizeOf (Value.node n) := by
  obtain ⟨kind, checks, description⟩ := n
  have hshape : ∀ s ∈ (match (Value.node ⟨kind, checks, description⟩).shape? with
      | .ok (some shape) => memberVisits path shape
      | _ => []), s.size < sizeOf (Value.node ⟨kind, checks, description⟩) := by
    split
    · rename_i h
      exact fun s hs => (memberVisits_size s hs).trans (shape_size h)
    · simp
  intro s hs
  cases kind with
  | array element =>
    obtain rfl := List.mem_singleton.1 hs
    simp [Visit.size]
    omega
  | tuple items =>
    obtain ⟨⟨v, index⟩, hv, rfl⟩ := List.mem_map.1 hs
    have hlt : sizeOf v < sizeOf items := List.sizeOf_lt_of_mem (List.fst_mem_of_mem_zipIdx hv)
    simp only [Visit.size, Value.node.sizeOf_spec, Node.mk.sizeOf_spec, Kind.tuple.sizeOf_spec]
    omega
  | record key value =>
    obtain rfl := List.mem_singleton.1 hs
    simp [Visit.size]
    omega
  | union options discriminator =>
    obtain ⟨⟨v, index⟩, hv, rfl⟩ := List.mem_map.1 hs
    have hlt : sizeOf v < sizeOf options :=
      List.sizeOf_lt_of_mem (List.fst_mem_of_mem_zipIdx hv)
    have hle := optionVisit_size path discriminator index v
    simp only [Value.node.sizeOf_spec, Node.mk.sizeOf_spec, Kind.union.sizeOf_spec]
    omega
  | _ => exact hshape s hs

/-- A walk goes to smaller values only. -/
theorem next_size {s t : Visit} (h : t ∈ s.next) : t.size < s.size := by
  cases s with
  | field path v =>
    rw [Visit.next] at h
    split at h
    · cases h
    · rename_i p hp
      split at h
      · cases h
      · have hpart := visitsBelow_size t h
        have hpeel := peel_size hp
        rw [Value.node.sizeOf_spec] at hpart
        simp only [Visit.size] at *
        omega
  | member path key index shape => exact memberVisits_size t h

/-- The stop and all stops below it, in pre-order. -/
def Visit.walk (s : Visit) : List Visit :=
  s :: s.next.attach.flatMap fun t => t.1.walk
termination_by s.size
decreasing_by exact next_size t.2

/-- The stops of the walk of a schema, in pre-order. -/
def Value.visits (schema : Value) : List Visit :=
  match schema.shape? with
  | .ok (some shape) => (memberVisits "" shape).flatMap Visit.walk
  | _ => []

/-- A walk visits a value and then what lies below it. -/
theorem walk_eq (s : Visit) : s.walk = s :: s.next.flatMap Visit.walk := by
  rw [Visit.walk, List.flatMap_subtype (g := Visit.walk) fun _ _ => rfl, List.unattach_attach]

/-! ## What is said of a stop -/

/-- What is said of a stop: why it is refused, or which of its checks are not known unless it is a
literal with values, or which tag a member has in place of its own. -/
def Visit.warnings : Visit → List String
  | .field path v =>
    match v.peel with
    | .error _ => []
    | .ok p =>
      match p.node.refusal? with
      | some reason => [reason.warning path]
      | none =>
        if p.node.isFixed then [] else p.node.strangeChecks.map (unknownCheckWarning path)
  | .member path key index shape =>
    if (shape.literalAt? key).isSome then [] else [untaggedWarning path key index]

/-- What is said of a stop and of all stops below it. -/
def Visit.told (s : Visit) : List String :=
  s.walk.flatMap Visit.warnings

/-- A walk tells the warnings of a value and then those from below it. -/
theorem told_eq (s : Visit) : s.told = s.warnings ++ s.next.flatMap Visit.told := by
  rw [Visit.told, walk_eq, List.flatMap_cons, List.flatMap_assoc]
  rfl

/-- Reading constraints tells the unknown checks, in order, unless the node has none to read. -/
theorem told_fieldConstraints {n : Node} {path : String} {c : Constraints} {warnings : List String}
    (h : (n.fieldConstraints path).run = .ok (c, warnings)) :
    warnings = if n.isFixed then [] else n.strangeChecks.map (unknownCheckWarning path) := by
  unfold Node.fieldConstraints at h
  split at h
  · rename_i hfixed
    cases h
    rw [if_pos hfixed]
  · rename_i hfixed
    simp only [Warned.run_bind, Warned.run_ofResult, Warned.run_pure] at h
    obtain ⟨_, _, _, ⟨-, rfl⟩, ⟨_, _, _, hwarn, hpure, rfl⟩, rfl⟩ := h
    cases hwarn
    cases hpure
    rw [if_neg hfixed, Node.constraints, Node.effects, unknownNames_effects, List.nil_append,
      List.append_nil, Node.strangeChecks]

theorem tag?_of_lookup {shape : Shape} {key : String} {v : Value}
    (hv : shape.lookup key = some v) (hnull : v ≠ .null) :
    tag? shape key = v.unwrap >>= fun u => u.inner.literalTag? := by
  rw [tag?, hv]
  cases v with
  | null => exact absurd rfl hnull
  | node n =>
    dsimp only
    cases (Value.node n).unwrap <;> rfl
  | _ => rfl

theorem literalAt?_of_lookup {shape : Shape} {key : String} {v : Value} {u : Unwrapped}
    {tag : Option String} (hv : shape.lookup key = some v) (hu : v.unwrap = .ok u)
    (h : u.inner.literalTag? = .ok tag) : tag = (shape.literalAt? key).map Value.display := by
  rw [Shape.literalAt?, hv]
  dsimp only
  rw [hu]
  obtain ⟨⟨kind, checks, description⟩, isOptional, isNullable⟩ := u
  cases kind with
  | literal values =>
    cases values with
    | nil =>
      cases h
      rfl
    | cons v rest =>
      obtain ⟨-, rfl⟩ := writing_eq_ok.1 h
      rfl
  | _ =>
    cases h
    rfl

/-- The tag of a member is its literal at the discriminator, as it is shown. -/
theorem tag?_eq {shape : Shape} {key : String} {tag : Option String}
    (h : tag? shape key = .ok tag) : tag = (shape.literalAt? key).map Value.display := by
  cases hv : shape.lookup key with
  | none =>
    rw [tag?, hv] at h
    cases h
    rw [Shape.literalAt?, hv]
    rfl
  | some v =>
    by_cases hnull : v = .null
    · subst hnull
      rw [tag?, hv] at h
      cases h
      rw [Shape.literalAt?, hv]
      rfl
    · rw [tag?_of_lookup hv hnull] at h
      obtain ⟨u, hu, htag⟩ := bind_eq_ok.1 h
      exact literalAt?_of_lookup hv hu htag

/-- A member without a literal at the discriminator is warned of, and takes a tag from its index. -/
theorem told_tagOf {path key tag : String} {index : Nat} {shape : Shape} {warnings : List String}
    (h : (tagOf path key index shape).run = .ok (tag, warnings)) :
    tag = shape.tagAt key index ∧ warnings = (Visit.member path key index shape).warnings := by
  unfold tagOf at h
  rw [Warned.run_bind] at h
  obtain ⟨found, _, _, hfound, hrest, rfl⟩ := h
  obtain ⟨htag, rfl⟩ := (Warned.run_ofResult _ _ _).1 hfound
  have hmember : (Visit.member path key index shape).warnings =
      if (shape.literalAt? key).isSome then [] else [untaggedWarning path key index] := rfl
  rw [Shape.tagAt, hmember, ← tag?_eq htag]
  cases found with
  | some given =>
    have hsome : (shape.literalAt? key).isSome = true := by
      rw [← Option.isSome_map, ← tag?_eq htag]
      rfl
    rw [Warned.run_pure] at hrest
    cases hrest
    exact ⟨rfl, by rw [if_pos hsome, List.append_nil]⟩
  | none =>
    have hnone : ¬(shape.literalAt? key).isSome = true := by
      rw [← Option.isSome_map, ← tag?_eq htag]
      simp
    obtain ⟨_, _, _, hwarn, hpure, rfl⟩ := (Warned.run_bind _ _ _ _).1 hrest
    cases hwarn
    cases hpure
    exact ⟨rfl, by rw [if_neg hnone, List.nil_append, List.append_nil]⟩

/-! ## What the walk says -/

/-- Where the value becomes a field, the warnings are what is said of the stop and of those below. -/
def Value.Tells (v : Value) : Prop :=
  ∀ ⦃path name : String⦄ ⦃f : Field⦄ ⦃warnings : List String⦄,
    (fieldOf path name v).run = .ok (f, warnings) → warnings = (Visit.field path v).told

/-- Reading a shape tells what the walk over its members tells. -/
theorem told_fieldsOf {path : String} : ∀ {shape : Shape} {fields : List Field}
    {warnings : List String}, (∀ v ∈ shape.map Prod.snd, v.Tells) →
      (fieldsOf path shape).run = .ok (fields, warnings) →
        warnings = (memberVisits path shape).flatMap Visit.told
  | [], _, _, _, h => by
    rw [fieldsOf, Warned.run_pure] at h
    cases h
    rfl
  | (name, v) :: rest, _, _, htells, h => by
    obtain ⟨hv, hrest⟩ := List.forall_mem_cons.1 htells
    obtain ⟨f, first, others, more, hf, hothers, -, rfl⟩ := fieldsOf_cons.1 h
    rw [hv hf, told_fieldsOf hrest hothers]
    rfl

/-- Reading the items of a tuple tells what the walk over them tells. -/
theorem told_elementsOf {path : String} : ∀ {items : List Value} {index : Nat}
    {fields : List Field} {warnings : List String}, (∀ v ∈ items, v.Tells) →
      (elementsOf path index items).run = .ok (fields, warnings) →
        warnings = ((items.zipIdx index).map fun (v, index) =>
          Visit.field (below path (natText index)) v).flatMap Visit.told
  | [], _, _, _, _, h => by
    rw [elementsOf, Warned.run_pure] at h
    cases h
    rfl
  | v :: rest, index, _, _, htells, h => by
    obtain ⟨hv, hrest⟩ := List.forall_mem_cons.1 htells
    obtain ⟨f, first, others, more, hf, hothers, -, rfl⟩ := elementsOf_cons h
    rw [hv hf, told_elementsOf hrest hothers]
    rfl

/-- Reading an option of a union tells what the walk over it tells. -/
theorem told_variantOf {path : String} {discriminator : Option String} {index : Nat} {v : Value}
    {variant : Variant} {warnings : List String}
    (htells : ∀ w ∈ variantValues discriminator v, w.Tells)
    (h : (variantOf path discriminator index v).run = .ok (variant, warnings)) :
    warnings = (optionVisit path discriminator index v).told := by
  unfold variantValues at htells
  unfold optionVisit
  rcases variantOf_cases h with ⟨shape, first, more, hshape, htag, hfields, rfl⟩ |
    ⟨f, more, hnone, hf, -, rfl⟩
  · rw [hshape] at htells ⊢
    obtain ⟨htag, hfirst⟩ := told_tagOf htag
    rw [told_fieldsOf htells hfields, told_eq, hfirst, htag]
    rfl
  · rw [hnone] at htells ⊢
    exact htells v List.mem_cons_self hf

/-- Reading the options of a union tells what the walk over them tells. -/
theorem told_variantsOf {path : String} {discriminator : Option String} :
    ∀ {options : List Value} {index : Nat} {variants : List Variant} {warnings : List String},
      (∀ v ∈ options, ∀ w ∈ variantValues discriminator v, w.Tells) →
        (variantsOf path discriminator index options).run = .ok (variants, warnings) →
          warnings = ((options.zipIdx index).map fun (v, index) =>
            optionVisit path discriminator index v).flatMap Visit.told
  | [], _, _, _, _, h => by
    rw [variantsOf, Warned.run_pure] at h
    cases h
    rfl
  | v :: rest, index, _, _, htells, h => by
    obtain ⟨hv, hrest⟩ := List.forall_mem_cons.1 htells
    obtain ⟨variant, first, others, more, hvariant, hothers, -, rfl⟩ := variantsOf_cons h
    rw [told_variantOf hv hvariant, told_variantsOf hrest hothers]
    rfl

/-- The stops right below a node with the plan. -/
def Plan.visits (path : String) : Plan → List Visit
  | .object shape => memberVisits path shape
  | .array element => [.field (below path elementName) element]
  | .tuple items => items.zipIdx.map fun (v, index) => .field (below path (natText index)) v
  | .record value => [.field (below path recordValueName) value]
  | .union discriminator options =>
    options.zipIdx.map fun (v, index) => optionVisit path discriminator index v
  | _ => []

theorem Plan.IsChildless.visits_eq {plan : Plan} (h : plan.IsChildless) (path : String) :
    plan.visits path = [] := by
  cases plan with
  | leaf | hollow | refused => rfl
  | object | array | tuple | record | union => cases h

theorem shape?_bare (tag : String) (checks : List Check) (description : Value) (shape : Shape) :
    (Value.node ⟨.bare tag, checks, description⟩).shape? ≠ .ok (some shape) := by
  intro h
  unfold Value.shape? at h
  split at h <;> simp_all

theorem visitsBelow_bare (path tag : String) (checks : List Check) (description : Value) :
    Node.visitsBelow path ⟨.bare tag, checks, description⟩ = [] := by
  unfold Node.visitsBelow
  dsimp only
  split
  · exact absurd ‹_› (shape?_bare tag checks description _)
  · rfl

/-- The values below a node are those that its plan goes on with. -/
theorem visitsBelow_of_plan {n : Node} {plan : Plan} (h : n.plan = .ok plan) (path : String) :
    n.visitsBelow path = plan.visits path := by
  obtain ⟨kind, checks, description⟩ := n
  cases kind with
  | intersection left right =>
    rw [Node.visitsBelow]
    obtain ⟨shape, hshape, rfl⟩ | ⟨hshape, rfl⟩ := plan_intersection h
    · rw [hshape]
      rfl
    · rw [hshape]
      rfl
  | bare tag =>
    cases plan_bare h
    rw [visitsBelow_bare, (barePlan_isChildless tag).visits_eq]
  | enum entries =>
    cases h
    rw [(enumPlan_isChildless entries).visits_eq]
    simp [Node.visitsBelow, Value.shape?]
  | literal values =>
    cases h
    rw [(literalPlan_isChildless values).visits_eq]
    simp [Node.visitsBelow, Value.shape?]
  | array | tuple | record | union =>
    cases h
    rfl
  | _ =>
    cases h
    simp [Node.visitsBelow, Value.shape?, Plan.visits]

/-- What is read by a plan is warned of as the stops of the plan are. -/
theorem Plan.told_read {plan : Plan} {path : String} {content : Content} {warnings : List String}
    (htells : ∀ v ∈ plan.fieldValues, v.Tells)
    (h : (plan.read path).run = .ok (content, warnings)) :
    warnings = (plan.visits path).flatMap Visit.told := by
  cases plan with
  | leaf content =>
    cases h
    rfl
  | hollow => cases h
  | refused reason => cases h
  | object shape =>
    obtain ⟨fields, hfields, rfl⟩ := Warned.of_return h
    exact told_fieldsOf htells hfields
  | array element =>
    obtain ⟨f, hf, rfl⟩ := Warned.of_return h
    rw [htells element List.mem_cons_self hf]
    exact (List.append_nil _).symm
  | tuple items =>
    obtain ⟨fields, hfields, rfl⟩ := Warned.of_return h
    exact told_elementsOf htells hfields
  | record value =>
    obtain ⟨f, hf, rfl⟩ := Warned.of_return h
    rw [htells value List.mem_cons_self hf]
    exact (List.append_nil _).symm
  | union discriminator options =>
    obtain ⟨variants, hvariants, rfl⟩ := Warned.of_return h
    exact told_variantsOf (fun v hv w hw => htells w (List.mem_flatMap.2 ⟨v, hv, hw⟩)) hvariants

/-- At every value that becomes a field, the warnings are those of the stops from there on. -/
theorem tells (v : Value) : v.Tells := by
  intro path name f warnings h
  obtain ⟨p, plan, hp, hplan, hread⟩ := exists_plan_of_fieldOf h
  have hrefusal := refusal?_of_plan hplan
  rw [told_eq, Visit.warnings, Visit.next, hp]
  dsimp only
  rw [hrefusal]
  cases Peeled.becomes_of_read hread with
  | refused => rfl
  | @read _ c content first second hshown hc hcontent =>
    have hnone : plan.reason? = none := by
      cases plan with
      | refused reason => exact absurd rfl (hshown reason)
      | _ => rfl
    have hbelow : second = (plan.visits path).flatMap Visit.told :=
      Plan.told_read (fun w hw => by
        have hsmaller := (fieldValues_below hp hplan w hw).1
        exact tells w) hcontent
    rw [hnone, told_fieldConstraints hc, hbelow, visitsBelow_of_plan hplan]
    rfl
termination_by sizeOf v

/-! ## What is lost -/

/-- Something is lost at the stop: the node that becomes the field is refused, one of its checks is
not known though its checks count, or the member of a union has no literal at the discriminator. -/
inductive Visit.Loses : Visit → Prop
  | refused {path : String} {v : Value} {p : Peeled} {reason : Refusal} (hp : v.peel = .ok p)
      (h : p.node.refusal? = some reason) : Loses (.field path v)
  | unknown {path : String} {v : Value} {p : Peeled} {c : Check} (hp : v.peel = .ok p)
      (hshown : p.node.refusal? = none) (hfixed : p.node.isFixed = false)
      (hc : c ∈ p.node.checks) (h : c.name ∉ knownChecks) : Loses (.field path v)
  | untagged {path key : String} {index : Nat} {shape : Shape}
      (h : shape.literalAt? key = none) : Loses (.member path key index shape)

/-- No check is strange just if all are known. -/
theorem strangeChecks_eq_nil_iff {n : Node} :
    n.strangeChecks = [] ↔ ∀ c ∈ n.checks, c.name ∈ knownChecks := by
  simp [Node.strangeChecks, List.filter_eq_nil_iff]

/-- A field loses something just if its node is refused or holds an unknown check that is read. -/
theorem loses_field_iff {path : String} {v : Value} {p : Peeled} (hp : v.peel = .ok p) :
    (Visit.field path v).Loses ↔ (∃ reason, p.node.refusal? = some reason) ∨
      (p.node.refusal? = none ∧ p.node.isFixed = false ∧
        ∃ c ∈ p.node.checks, c.name ∉ knownChecks) := by
  constructor
  · intro h
    cases h with
    | refused hp' h =>
      cases hp.symm.trans hp'
      exact .inl ⟨_, h⟩
    | unknown hp' hshown hfixed hc h =>
      cases hp.symm.trans hp'
      exact .inr ⟨hshown, hfixed, _, hc, h⟩
  · rintro (⟨reason, h⟩ | ⟨hshown, hfixed, c, hc, h⟩)
    · exact .refused hp h
    · exact .unknown hp hshown hfixed hc h

/-- A tagged member loses something just if it has no literal at the discriminator. -/
theorem loses_member_iff {path key : String} {index : Nat} {shape : Shape} :
    (Visit.member path key index shape).Loses ↔ shape.literalAt? key = none :=
  ⟨fun h => by cases h with | untagged h => exact h, .untagged⟩

/-- A stop is warned of exactly if something is lost there. -/
theorem warnings_eq_nil_iff {s : Visit} : s.warnings = [] ↔ ¬s.Loses := by
  cases s with
  | field path v =>
    rw [Visit.warnings]
    cases hp : v.peel with
    | error e =>
      refine iff_of_true rfl fun h => ?_
      cases h with
      | refused hp' => cases hp.symm.trans hp'
      | unknown hp' => cases hp.symm.trans hp'
    | ok p =>
      rw [loses_field_iff hp]
      dsimp only
      cases p.node.refusal? with
      | some reason => simp
      | none => cases p.node.isFixed <;> simp [strangeChecks_eq_nil_iff]
  | member path key index shape =>
    rw [Visit.warnings, loses_member_iff]
    cases shape.literalAt? key <;> simp

/-- The warnings of a form are those of the stops of its schema in pre-order, and there are none
exactly if nothing is lost at any of the stops. -/
theorem introspect_warnings {schema : Value} {naming : Naming} {steps : Datum} {form : Form}
    (h : introspect schema naming steps = .ok form) :
    form.warnings = schema.visits.flatMap Visit.warnings ∧
      (form.warnings = [] ↔ ∀ s ∈ schema.visits, ¬s.Loses) := by
  obtain ⟨shape, hshape, hfields, -⟩ := fieldsOf_of_introspect h
  have hwarnings : form.warnings = schema.visits.flatMap Visit.warnings := by
    rw [told_fieldsOf (fun v _ => tells v) hfields, Value.visits, hshape, List.flatMap_assoc]
    rfl
  refine ⟨hwarnings, ?_⟩
  rw [hwarnings, List.flatMap_eq_nil_iff]
  exact forall₂_congr fun s _ => warnings_eq_nil_iff

/-! ## A union where everything is lost -/

/-- A text with a check that no form can show. -/
def refinedText : Node :=
  (Node.plain (.string none)).withCheck (.named "custom")

/-- A union of an object without the discriminator and of a schema that takes everything. -/
def lossyUnion : Node :=
  .plain (.union [.node (.plain (.object [("b", .node refinedText)])), .node (.plain .any)]
    (some "k"))

/-- The object of such a union. -/
def lossyObject : Value :=
  .node (.plain (.object [("a", .node lossyUnion)]))

/-- The variants of the union. -/
def lossyVariants : List Variant :=
  [⟨"variant_0", [⟨"b", "B", none, false, false, {}, .string, none⟩]⟩,
    ⟨"variant_1", [⟨"option_1", "Option_1", none, false, false, {}, .string, none⟩]⟩]

/-- What is said of the members of the union, the fields of each behind its tag. -/
def lossyWarnings : List String :=
  [untaggedWarning "a" "k" 0, unknownCheckWarning "a.variant_0.b" "custom",
    (Refusal.unsupported "any").warning "a.option_1"]

/-- The form of the object. -/
def lossyForm : Form :=
  ⟨⟨"F", "./s", "s"⟩,
    [⟨"a", "A", none, false, false, {}, .union (some "k") lossyVariants, none⟩], lossyWarnings,
    none⟩

/-- The form of an object with an unknown check, a refused node and an untagged member. -/
theorem introspect_lossyObject :
    introspect lossyObject ⟨"F", "./s", "s"⟩ .null = .ok lossyForm := by
  have hrefined : (fieldOf (memberPath (below "a" "variant_0") "b") "b" (.node refinedText)).run =
      .ok (⟨"b", "B", none, false, false, {}, .string, none⟩,
        [unknownCheckWarning "a.variant_0.b" "custom"]) := by
    rw [fieldOf_of_plan (peel_of_isCore rfl rfl) rfl]
    cbv
  have htag : (tagOf "a" "k" 0 [("b", .node refinedText)]).run =
      .ok ("variant_0", [untaggedWarning "a" "k" 0]) := by
    cbv
  have hany : (fieldOf (below "a" (optionName 1)) (optionName 1) (.node (.plain .any))).run =
      .ok (⟨"option_1", "Option_1", none, false, false, {}, .string, none⟩,
        [(Refusal.unsupported "any").warning "a.option_1"]) := by
    rw [fieldOf_of_plan (peel_of_isCore rfl rfl) rfl]
    cbv
  have hnone : taggedShape? (some "k") (.node (.plain .any)) = .ok none := by
    have hunwrap : (Value.node (.plain .any)).unwrap = .ok ⟨.plain .any, false, false⟩ :=
      unwrap_of_isCore rfl
    rw [taggedShape?, hunwrap]
    simp [Node.plain, Value.shape?]
  have hvariants := variantsOf_of_run
    (variantOf_of_run (taggedShape?_object (by decide)) htag (fieldsOf_singleton hrefined))
    (variantsOf_of_run (variantOf_option hnone hany) (by rw [variantsOf]; rfl))
  have hread : ((Plan.union (some "k") [.node (.plain (.object [("b", .node refinedText)])),
      .node (.plain .any)]).read "a").run = .ok (.union (some "k") lossyVariants, lossyWarnings) :=
    run_return hvariants _
  have hfield : (fieldOf "a" "a" (.node lossyUnion)).run = _ := fieldOf_plain rfl rfl rfl hread
  have hlabel : Text.label "a" = "A" := by cbv
  rw [hlabel] at hfield
  exact introspect_of_fieldsOf (fieldsOf_singleton hfield) _

/-- The form of the object warns of three stops. -/
theorem introspect_warnings_lossy :
    introspect lossyObject ⟨"F", "./s", "s"⟩ .null = .ok lossyForm ∧
      lossyWarnings = lossyObject.visits.flatMap Visit.warnings ∧
        ∃ s ∈ lossyObject.visits, s.Loses := by
  obtain ⟨hwarnings, hnone⟩ := introspect_warnings introspect_lossyObject
  refine ⟨introspect_lossyObject, hwarnings, ?_⟩
  by_contra hall
  push Not at hall
  cases hnone.2 hall

end FormSchema
