import FormSchema.Proofs.Building
import FormSchema.Proofs.References
import FormSchema.Proofs.Walk

/-!
# Where fields come from

Every field at any depth of a form is made by one step of the walk from a value inside the schema
(`introspect_comesFrom`). So what one step says of the field it makes, from what holds of all nodes
inside its value, holds of the whole form.

The node that a value is peeled to lies inside the value, and so does the node whose description
counts (`inside_of_peel`). The members of a shape lie inside the value with the shape, and each key
is a key of a node in there (`inside_of_shape`).
-/

namespace FormSchema

/-! ## Peeling -/

/-- The core of a node lies inside it. -/
theorem inside_of_unwrap {n : Node} {u : Unwrapped} (h : n.unwrap = .ok u) :
    (Value.node u.inner).Inside (.node n) := by
  fun_induction Node.unwrap n generalizing u with
  | case1 => cases h
  | case2 checks description m u' hm ih =>
    cases h
    have hinner := ih hm
    exact .deeper (List.mem_singleton_self _) hinner
  | case3 => cases h
  | case4 checks description m u' hm ih =>
    cases h
    have hinner := ih hm
    exact .deeper (List.mem_singleton_self _) hinner
  | case5 => cases h
  | case6 => cases h
  | case7 => cases h
  | case8 => cases h
  | case9 =>
    cases h
    exact .self _

theorem inside_of_value_unwrap {v : Value} {u : Unwrapped} (h : v.unwrap = .ok u) :
    (Value.node u.inner).Inside v := by
  cases v with
  | node n => exact inside_of_unwrap h
  | _ => cases h

/-- The description is one that was there, or that of a node inside the value. -/
def IsDescribed (start description v : Value) : Prop :=
  description = start ∨ ∃ m : Node, (Value.node m).Inside v ∧ description = m.description

/-- The nearer of two descriptions stems from the value too. -/
theorem isDescribed_nearer {start d v : Value} {m : Node} (h : IsDescribed start d v)
    (hm : (Value.node m).Inside v) : IsDescribed start (nearer d m.description) v := by
  unfold nearer
  split
  · exact .inr ⟨m, hm, rfl⟩
  · exact h

/-- Peeling ends at a node inside the value, with a description from it. -/
theorem inside_of_peelFrom {a b : Bool} {d v : Value} {p : Peeled} (h : peelFrom a b d v = .ok p) :
    (Value.node p.node).Inside v ∧ IsDescribed d p.description v := by
  fun_induction peelFrom a b d v generalizing p with
  | case1 => cases h
  | case2 =>
    rename_i a b d n inner opt nul hu found input output hk ih
    have hinner := inside_of_unwrap hu
    have hinput : input.Inside (.node n) := by
      refine Value.Inside.trans (.deeper ?_ (.self input)) hinner
      rw [Value.values, hk]
      exact List.mem_cons_self
    obtain ⟨hnode, hdescription⟩ := ih h
    refine ⟨hnode.trans hinput, ?_⟩
    rcases hdescription with hfound | ⟨m, hm, hd⟩
    · rw [hfound]
      exact isDescribed_nearer (isDescribed_nearer (.inl rfl) (.self _)) hinner
    · exact .inr ⟨m, hm.trans hinput, hd⟩
  | case3 => cases h
  | case4 =>
    rename_i hu _ _ _
    have hinner := inside_of_unwrap hu
    cases h
    exact ⟨hinner, isDescribed_nearer (isDescribed_nearer (.inl rfl) (.self _)) hinner⟩
  | case5 => cases h

/-- The node that a value is peeled to lies inside, and so does the node that describes it. -/
theorem inside_of_peel {v : Value} {p : Peeled} (h : v.peel = .ok p) :
    (Value.node p.node).Inside v ∧ IsDescribed .null p.description v :=
  inside_of_peelFrom h

/-! ## Shapes -/

/-- The keys and the members of a shape are those of nodes inside a value. -/
structure Shape.Inside (shape : Shape) (v : Value) : Prop where
  members : ∀ e ∈ shape, e.2.Inside v
  keys : ∀ key ∈ shape.map Prod.fst, ∃ n : Node, (Value.node n).Inside v ∧ key ∈ n.kind.keys

/-- The keys after updates were there before or are those of the updates. -/
theorem mem_keys_putEntries {es updates : List (String × Value)} {key : String}
    (h : key ∈ (putEntries es updates).map Prod.fst) :
    key ∈ es.map Prod.fst ∨ key ∈ updates.map Prod.fst := by
  induction updates generalizing es with
  | nil => exact .inl h
  | cons u rest ih =>
    obtain ⟨k, v⟩ := u
    rcases ih (h : key ∈ (putEntries (putEntry es k v) rest).map Prod.fst) with hput | hrest
    · rw [keys_putEntry] at hput
      split at hput
      · exact .inl hput
      · rcases List.mem_append.1 hput with hes | hk
        · exact .inl hes
        · obtain rfl := List.mem_singleton.1 hk
          exact .inr (by simp)
    · exact .inr (List.mem_cons_of_mem _ hrest)

theorem Shape.Inside.trans {shape : Shape} {u v : Value} (h : shape.Inside u) (hu : u.Inside v) :
    shape.Inside v :=
  ⟨fun e he => (h.members e he).trans hu, fun key hkey =>
    (h.keys key hkey).imp fun _ hn => ⟨hn.1.trans hu, hn.2⟩⟩

/-- Shapes that lie inside a value lie inside it when they are merged. -/
theorem Shape.Inside.put {left right : Shape} {v : Value} (hl : left.Inside v)
    (hr : right.Inside v) : Shape.Inside (putEntries left right) v := by
  refine ⟨putEntries_forall (P := fun w : Value => w.Inside v) hl.members hr.members, ?_⟩
  intro key hkey
  rcases mem_keys_putEntries hkey with hleft | hright
  · exact hl.keys key hleft
  · exact hr.keys key hright

/-- A shape lies inside the value with the shape. -/
theorem inside_of_shape {v : Value} {shape : Shape} (h : v.shape? = .ok (some shape)) :
    shape.Inside v := by
  fun_induction Value.shape? v generalizing shape with
  | case1 shape' checks description =>
    cases h
    exact ⟨fun e he => .deeper (List.mem_map_of_mem he) (.self _),
      fun key hkey => ⟨_, .self _, hkey⟩⟩
  | case4 =>
    rename_i hl hr ihl ihr
    cases h
    refine Shape.Inside.put ((ihl hl).trans ?_) ((ihr hr).trans ?_)
    · exact .deeper (by simp [Value.values, Kind.values]) (.self _)
    · exact .deeper (by simp [Value.values, Kind.values]) (.self _)
  | _ => cases h

/-- No node inside the value has two entries with one key. -/
def Value.HasDistinctKeys (v : Value) : Prop :=
  ∀ n : Node, (Value.node n).Inside v → n.kind.keys.Nodup

/-- Every value inside one of distinct keys has distinct keys. -/
theorem Value.HasDistinctKeys.of_inside {u v : Value} (h : v.HasDistinctKeys) (hu : u.Inside v) :
    u.HasDistinctKeys :=
  fun n hn => h n (hn.trans hu)

/-- Sound values have distinct keys. -/
theorem Value.AllSound.hasDistinctKeys {P : Number → Prop} {v : Value} (h : v.AllSound P) :
    v.HasDistinctKeys :=
  fun n hn => (h (.node n) hn).keys

/-- The keys of a shape of a value with distinct keys are distinct. -/
theorem nodup_keys_of_shape {v : Value} {shape : Shape} (hv : v.HasDistinctKeys)
    (h : v.shape? = .ok (some shape)) : (shape.map Prod.fst).Nodup := by
  fun_induction Value.shape? v generalizing shape with
  | case1 =>
    cases h
    exact hv _ (.self _)
  | case4 =>
    rename_i hl _ ihl _
    cases h
    have hleft := hv.of_inside (.deeper List.mem_cons_self (.self _))
    exact nodup_keys_putEntries (ihl hleft hl) _
  | _ => cases h

/-! ## Plans -/

/-- Values that are all texts are these texts. -/
theorem allTexts?_eq_some : ∀ {values : List Value} {texts : List String},
    allTexts? values = some texts → values = texts.map Value.text
  | [], _, h => by
    cases h
    rfl
  | v :: rest, texts, h => by
    cases v with
    | text s =>
      obtain ⟨ss, hss, rfl⟩ := Option.map_eq_some_iff.1 h
      rw [List.map_cons, ← allTexts?_eq_some hss]
    | _ => cases h

/-- What a plan says of the node that it is of. -/
def Plan.IsOf (n : Node) : Plan → Prop
  | .leaf content => content.type.isComposite = false
  | .object shape => (Value.node n).shape? = .ok (some shape)
  | .array element => n.kind = .array element
  | .tuple items => n.kind = .tuple items
  | .record value => ∃ key, n.kind = .record key value
  | .union discriminator options => n.kind = .union options discriminator
  | _ => True

/-- An enum has a first value. -/
theorem ofValues?_eq_some {values : List String} {content : Content}
    (h : Content.ofValues? values = some content) :
    ∃ first rest, values = first :: rest ∧ content = .enum first rest := by
  cases values with
  | nil => cases h
  | cons first rest =>
    cases h
    exact ⟨first, rest, rfl, rfl⟩

theorem enumPlan_isOf (n : Node) (entries : List (String × String)) :
    (enumPlan entries).IsOf n := by
  cases entries with
  | nil => trivial
  | cons => rfl

theorem literalPlan_isOf (n : Node) (values : List Value) : (literalPlan values).IsOf n := by
  unfold literalPlan
  split
  · rfl
  · rfl
  · rfl
  · split
    · rename_i htexts
      obtain ⟨texts, -, hvalues⟩ := Option.bind_eq_some_iff.1 htexts
      obtain ⟨first, rest, -, rfl⟩ := ofValues?_eq_some hvalues
      rfl
    · trivial
  · trivial

theorem barePlan_isOf (n : Node) (tag : String) : (barePlan tag).IsOf n := by
  unfold barePlan
  split <;> trivial

/-- What a node is planned as stems from the node. -/
theorem plan_isOf {n : Node} {plan : Plan} (h : n.plan = .ok plan) : plan.IsOf n := by
  obtain ⟨kind, checks, description⟩ := n
  cases kind with
  | enum entries => exact Except.ok.inj h ▸ enumPlan_isOf _ entries
  | literal values => exact Except.ok.inj h ▸ literalPlan_isOf _ values
  | object shape =>
    cases h
    simp [Plan.IsOf, Value.shape?]
  | record key value =>
    cases h
    exact ⟨key, rfl⟩
  | intersection left right =>
    obtain ⟨shape, hshape, rfl⟩ | ⟨-, rfl⟩ := plan_intersection h
    · exact hshape
    · trivial
  | bare tag => exact plan_bare h ▸ barePlan_isOf _ tag
  | string | number | boolean | date | array | tuple | union =>
    cases h
    rfl
  | _ =>
    cases h
    trivial

/-- The values to choose from are the keys of the node or the texts of a literal. -/
theorem kind_of_enumLeaf {n : Node} {first : String} {rest : List String}
    (h : n.plan = .ok (.leaf (.enum first rest))) :
    n.kind.keys = first :: rest ∨ n.kind = .literal ((first :: rest).map Value.text) := by
  obtain ⟨kind, checks, description⟩ := n
  cases kind with
  | enum entries =>
    cases entries with
    | nil => cases h
    | cons =>
      cases h
      exact .inl rfl
  | literal values =>
    have hliteral : literalPlan values = .leaf (.enum first rest) := Except.ok.inj h
    unfold literalPlan at hliteral
    split at hliteral
    · cases hliteral
    · cases hliteral
    · cases hliteral
    · split at hliteral
      · rename_i htexts
        cases hliteral
        obtain ⟨texts, htexts, hvalues⟩ := Option.bind_eq_some_iff.1 htexts
        obtain ⟨_, _, rfl, heq⟩ := ofValues?_eq_some hvalues
        cases heq
        exact .inr (congrArg Kind.literal (allTexts?_eq_some htexts))
      · cases hliteral
    · cases hliteral
  | intersection left right =>
    obtain ⟨_, -, heq⟩ | ⟨-, heq⟩ := plan_intersection h <;> cases heq
  | bare tag =>
    have hbare := plan_bare h
    unfold barePlan at hbare
    split at hbare <;> cases hbare
  | _ => cases h

/-! ## Children -/

/-- The values that the children of a plan are made of. -/
def Plan.values : Plan → List Value
  | .object shape => shape.map Prod.snd
  | .array element => [element]
  | .tuple items => items
  | .record value => [value]
  | .union _ options => options
  | _ => []

theorem Plan.IsChildless.values_eq {plan : Plan} (h : plan.IsChildless) : plan.values = [] := by
  cases plan with
  | leaf | hollow | refused => rfl
  | object | array | tuple | record | union => cases h

/-- The values that a plan goes on with lie inside the node. -/
theorem inside_of_plan {n : Node} {plan : Plan} (h : n.plan = .ok plan) :
    ∀ v ∈ plan.values, v.Inside (.node n) := by
  have hchildless (h : plan.IsChildless) : ∀ v ∈ plan.values, v.Inside (.node n) := by
    simp [h.values_eq]
  obtain ⟨kind, checks, description⟩ := n
  cases kind with
  | object | array | tuple | union =>
    cases h
    exact fun v hv => .deeper hv (.self v)
  | record key value =>
    cases h
    exact fun v hv => .deeper (List.mem_cons_of_mem key hv) (.self v)
  | intersection left right =>
    obtain ⟨shape, hshape, rfl⟩ | ⟨-, rfl⟩ := plan_intersection h
    · exact List.forall_mem_map.2 (inside_of_shape hshape).members
    · exact hchildless trivial
  | enum entries => exact hchildless (Except.ok.inj h ▸ enumPlan_isChildless entries)
  | literal values => exact hchildless (Except.ok.inj h ▸ literalPlan_isChildless values)
  | bare tag => exact hchildless (plan_bare h ▸ barePlan_isChildless tag)
  | _ =>
    cases h
    exact hchildless trivial

/-- One step of the walk makes the field of a value inside the other one. -/
def Field.ComesFrom (f : Field) (v : Value) : Prop :=
  ∃ u : Value, u.Inside v ∧ ∃ path name warnings, (fieldOf path name u).run = .ok (f, warnings)

/-- A field that comes from a value comes from every value around it. -/
theorem Field.ComesFrom.trans {f : Field} {u v : Value} (h : f.ComesFrom u) (hu : u.Inside v) :
    f.ComesFrom v :=
  h.imp fun _ hw => ⟨hw.1.trans hu, hw.2⟩

/-- Each field of a shape was read from a member of the shape. -/
theorem exists_member_of_fieldsOf {path : String} : ∀ {shape : Shape} {fields : List Field}
    {warnings : List String}, (fieldsOf path shape).run = .ok (fields, warnings) →
      ∀ f ∈ fields, ∃ e ∈ shape, ∃ path' more, (fieldOf path' e.1 e.2).run = .ok (f, more)
  | [], _, _, h => by
    rw [fieldsOf, Warned.run_pure] at h
    cases h
    simp
  | (name, v) :: rest, _, _, h => by
    obtain ⟨f, first, others, more, hf, hothers, rfl, -⟩ := fieldsOf_cons.1 h
    intro g hg
    rcases List.mem_cons.1 hg with rfl | hg
    · exact ⟨(name, v), List.mem_cons_self, _, _, hf⟩
    · obtain ⟨e, he, hfrom⟩ := exists_member_of_fieldsOf hothers g hg
      exact ⟨e, List.mem_cons_of_mem _ he, hfrom⟩

/-- Each field of a shape comes from the value of a member. -/
theorem fieldsOf_comesFrom {path : String} {shape : Shape} {fields : List Field}
    {warnings : List String} (h : (fieldsOf path shape).run = .ok (fields, warnings)) :
    ∀ f ∈ fields, ∃ e ∈ shape, f.ComesFrom e.2 := by
  intro f hf
  obtain ⟨e, he, _, _, hfield⟩ := exists_member_of_fieldsOf h f hf
  exact ⟨e, he, e.2, .self e.2, _, _, _, hfield⟩

/-- The first element is read before the others, and so are its warnings. -/
theorem elementsOf_cons {path : String} {index : Nat} {v : Value} {rest : List Value}
    {fields : List Field} {warnings : List String}
    (h : (elementsOf path index (v :: rest)).run = .ok (fields, warnings)) :
    ∃ f first others more,
      (fieldOf (below path (natText index)) (natText index) v).run = .ok (f, first) ∧
        (elementsOf path (index + 1) rest).run = .ok (others, more) ∧ fields = f :: others ∧
          warnings = first ++ more := by
  rw [elementsOf] at h
  simp only [Warned.run_bind, Warned.run_pure, Except.ok.injEq, Prod.mk.injEq] at h
  obtain ⟨f, first, _, hf, ⟨others, more, _, hothers, ⟨rfl, rfl⟩, rfl⟩, rfl⟩ := h
  exact ⟨f, first, others, more, hf, hothers, rfl, by simp⟩

/-- Each element of a tuple comes from one of its items. -/
theorem elementsOf_comesFrom {path : String} : ∀ {items : List Value} {index : Nat}
    {fields : List Field} {warnings : List String},
    (elementsOf path index items).run = .ok (fields, warnings) →
      ∀ f ∈ fields, ∃ v ∈ items, f.ComesFrom v
  | [], _, _, _, h => by
    rw [elementsOf, Warned.run_pure] at h
    cases h
    simp
  | v :: rest, _, _, _, h => by
    obtain ⟨f, first, others, more, hf, hothers, rfl, -⟩ := elementsOf_cons h
    intro g hg
    rcases List.mem_cons.1 hg with rfl | hg
    · exact ⟨v, List.mem_cons_self, v, .self v, _, _, _, hf⟩
    · obtain ⟨w, hw, hfrom⟩ := elementsOf_comesFrom hothers g hg
      exact ⟨w, List.mem_cons_of_mem v hw, hfrom⟩

/-- The first variant is read before the others, and so are its warnings. -/
theorem variantsOf_cons {path : String} {discriminator : Option String} {index : Nat} {v : Value}
    {rest : List Value} {variants : List Variant} {warnings : List String}
    (h : (variantsOf path discriminator index (v :: rest)).run = .ok (variants, warnings)) :
    ∃ variant first others more,
      (variantOf path discriminator index v).run = .ok (variant, first) ∧
        (variantsOf path discriminator (index + 1) rest).run = .ok (others, more) ∧
          variants = variant :: others ∧ warnings = first ++ more := by
  rw [variantsOf] at h
  simp only [Warned.run_bind, Warned.run_pure, Except.ok.injEq, Prod.mk.injEq] at h
  obtain ⟨variant, first, _, hv, ⟨others, more, _, hothers, ⟨rfl, rfl⟩, rfl⟩, rfl⟩ := h
  exact ⟨variant, first, others, more, hv, hothers, rfl, by simp⟩

/-- A variant is that of a shape, or that of a single option. -/
theorem variantOf_cases {path : String} {discriminator : Option String} {index : Nat} {v : Value}
    {variant : Variant} {warnings : List String}
    (h : (variantOf path discriminator index v).run = .ok (variant, warnings)) :
    (∃ shape first more, taggedShape? discriminator v = .ok (some shape) ∧
        (tagOf path (discriminator.getD "") index shape).run = .ok (variant.tag, first) ∧
          (fieldsOf (below path variant.tag) shape).run = .ok (variant.fields, more) ∧
            warnings = first ++ more) ∨
      ∃ f more, taggedShape? discriminator v = .ok none ∧
        (fieldOf (below path (optionName index)) (optionName index) v).run = .ok (f, more) ∧
          variant = ⟨variantTag index, [f]⟩ ∧ warnings = more := by
  cases hshape : taggedShape? discriminator v with
  | error e =>
    rw [variantOf] at h
    split at h <;> simp_all [Warned.fail]
  | ok o =>
    cases o with
    | none =>
      right
      rw [variantOf] at h
      split at h
      · simp_all
      · simp_all
      · simp only [Warned.run_bind, Warned.run_pure, Except.ok.injEq, Prod.mk.injEq] at h
        obtain ⟨f, more, _, hf, ⟨rfl, rfl⟩, rfl⟩ := h
        exact ⟨f, more, rfl, hf, rfl, List.append_nil more⟩
    | some shape =>
      left
      rw [variantOf] at h
      split at h
      · simp_all
      · rename_i shape' hshape'
        obtain rfl : shape = shape' := by simp_all
        simp only [Warned.run_bind, Warned.run_pure, Except.ok.injEq, Prod.mk.injEq] at h
        obtain ⟨tag, first, _, htag, ⟨fields, more, _, hfields, ⟨rfl, rfl⟩, rfl⟩, rfl⟩ := h
        exact ⟨shape, first, more, rfl, htag, hfields, by simp⟩
      · simp_all

/-- The shape of a tagged member lies inside the member. -/
theorem inside_of_taggedShape {discriminator : Option String} {v : Value} {shape : Shape}
    (h : taggedShape? discriminator v = .ok (some shape)) : shape.Inside v := by
  obtain ⟨u, hu, hshape⟩ := exists_unwrap_of_taggedShape h
  exact (inside_of_shape hshape).trans (inside_of_value_unwrap hu)

/-- The shape of a tagged member has distinct keys. -/
theorem nodup_keys_of_taggedShape {discriminator : Option String} {v : Value} {shape : Shape}
    (hv : v.HasDistinctKeys) (h : taggedShape? discriminator v = .ok (some shape)) :
    (shape.map Prod.fst).Nodup := by
  obtain ⟨u, hu, hshape⟩ := exists_unwrap_of_taggedShape h
  exact nodup_keys_of_shape (hv.of_inside (inside_of_value_unwrap hu)) hshape

theorem fieldsOf_comesFrom_value {path : String} {shape : Shape} {fields : List Field}
    {warnings : List String} {v : Value} (h : (fieldsOf path shape).run = .ok (fields, warnings))
    (hshape : shape.Inside v) : ∀ f ∈ fields, f.ComesFrom v := by
  intro f hf
  obtain ⟨e, he, hfrom⟩ := fieldsOf_comesFrom h f hf
  exact hfrom.trans (hshape.members e he)

/-- The fields of a variant come from the member it was read from. -/
theorem variantOf_comesFrom {path : String} {discriminator : Option String} {index : Nat}
    {v : Value} {variant : Variant} {warnings : List String}
    (h : (variantOf path discriminator index v).run = .ok (variant, warnings)) :
    ∀ f ∈ variant.fields, f.ComesFrom v := by
  rcases variantOf_cases h with ⟨shape, _, _, hshape, -, hfields, -⟩ | ⟨f, _, -, hf, rfl, -⟩
  · exact fieldsOf_comesFrom_value hfields (inside_of_taggedShape hshape)
  · intro g hg
    obtain rfl := List.mem_singleton.1 hg
    exact ⟨v, .self v, _, _, _, hf⟩

/-- The fields of the variants of a union come from its options. -/
theorem variantsOf_comesFrom {path : String} {discriminator : Option String} :
    ∀ {options : List Value} {index : Nat} {variants : List Variant} {warnings : List String},
      (variantsOf path discriminator index options).run = .ok (variants, warnings) →
        ∀ variant ∈ variants, ∀ f ∈ variant.fields, ∃ v ∈ options, f.ComesFrom v
  | [], _, _, _, h => by
    rw [variantsOf, Warned.run_pure] at h
    cases h
    simp
  | v :: rest, _, _, _, h => by
    obtain ⟨variant, first, others, more, hv, hothers, rfl, -⟩ := variantsOf_cons h
    intro other hother f hf
    rcases List.mem_cons.1 hother with rfl | hother
    · exact ⟨v, List.mem_cons_self, variantOf_comesFrom hv f hf⟩
    · obtain ⟨w, hw, hfrom⟩ := variantsOf_comesFrom hothers other hother f hf
      exact ⟨w, List.mem_cons_of_mem v hw, hfrom⟩

/-- A content without a walk has no fields below it. -/
theorem leaf_children {n : Node} {content : Content} (h : n.plan = .ok (.leaf content)) :
    content.children = [] := by
  have hleaf : content.type.isComposite = false := plan_isOf h
  cases content with
  | object | array | tuple | record | union => cases hleaf
  | _ => rfl

/-- The fields below a content come from the values of its plan. -/
theorem Plan.read_comesFrom {n : Node} {plan : Plan} {path : String} {content : Content}
    {warnings : List String} (hplan : n.plan = .ok plan)
    (h : (plan.read path).run = .ok (content, warnings)) :
    ∀ f ∈ content.children, ∃ v ∈ plan.values, f.ComesFrom v := by
  cases Plan.makes_of_read h with
  | leaf => simp [leaf_children hplan]
  | @object shape _ _ hfields =>
    intro f hf
    obtain ⟨e, he, hfrom⟩ := fieldsOf_comesFrom hfields f hf
    exact ⟨e.2, List.mem_map_of_mem he, hfrom⟩
  | @array element _ _ hf =>
    intro g hg
    obtain rfl := List.mem_singleton.1 hg
    exact ⟨element, List.mem_singleton_self _, element, .self _, _, _, _, hf⟩
  | tuple hfields => exact elementsOf_comesFrom hfields
  | @record value _ _ hf =>
    intro g hg
    obtain rfl := List.mem_singleton.1 hg
    exact ⟨value, List.mem_singleton_self _, value, .self _, _, _, _, hf⟩
  | union hvariants =>
    intro f hf
    obtain ⟨variant, hvariant, hf⟩ := List.mem_flatMap.1 hf
    exact variantsOf_comesFrom hvariants variant hvariant f hf

/-! ## One step and all steps -/

/-- A field has the parts that were peeled off, a label from its name and no reference. -/
theorem Peeled.of_field {p : Peeled} {name : String} {c : Constraints} {content : Content}
    {f : Field} (h : p.field name c content = .ok f) :
    ∃ description, descriptionText p.description = .ok description ∧
      f = ⟨name, Text.label name, description, p.isOptional, p.isNullable, c, content, none⟩ := by
  unfold Peeled.field at h
  split at h
  · cases h
  · rename_i description hd
    cases h
    exact ⟨description, hd, rfl⟩

/-- A description that is kept is a text that is not empty. -/
theorem descriptionText_eq_some {v : Value} {s : String}
    (h : descriptionText v = .ok (some s)) : v = .text s ∧ s.isEmpty = false := by
  unfold descriptionText at h
  split at h
  · rename_i htruthy
    split at h
    · cases h
      exact ⟨rfl, by simpa [Value.truthy] using htruthy⟩
    · cases h
  · cases h

/-- The description of a field is that of a node inside its value. -/
theorem inside_of_descriptionText {v : Value} {p : Peeled} {s : String} (hp : v.peel = .ok p)
    (h : descriptionText p.description = .ok (some s)) :
    s.isEmpty = false ∧ ∃ m : Node, (Value.node m).Inside v ∧ m.description = .text s := by
  obtain ⟨htext, hne⟩ := descriptionText_eq_some h
  refine ⟨hne, ?_⟩
  rcases (inside_of_peel hp).2 with hnull | ⟨m, hm, hd⟩
  · rw [hnull] at htext
    cases htext
  · exact ⟨m, hm, hd ▸ htext⟩

/-- What a field of one step is made of: the node of the value, and either a refusal or the
constraints and the content of the node. -/
theorem fieldOf_cases {path name : String} {v : Value} {f : Field} {warnings : List String}
    (h : (fieldOf path name v).run = .ok (f, warnings)) :
    ∃ p : Peeled, v.peel = .ok p ∧ ∃ description, descriptionText p.description = .ok description ∧
      ∃ c content, f = ⟨name, Text.label name, description, p.isOptional, p.isNullable, c, content,
        none⟩ ∧
        ((c = {} ∧ content = .string) ∨
          ∃ plan first second, p.node.plan = .ok plan ∧
            (p.node.fieldConstraints path).run = .ok (c, first) ∧
              (plan.read path).run = .ok (content, second)) := by
  obtain ⟨p, plan, hp, hplan, hread⟩ := exists_plan_of_fieldOf h
  refine ⟨p, hp, ?_⟩
  cases Peeled.becomes_of_read hread with
  | refused hfield =>
    obtain ⟨description, hd, rfl⟩ := Peeled.of_field hfield
    exact ⟨description, hd, {}, .string, rfl, .inl ⟨rfl, rfl⟩⟩
  | read _ hc hcontent hfield =>
    obtain ⟨description, hd, rfl⟩ := Peeled.of_field hfield
    exact ⟨description, hd, _, _, rfl, .inr ⟨plan, _, _, hplan, hc, hcontent⟩⟩

/-- The children of a field come from the value that the field was read from. -/
theorem children_comesFrom {path name : String} {v : Value} {f : Field} {warnings : List String}
    (h : (fieldOf path name v).run = .ok (f, warnings)) : ∀ c ∈ f.children, c.ComesFrom v := by
  obtain ⟨p, hp, _, -, _, content, rfl, ⟨-, rfl⟩ | ⟨plan, _, _, hplan, -, hread⟩⟩ := fieldOf_cases h
  · exact fun c hc => absurd hc List.not_mem_nil
  · intro c hc
    obtain ⟨u, hu, hfrom⟩ := Plan.read_comesFrom hplan hread c hc
    exact hfrom.trans ((inside_of_plan hplan u hu).trans (inside_of_peel hp).1)

/-- A field at any depth of a field comes from a value inside the one of the field. -/
theorem Field.ComesFrom.within {f g : Field} {v : Value} (h : f.ComesFrom v) (hg : g.Within f) :
    g.ComesFrom v := by
  induction hg with
  | self => exact h
  | deeper hc _ ih =>
    obtain ⟨u, hu, _, _, _, hf⟩ := h
    exact ih ((children_comesFrom hf _ hc).trans hu)

/-- The root shape of a schema, and the fields and the warnings of a form, which are made of it. -/
theorem fieldsOf_of_introspect {schema : Value} {naming : Naming} {steps : Datum} {form : Form}
    (h : introspect schema naming steps = .ok form) :
    ∃ shape, schema.shape? = .ok (some shape) ∧
      (fieldsOf "" shape).run = .ok (form.fields, form.warnings) ∧ form.naming = naming := by
  unfold introspect at h
  split at h
  · cases h
  · rename_i shape hshape
    split at h
    · cases h
    · rename_i fields warnings hfields
      split at h
      · cases h
      · cases h
        refine ⟨shape, ?_, hfields, rfl⟩
        unfold rootShape at hshape
        split at hshape
        · split at hshape
          · cases hshape
          · cases hshape
            assumption
          · cases hshape
        · cases hshape

/-- The fields of a form, at any depth, come from the schema. -/
theorem introspect_comesFrom {schema : Value} {naming : Naming} {steps : Datum} {form : Form}
    (h : introspect schema naming steps = .ok form) :
    ∀ root ∈ form.fields, ∀ g : Field, g.Within root → g.ComesFrom schema := by
  obtain ⟨shape, hshape, hfields, -⟩ := fieldsOf_of_introspect h
  intro root hroot g hg
  exact (fieldsOf_comesFrom_value hfields (inside_of_shape hshape) root hroot).within hg

end FormSchema
