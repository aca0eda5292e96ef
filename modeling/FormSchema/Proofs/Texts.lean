import FormSchema.Proofs.Origin
import FormSchema.Text.Quoted

/-!
# Where the texts of a form come from

The texts of a form are those of its schema, apart from the few that the walk gives itself. So
what holds of all keys, descriptions, discriminators and literal values of a schema, and of the
words that the walk gives, holds of all texts of the form (`introspect_hasTexts`). The words are
made of letters, digits and underscores.
-/

namespace FormSchema

variable {P : String → Prop}

/-! ## Texts of schemas and fields -/

/-- The texts of a node that a form can show. -/
structure Node.HasTexts (P : String → Prop) (n : Node) : Prop where
  keys : ∀ key ∈ n.kind.keys, P key
  description : ∀ s, n.description = .text s → P s
  literal : ∀ values, n.kind = .literal values → ∀ v ∈ values, P v.display
  discriminator : ∀ options key, n.kind = .union options (some key) → P key

/-- What holds of the texts of all nodes inside a value. -/
def Value.HasTexts (P : String → Prop) (v : Value) : Prop :=
  ∀ n : Node, (Value.node n).Inside v → n.HasTexts P

theorem Value.HasTexts.of_inside {u v : Value} (h : v.HasTexts P) (hu : u.Inside v) :
    u.HasTexts P :=
  fun n hn => h n (hn.trans hu)

/-- The texts that belong to a content itself. -/
def Content.HasTexts (P : String → Prop) : Content → Prop
  | .enum first rest => ∀ s ∈ first :: rest, P s
  | .union discriminator variants => (∀ key ∈ discriminator, P key) ∧ ∀ v ∈ variants, P v.tag
  | _ => True

/-- The texts of a field, with the names of the fields right below. -/
structure Field.HasTexts (P : String → Prop) (f : Field) : Prop where
  description : ∀ s ∈ f.description, P s
  content : f.content.HasTexts P
  names : ∀ g ∈ f.children, P g.name

/-- The texts made of letters, digits and underscores are among those of the class. -/
def HoldsWords (P : String → Prop) : Prop :=
  ∀ s : String, s.toList.all Text.identifierPart = true → P s

/-! ## The words that the walk gives -/

theorem natText_isWord (n : Nat) : (natText n).toList.all Text.identifierPart = true := by
  rw [natText, String.toList_ofList, List.all_eq_true]
  intro c hc
  have hdigit : c.isDigit = true := Nat.isDigit_of_mem_toDigits (by decide) (by decide) hc
  simp [Text.identifierPart, hdigit]

theorem optionName_isWord (index : Nat) :
    (optionName index).toList.all Text.identifierPart = true := by
  rw [optionName, String.toList_append, List.all_append, natText_isWord]
  rfl

theorem variantTag_isWord (index : Nat) :
    (variantTag index).toList.all Text.identifierPart = true := by
  rw [variantTag, String.toList_append, List.all_append, natText_isWord]
  rfl

/-! ## Names -/

/-- The keys of a shape are texts of the value. -/
theorem keys_of_shape {v : Value} {shape : Shape} (h : v.HasTexts P) (hshape : shape.Inside v) :
    ∀ key ∈ shape.map Prod.fst, P key := by
  intro key hkey
  obtain ⟨n, hn, hmem⟩ := hshape.keys key hkey
  exact (h n hn).keys key hmem

theorem fieldsOf_hasNames {path : String} {v : Value} {shape : Shape} {fields : List Field}
    {warnings : List String} (h : v.HasTexts P) (hshape : shape.Inside v)
    (hfields : (fieldsOf path shape).run = .ok (fields, warnings)) : ∀ f ∈ fields, P f.name := by
  intro f hf
  refine keys_of_shape h hshape f.name ?_
  rw [← fieldsOf_names hfields]
  exact List.mem_map_of_mem hf

theorem elementsOf_hasNames {path : String} (hwords : HoldsWords P) : ∀ {items : List Value}
    {index : Nat} {fields : List Field} {warnings : List String},
    (elementsOf path index items).run = .ok (fields, warnings) → ∀ f ∈ fields, P f.name
  | [], _, _, _, h => by
    rw [elementsOf, Warned.run_pure] at h
    cases h
    simp
  | v :: rest, _, _, _, h => by
    obtain ⟨f, _, others, _, hf, hothers, rfl, -⟩ := elementsOf_cons h
    refine List.forall_mem_cons.2 ⟨?_, elementsOf_hasNames hwords hothers⟩
    rw [fieldOf_name hf]
    exact hwords _ (natText_isWord _)

/-! ## Variants -/

/-- The tag of a member is the first value of a literal inside it. -/
theorem tag?_hasText {v : Value} {shape : Shape} {key tag : String} (h : v.HasTexts P)
    (hshape : shape.Inside v) (htag : tag? shape key = .ok (some tag)) : P tag := by
  unfold tag? at htag
  split at htag
  · cases htag
  · cases htag
  · rename_i w _ hlookup
    split at htag
    · cases htag
    · rename_i u hu
      have hinner : (Value.node u.inner).Inside v :=
        (inside_of_value_unwrap hu).trans (hshape.members _ (mem_of_lookup hlookup))
      unfold Node.literalTag? at htag
      split at htag
      · rename_i first rest hkind
        obtain ⟨-, heq⟩ := writing_eq_ok.1 htag
        cases heq
        exact (h u.inner hinner).literal _ hkind first List.mem_cons_self
      · cases htag

theorem tagOf_hasText {path key tag : String} {index : Nat} {v : Value} {shape : Shape}
    {warnings : List String} (hwords : HoldsWords P) (h : v.HasTexts P) (hshape : shape.Inside v)
    (htag : (tagOf path key index shape).run = .ok (tag, warnings)) : P tag := by
  rw [tagOf, Warned.run_bind] at htag
  obtain ⟨o, _, _, ho, hrest, -⟩ := htag
  rw [Warned.run_ofResult] at ho
  cases o with
  | some t =>
    cases hrest
    exact tag?_hasText h hshape ho.1
  | none =>
    cases hrest
    exact hwords _ (variantTag_isWord index)

/-- The tag of a variant and the names of its fields. -/
def Variant.HasTexts (P : String → Prop) (variant : Variant) : Prop :=
  P variant.tag ∧ ∀ f ∈ variant.fields, P f.name

theorem variantOf_hasTexts {path : String} {discriminator : Option String} {index : Nat}
    {v : Value} {variant : Variant} {warnings : List String} (hwords : HoldsWords P)
    (h : v.HasTexts P)
    (hv : (variantOf path discriminator index v).run = .ok (variant, warnings)) :
    variant.HasTexts P := by
  rcases variantOf_cases hv with ⟨shape, _, _, hshape, htag, hfields, -⟩ | ⟨f, _, -, hf, rfl, -⟩
  · have hinside := inside_of_taggedShape hshape
    exact ⟨tagOf_hasText hwords h hinside htag, fieldsOf_hasNames h hinside hfields⟩
  · refine ⟨hwords _ (variantTag_isWord index), List.forall_mem_singleton.2 ?_⟩
    rw [fieldOf_name hf]
    exact hwords _ (optionName_isWord index)

theorem variantsOf_hasTexts {path : String} {discriminator : Option String}
    (hwords : HoldsWords P) : ∀ {options : List Value} {index : Nat} {variants : List Variant}
      {warnings : List String}, (∀ v ∈ options, v.HasTexts P) →
        (variantsOf path discriminator index options).run = .ok (variants, warnings) →
          ∀ variant ∈ variants, variant.HasTexts P
  | [], _, _, _, _, h => by
    rw [variantsOf, Warned.run_pure] at h
    cases h
    simp
  | v :: rest, _, _, _, hoptions, h => by
    obtain ⟨variant, _, others, _, hv, hothers, rfl, -⟩ := variantsOf_cons h
    obtain ⟨hfirst, hrest⟩ := List.forall_mem_cons.1 hoptions
    exact List.forall_mem_cons.2
      ⟨variantOf_hasTexts hwords hfirst hv, variantsOf_hasTexts hwords hrest hothers⟩

/-! ## Contents -/

/-- The texts of a content that is a leaf are those of its node. -/
theorem leaf_hasTexts {n : Node} {content : Content} (h : n.HasTexts P)
    (hplan : n.plan = .ok (.leaf content)) : content.HasTexts P := by
  have hleaf : content.type.isComposite = false := plan_isOf hplan
  cases content with
  | object | array | tuple | record | union => cases hleaf
  | enum first rest =>
    intro s hs
    rcases kind_of_enumLeaf hplan with hkeys | hkind
    · exact h.keys s (hkeys ▸ hs)
    · exact h.literal _ hkind (.text s) (List.mem_map_of_mem hs)
  | _ => trivial

/-- The texts of a content and the names of the fields below it are among those of its node. -/
theorem Plan.read_hasTexts {n : Node} {plan : Plan} {path : String} {content : Content}
    {warnings : List String} (hwords : HoldsWords P) (h : (Value.node n).HasTexts P)
    (hplan : n.plan = .ok plan) (hread : (plan.read path).run = .ok (content, warnings)) :
    content.HasTexts P ∧ ∀ g ∈ content.children, P g.name := by
  have hof := plan_isOf hplan
  cases Plan.makes_of_read hread with
  | leaf => exact ⟨leaf_hasTexts (h n (.self _)) hplan, by simp [leaf_children hplan]⟩
  | object hfields => exact ⟨trivial, fieldsOf_hasNames h (inside_of_shape hof) hfields⟩
  | array hf =>
    refine ⟨trivial, List.forall_mem_singleton.2 ?_⟩
    rw [fieldOf_name hf]
    exact hwords _ (by decide)
  | tuple hfields => exact ⟨trivial, elementsOf_hasNames hwords hfields⟩
  | record hf =>
    refine ⟨trivial, List.forall_mem_singleton.2 ?_⟩
    rw [fieldOf_name hf]
    exact hwords _ (by decide)
  | @union discriminator options _ _ hvariants =>
    have htexts := variantsOf_hasTexts hwords
      (fun v hv => h.of_inside (inside_of_plan hplan v hv)) hvariants
    refine ⟨⟨?_, fun v hv => (htexts v hv).1⟩, fun g hg => ?_⟩
    · rintro key rfl
      exact (h n (.self _)).discriminator options key hof
    · obtain ⟨v, hv, hg⟩ := List.mem_flatMap.1 hg
      exact (htexts v hv).2 g hg

/-! ## Fields -/

/-- The texts of a field that comes from a value are among those of the value. -/
theorem hasTexts_of_comesFrom {f : Field} {v : Value} (hwords : HoldsWords P) (h : v.HasTexts P)
    (hf : f.ComesFrom v) : f.HasTexts P := by
  obtain ⟨u, hu, path, name, _, hfield⟩ := hf
  obtain ⟨p, hp, description, hdescription, c, content, rfl, hcontent⟩ := fieldOf_cases hfield
  have hnode := (inside_of_peel hp).1
  have htexts : content.HasTexts P ∧ ∀ g ∈ content.children, P g.name := by
    rcases hcontent with ⟨-, rfl⟩ | ⟨plan, _, _, hplan, -, hread⟩
    · exact ⟨trivial, fun g hg => absurd hg List.not_mem_nil⟩
    · exact Plan.read_hasTexts hwords (h.of_inside (hnode.trans hu)) hplan hread
  refine ⟨fun s hs => ?_, htexts.1, htexts.2⟩
  obtain rfl : description = some s := hs
  obtain ⟨-, m, hm, hd⟩ := inside_of_descriptionText hp hdescription
  exact (h m (hm.trans hu)).description s hd

theorem Field.HasTexts.name_of_within {f g : Field} (hname : P f.name)
    (h : ∀ d : Field, d.Within f → d.HasTexts P) (hg : g.Within f) : P g.name := by
  induction hg with
  | self => exact hname
  | deeper hc _ ih =>
    exact ih ((h _ (.self _)).names _ hc) fun d hd => h d (.deeper hc hd)

/-- What holds of the texts of a schema holds of all texts of its form. -/
theorem introspect_hasTexts {schema : Value} {naming : Naming} {steps : Datum} {form : Form}
    (hwords : HoldsWords P) (htexts : schema.HasTexts P)
    (h : introspect schema naming steps = .ok form) :
    ∀ root ∈ form.fields, ∀ f : Field, f.Within root → P f.name ∧ f.HasTexts P := by
  obtain ⟨shape, hshape, hfields, -⟩ := fieldsOf_of_introspect h
  intro root hroot f hf
  have hall : ∀ d : Field, d.Within root → d.HasTexts P := fun d hd =>
    hasTexts_of_comesFrom hwords htexts (introspect_comesFrom h root hroot d hd)
  have hname := fieldsOf_hasNames htexts (inside_of_shape hshape) hfields root hroot
  exact ⟨Field.HasTexts.name_of_within hname hall hf, hall f hf⟩

end FormSchema
