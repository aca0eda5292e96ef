import FormSchema.Proofs.Origin
import FormSchema.Proofs.Provenance
import FormSchema.Proofs.Literals

/-!
# Schemas with regular forms

A node is restorable if its numbers are integers that can be read, its texts stay in the basic
plane, its patterns are such as the reader finds in pattern literals, and its tagged members have
tags. A schema that is built and has only restorable nodes at every depth has a form with only
regular fields (`isRegular_of_comesFrom`).
-/

namespace FormSchema

open Text (isBasic)

/-! ## Restorable nodes -/

/-- An integer that is not too long to be read. -/
def Number.IsShortInteger (k : Number) : Prop :=
  ∃ i : Int, k = .int i ∧ i.natAbs < 10 ^ integerDigitLimit

/-- The pattern is that of a pattern literal in some text. -/
def IsWrittenPattern (s : String) : Prop :=
  ∃ code ts, Source.tokenize code = .ok ts ∧ ∃ t ∈ ts.items, t.token = .pattern s

/-- The numbers of the check are short integers, and its pattern is that of a literal. -/
structure Check.IsRestorable (c : Check) : Prop where
  minimum : ∀ k ∈ c.minimum, k.IsShortInteger
  maximum : ∀ k ∈ c.maximum, k.IsShortInteger
  value : c.name = "string_format" ∨ c.value = .null ∨ ∃ k, c.value = .number k ∧ k.IsShortInteger
  pattern : ∀ s ∈ c.pattern, IsWrittenPattern s

/-- The value is an object, perhaps wrapped, with a bare literal of one text at the key. -/
def Value.IsTagged (key : String) (v : Value) : Prop :=
  ∃ shape n tag, taggedShape? (some key) v = .ok (some shape) ∧
    shape.lookup key = some (.node n) ∧ n.kind = .literal [.text tag] ∧
      n.description.truthy = false

/-- A node whose field is read back as it was. -/
structure Node.IsRestorable (n : Node) : Prop where
  bare : ∀ tag, n.kind = .bare tag → n.checks = []
  checks : ∀ c ∈ n.checks, c.IsRestorable
  keys : ∀ key ∈ n.kind.keys, isBasic key = true
  description : ∀ s, n.description = .text s → isBasic s = true
  literal : ∀ values, n.kind = .literal values →
    values.Nodup ∧ ∀ s, .text s ∈ values → isBasic s = true
  union : ∀ options key, n.kind = .union options (some key) →
    key.isEmpty = false ∧ isBasic key = true ∧ ∀ v ∈ options, v.IsTagged key

/-- All nodes inside a value are restorable. -/
def Value.AllRestorable (v : Value) : Prop :=
  ∀ n : Node, (Value.node n).Inside v → n.IsRestorable

theorem Value.AllRestorable.of_inside {u v : Value} (h : v.AllRestorable) (hu : u.Inside v) :
    u.AllRestorable :=
  fun n hn => h n (hn.trans hu)

theorem Number.IsShortInteger.isReadable {k : Number} (h : k.IsShortInteger) :
    k.IsReadable ∧ k.reread = k := by
  obtain ⟨i, rfl, hi⟩ := h
  exact ⟨hi, rfl⟩

theorem isPattern_of_isWritten {s : String} (h : IsWrittenPattern s) :
    Text.isPattern s = true ∧ Text.rereadPattern s.toList = s.toList := by
  obtain ⟨code, ts, htokens, t, ht, hpattern⟩ := h
  have hregular := Source.tokenize_isRegular htokens t ht
  rw [hpattern] at hregular
  exact hregular

/-! ## Constraints -/

/-- The numbers that the check was given satisfy the predicate. -/
structure Check.HasArguments (P : Number → Prop) (c : Check) : Prop where
  minimum : ∀ k ∈ c.minimum, P k
  maximum : ∀ k ∈ c.maximum, P k
  value : c.name = "string_format" ∨ c.value = .null ∨ ∃ k, c.value = .number k ∧ P k

theorem Check.IsRestorable.hasArguments {c : Check} (h : c.IsRestorable) :
    c.HasArguments Number.IsShortInteger :=
  ⟨h.minimum, h.maximum, h.value⟩

/-- What a check with integers gives is read as one of them. -/
theorem Check.HasArguments.of_reads {P : Number → Prop} {c : Check} {d : Datum} {k : Number}
    (h : c.HasArguments P) (hP : ∀ m, P m → ∃ i, m = .int i) (hd : c.Gives d) (hk : d.Reads k) :
    P k := by
  have hread {m : Number} (hm : P m) (hk : (Datum.number m).Reads k) : P k := by
    obtain ⟨i, rfl⟩ := hP m hm
    rcases hk with hk | ⟨j, hj, rfl⟩
    · cases hk
      exact hm
    · cases hj
      exact hm
  rcases hd with ⟨m, hm, rfl⟩ | ⟨m, hm, rfl⟩ | ⟨hname, rfl⟩
  · exact hread (h.minimum m hm) hk
  · exact hread (h.maximum m hm) hk
  · rcases h.value with hformat | hnull | ⟨m, hvalue, hm⟩
    · exact absurd hformat hname
    · rw [hnull] at hk
      rcases hk with hk | ⟨_, hk, -⟩ <;> cases hk
    · rw [hvalue] at hk
      exact hread hm hk

theorem numbers_empty (content : Content) : content.numbers {} = [] := by
  cases content <;> rfl

theorem pattern_empty (content : Content) : content.pattern? {} = none := by
  cases content <;> rfl

/-- The numbers that are written are among those that the checks were given. -/
theorem numbers_of_hasArguments {P : Number → Prop} {n : Node} {path : String} {c : Constraints}
    {warnings : List String} (h : ∀ check ∈ n.checks, check.HasArguments P)
    (hP : ∀ m, P m → ∃ i, m = .int i)
    (hc : (n.fieldConstraints path).run = .ok (c, warnings)) (content : Content) :
    ∀ k ∈ content.numbers c, P k := by
  rcases of_fieldConstraints hc with ⟨-, rfl⟩ | ⟨-, hfrom⟩
  · simp [numbers_empty]
  · intro k hk
    obtain ⟨check, hcheck, d, hgives, hreads⟩ := Node.constraints_numbers hfrom content k hk
    exact (h check hcheck).of_reads hP hgives hreads

theorem pattern_isWritten {n : Node} {path : String} {c : Constraints} {warnings : List String}
    (h : ∀ check ∈ n.checks, ∀ s ∈ check.pattern, IsWrittenPattern s)
    (hc : (n.fieldConstraints path).run = .ok (c, warnings)) (content : Content) :
    ∀ s ∈ content.pattern? c, s.isEmpty = false ∧ IsWrittenPattern s := by
  intro s hs
  cases content with
  | string => exact pattern_of_fieldConstraints h hc s hs
  | _ => cases hs

/-! ## Names -/

/-- The names of a shape in a restorable schema are keys. -/
theorem areKeys_of_shape {P : Number → Prop} {v : Value} {shape : Shape} (hsound : v.AllSound P)
    (h : v.AllRestorable) (hshape : v.shape? = .ok (some shape)) :
    AreKeys (shape.map Prod.fst) := by
  refine ⟨nodup_keys_of_shape hsound.hasDistinctKeys hshape, fun key hkey => ?_⟩
  obtain ⟨n, hn, hmem⟩ := (inside_of_shape hshape).keys key hkey
  exact (h n hn).keys key hmem

theorem areItems_of_elementsOf {path : String} : ∀ {items : List Value} {index : Nat}
    {fields : List Field} {warnings : List String},
    (elementsOf path index items).run = .ok (fields, warnings) → AreItems index fields
  | [], _, _, _, h => by
    rw [elementsOf, Warned.run_pure] at h
    cases h
    trivial
  | v :: rest, _, _, _, h => by
    obtain ⟨f, _, others, _, hf, hothers, rfl, -⟩ := elementsOf_cons h
    exact ⟨fieldOf_name hf, areItems_of_elementsOf hothers⟩

theorem areOptions_of_variantsOf {path : String} : ∀ {options : List Value} {index : Nat}
    {variants : List Variant} {warnings : List String},
    (variantsOf path none index options).run = .ok (variants, warnings) →
      AreOptions index variants
  | [], _, _, _, h => by
    rw [variantsOf, Warned.run_pure] at h
    cases h
    trivial
  | v :: rest, _, _, _, h => by
    obtain ⟨variant, _, others, _, hv, hothers, rfl, -⟩ := variantsOf_cons h
    rcases variantOf_cases hv with ⟨_, _, _, hshape, -⟩ | ⟨f, _, -, hf, rfl, -⟩
    · cases hshape
    · exact ⟨⟨rfl, f, rfl, fieldOf_name hf⟩, areOptions_of_variantsOf hothers⟩

/-! ## Tagged variants -/

/-- The field that a literal with one value becomes. -/
theorem fieldOf_literal {path name : String} {v u : Value} {p : Peeled} {content : Content}
    {f : Field} {warnings : List String} (hp : v.peel = .ok p) (hkind : p.node.kind = .literal [u])
    (hplan : literalPlan [u] = .leaf content) (h : (fieldOf path name v).run = .ok (f, warnings)) :
    ∃ description, descriptionText p.description = .ok description ∧
      f = ⟨name, Text.label name, description, p.isOptional, p.isNullable, {}, content, none⟩ := by
  have hleaf : p.node.plan = .ok (.leaf content) := by rw [Node.plan, hkind, ← hplan]
  have hfixed : p.node.fieldConstraints path = pure {} := by
    rw [Node.fieldConstraints, if_pos (by simp [Node.isFixed, hkind])]
  obtain ⟨q, hq, description, hdescription, c, other, rfl, -⟩ := fieldOf_cases h
  obtain rfl : p = q := by simpa [hp] using hq
  have hread : ((Plan.leaf content).read path).run = .ok (content, []) := rfl
  have hfield : (fieldOf path name v).run = _ :=
    fieldOf_of_read hp hdescription (by rw [hfixed]; rfl) hleaf hread
  refine ⟨description, hdescription, ?_⟩
  rw [h] at hfield
  exact (Prod.mk.inj (Except.ok.inj hfield)).1

theorem fieldOf_bareLiteral {n : Node} {tag path name : String} {f : Field}
    {warnings : List String} (hkind : n.kind = .literal [.text tag])
    (hd : n.description.truthy = false)
    (h : (fieldOf path name (.node n)).run = .ok (f, warnings)) : f = literalField name := by
  have hcore : n.kind.isCore = true := by rw [hkind]; rfl
  have hpeel := peel_of_unwrap (unwrap_of_isCore hcore) hcore
  have hnone : nearer (nearer .null n.description) n.description = .null := by
    simp [nearer, hd]
  rw [hnone] at hpeel
  obtain ⟨description, hdescription, rfl⟩ := fieldOf_literal hpeel hkind rfl h
  cases hdescription
  rfl

theorem areKeys_of_taggedShape {P : Number → Prop} {key : String} {v : Value} {shape : Shape}
    (hsound : v.AllSound P) (h : v.AllRestorable)
    (hshape : taggedShape? (some key) v = .ok (some shape)) : AreKeys (shape.map Prod.fst) := by
  refine ⟨nodup_keys_of_taggedShape hsound.hasDistinctKeys hshape, fun name hname => ?_⟩
  obtain ⟨n, hn, hmem⟩ := (inside_of_taggedShape hshape).keys name hname
  exact (h n hn).keys name hmem

/-- A tagged member becomes a variant with the literal of its tag. -/
theorem isTagged_of_variantOf {P : Number → Prop} {path key : String} {index : Nat} {v : Value}
    {variant : Variant} {warnings : List String} (hsound : v.AllSound P) (h : v.AllRestorable)
    (htagged : v.IsTagged key)
    (hv : (variantOf path (some key) index v).run = .ok (variant, warnings)) :
    variant.IsTagged key := by
  obtain ⟨shape, n, tag, hshape, hlookup, hkind, hd⟩ := htagged
  have hkeys := areKeys_of_taggedShape hsound h hshape
  rcases variantOf_cases hv with ⟨shape', _, _, hshape', htag, hfields, -⟩ | ⟨_, _, hnone, -⟩
  · obtain rfl : shape = shape' := by simpa [hshape] using hshape'
    have hmember : (key, .node n) ∈ shape := mem_of_lookup hlookup
    have hinside : (Value.node n).Inside v := (inside_of_taggedShape hshape).members _ hmember
    have hsame : variant.tag = tag := by
      rw [Option.getD_some, tagOf_of_literal hlookup hkind (by simp [Value.numbers])] at htag
      cases htag
      rfl
    have hnames := fieldsOf_names hfields
    refine ⟨?_, by rw [hnames]; exact hkeys, ?_, ?_⟩
    · rw [hsame]
      exact ((h n hinside).literal _ hkind).2 tag (List.mem_singleton_self _)
    · rw [hnames]
      exact List.mem_map_of_mem hmember
    · intro f hf hname
      obtain ⟨⟨other, w⟩, he, _, _, hfield⟩ := exists_member_of_fieldsOf hfields f hf
      obtain rfl : other = key := (fieldOf_name hfield).symm.trans hname
      obtain rfl : w = .node n := by
        simpa [hlookup] using (lookup_of_mem hkeys.1 he).symm
      exact fieldOf_bareLiteral hkind hd hfield
  · rw [hshape] at hnone
    cases hnone

theorem isTagged_of_variantsOf {P : Number → Prop} {path key : String} :
    ∀ {options : List Value} {index : Nat} {variants : List Variant} {warnings : List String},
      (∀ v ∈ options, v.AllSound P ∧ v.AllRestorable ∧ v.IsTagged key) →
        (variantsOf path (some key) index options).run = .ok (variants, warnings) →
          ∀ variant ∈ variants, variant.IsTagged key
  | [], _, _, _, _, h => by
    rw [variantsOf, Warned.run_pure] at h
    cases h
    simp
  | v :: rest, _, _, _, hoptions, h => by
    obtain ⟨variant, _, others, _, hv, hothers, rfl, -⟩ := variantsOf_cons h
    obtain ⟨⟨hsound, hrestorable, htagged⟩, hrest⟩ := List.forall_mem_cons.1 hoptions
    exact List.forall_mem_cons.2
      ⟨isTagged_of_variantOf hsound hrestorable htagged hv, isTagged_of_variantsOf hrest hothers⟩

/-! ## Regular fields -/

/-- The values to choose from are keys, if the node is restorable. -/
theorem areKeys_of_leaf {P : Number → Prop} {n : Node} {first : String} {rest : List String}
    (hsound : n.IsSound P) (h : n.IsRestorable) (hplan : n.plan = .ok (.leaf (.enum first rest))) :
    AreKeys (first :: rest) := by
  rcases kind_of_enumLeaf hplan with hkeys | hkind
  · rw [← hkeys]
    exact ⟨hsound.keys, h.keys⟩
  · obtain ⟨hnodup, hbasic⟩ := h.literal _ hkind
    exact ⟨hnodup.of_map _, fun s hs => hbasic s (List.mem_map_of_mem hs)⟩

/-- The names below a field of a restorable node are those that the walk gives. -/
theorem hasRegularNames_of_plan {P : Number → Prop} {n : Node} {plan : Plan} {path : String}
    {content : Content} {warnings : List String} (hsound : (Value.node n).AllSound P)
    (h : (Value.node n).AllRestorable) (hplan : n.plan = .ok plan)
    (hread : (plan.read path).run = .ok (content, warnings)) : content.HasRegularNames := by
  have hself := h n (.self _)
  have hof := plan_isOf hplan
  cases Plan.makes_of_read hread with
  | leaf =>
    cases content with
    | object | array | tuple | record | union => cases hof
    | enum first rest => exact areKeys_of_leaf hsound.node hself hplan
    | _ => trivial
  | @object _ fields _ hfields =>
    show AreKeys (fields.map Field.name)
    rw [fieldsOf_names hfields]
    exact areKeys_of_shape hsound h hof
  | array hf => exact fieldOf_name hf
  | tuple hfields => exact areItems_of_elementsOf hfields
  | record hf => exact fieldOf_name hf
  | @union discriminator options _ _ hvariants =>
    cases discriminator with
    | none => exact areOptions_of_variantsOf hvariants
    | some key =>
      obtain ⟨hne, hbasic, htagged⟩ := hself.union options key hof
      have hoptions : ∀ v ∈ options, v.AllSound P ∧ v.AllRestorable ∧ v.IsTagged key := by
        intro v hv
        have hinside := inside_of_plan hplan v hv
        exact ⟨fun u hu => hsound u (hu.trans hinside), h.of_inside hinside, htagged v hv⟩
      exact ⟨hne, hbasic, isTagged_of_variantsOf hoptions hvariants⟩

/-- A field that comes from a restorable schema is regular. -/
theorem isRegular_of_comesFrom {P : Number → Prop} {v : Value} {f : Field}
    (hsound : v.AllSound P) (h : v.AllRestorable) (hf : f.ComesFrom v) : f.IsRegular := by
  obtain ⟨u, hu, path, name, warnings, hfield⟩ := hf
  obtain ⟨p, hp, description, hdescription, c, content, rfl, hcontent⟩ := fieldOf_cases hfield
  have hinside := (inside_of_peel hp).1.trans hu
  have hself := h p.node hinside
  have hbasic : ∀ s ∈ description, s.isEmpty = false ∧ isBasic s = true := by
    intro s hs
    obtain rfl : description = some s := hs
    obtain ⟨hne, m, hm, hd⟩ := inside_of_descriptionText hp hdescription
    exact ⟨hne, (h m (hm.trans hu)).description s hd⟩
  rcases hcontent with ⟨rfl, rfl⟩ | ⟨plan, _, _, hplan, hc, hread⟩
  · exact ⟨rfl, rfl, hbasic, fits_empty _, by simp [numbers_empty], by simp [pattern_empty],
      trivial⟩
  · have hnode := hsound _ hinside
    have hnumbers := numbers_of_hasArguments
      (fun check hcheck => (hself.checks check hcheck).hasArguments)
      (fun _ hshort => hshort.imp fun _ hi => hi.1) hc content
    refine ⟨rfl, rfl, hbasic, Node.constraints_fits hself.bare hnode.checks hplan hread hc,
      fun k hk => (hnumbers k hk).isReadable, fun s hs => ?_, ?_⟩
    · obtain ⟨hne, hwritten⟩ :=
        pattern_isWritten (fun check hcheck => (hself.checks check hcheck).pattern) hc content s hs
      exact ⟨hne, isPattern_of_isWritten hwritten⟩
    · exact hasRegularNames_of_plan (fun w hw => hsound w (hw.trans hinside))
        (h.of_inside hinside) hplan hread

end FormSchema
