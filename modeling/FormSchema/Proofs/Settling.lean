import FormSchema.Proofs.Building
import FormSchema.Proofs.Merging
import FormSchema.Proofs.Restoring

/-!
# Fields settle

The node that the expression of a field means does not always become the field again. Equal
options of an enum become one, the member of a variant at the discriminator becomes the literal of
the tag, and constraints that the expression does not write are lost. `Field.settled` is what is
left of the field.

Nothing else is lost: the node of a field becomes the settled field (`fieldOf_node`), if its texts
are read back and the fields below it have the names that the walk gives them. And nothing is lost
a second time, since a settled field has the node of the field (`settled_node`).

A regular field is settled already (`settled_of_isRegular`), so its node becomes the field itself.
-/

namespace FormSchema

open Text (reread rereadPattern isBasic)

/-! ## Options of enums -/

/-- A table that pairs each name with itself finds just its names. -/
theorem lookup_selfPairs (names : List String) (key : String) :
    (names.map fun s => (s, s)).lookup key = if key ∈ names then some key else none := by
  induction names with
  | nil => rfl
  | cons name rest ih =>
    rw [List.map_cons, lookup_entry, ih]
    by_cases hkey : key = name
    · rw [if_pos hkey, if_pos (List.mem_cons.2 (.inl hkey)), hkey]
    · simp [hkey]

/-- Of equal options the first one is kept. -/
theorem selfEntries_eq (names : List String) :
    selfEntries names = names.eraseDups.map fun s => (s, s) := by
  rw [selfEntries_eq_putEntries]
  refine (putEntries_isMerge _).unique ⟨by simp [Function.comp_def], fun key => ?_⟩
  rw [← List.map_reverse, lookup_selfPairs, lookup_selfPairs]
  simp only [List.mem_eraseDups, List.mem_reverse]

/-! ## Settled fields -/

/-- The constraints that are written for a content. -/
def Content.kept (c : Constraints) : Content → Constraints
  | .string =>
    { minLength := c.minLength, maxLength := c.maxLength, pattern := c.pattern, format := c.format }
  | .number =>
    { min := c.min, max := c.max, step := c.step, isInt := c.isInt.filter fun b => b }
  | .array _ => { minItems := c.minItems, maxItems := c.maxItems }
  | _ => {}

mutual

/-- What is left of a field when its expression is read. -/
def Field.settled : Field → Field
  | ⟨name, label, description, isOptional, isNullable, constraints, content, reference⟩ =>
    ⟨name, label, description, isOptional, isNullable, content.kept constraints, content.settled,
      reference⟩

/-- What is left of a content. -/
def Content.settled : Content → Content
  | .string => .string
  | .number => .number
  | .boolean => .boolean
  | .date => .date
  | .enum first rest => .enum first (rest.filter fun s => !s == first).eraseDups
  | .object fields => .object (settledFields none fields)
  | .array element => .array element.settled
  | .tuple elements => .tuple (settledFields none elements)
  | .record value => .record value.settled
  | .union discriminator variants => .union discriminator (settledVariants discriminator variants)

/-- What is left of fields. The one at the discriminator, if there is one, is a literal. -/
def settledFields (discriminator : Option String) : List Field → List Field
  | [] => []
  | f :: rest =>
    (if discriminator == some f.name then literalField f.name else f.settled) ::
      settledFields discriminator rest

/-- What is left of variants. -/
def settledVariants (discriminator : Option String) : List Variant → List Variant
  | [] => []
  | ⟨tag, fields⟩ :: rest =>
    ⟨tag, settledFields discriminator fields⟩ :: settledVariants discriminator rest

end

@[simp] theorem Field.settled_name (f : Field) : f.settled.name = f.name := by
  cases f
  rfl

theorem filter_ne_false (o : Option Bool) : o.filter (fun b => b) ≠ some false := by
  rcases o with _ | _ | _ <;> simp

/-- A flag that is not given as off is kept. -/
theorem filter_of_ne_false {o : Option Bool} (h : o ≠ some false) : o.filter (fun b => b) = o := by
  rcases o with _ | _ | _
  · rfl
  · exact absurd rfl h
  · rfl

/-- Whatever the constraints are, those that are kept fit the content. -/
theorem kept_fits (content : Content) (c : Constraints) : content.Fits (content.kept c) := by
  cases content with
  | number => exact ⟨rfl, filter_ne_false c.isInt⟩
  | _ => rfl

/-- A content is written with the same number checks from the constraints it keeps. -/
theorem kept_numbers (content : Content) (c : Constraints) :
    content.numbers (content.kept c) = content.numbers c := by
  cases content <;> rfl

/-- A content is written with the same pattern from the constraints it keeps. -/
theorem kept_pattern (content : Content) (c : Constraints) :
    content.pattern? (content.kept c) = content.pattern? c := by
  cases content <;> rfl

/-- Constraints that the expression writes are kept. -/
theorem kept_of_fits {content : Content} {c : Constraints} (h : content.Fits c) :
    content.kept c = c := by
  cases content with
  | number =>
    obtain ⟨h, hint⟩ := h
    rw [Content.kept, filter_of_ne_false hint]
    exact h.symm
  | _ => exact h.symm

/-- The constraints that are kept make the same node. -/
theorem node_kept (content : Content) (c : Constraints) :
    content.node (content.kept c) = content.node c := by
  cases content with
  | number =>
    have hisInt : (c.isInt.filter (fun b => b) == some true) = (c.isInt == some true) := by
      rcases c.isInt with _ | _ | _ <;> rfl
    rw [Content.node, Content.node, numberNode, numberNode, numberChecks, numberChecks,
      Content.kept, hisInt]
  | union discriminator variants => cases discriminator <;> rfl
  | _ => rfl

/-! ## Fields that settle -/

/-- The variants are those of a union with the discriminator, from an index on: a tag that has no
literal at the discriminator is that for the index. -/
def AreVariants (key : String) (index : Nat) : List Variant → Prop
  | [] => True
  | v :: rest => (isBasic v.tag = true ∧ AreKeys (v.fields.map Field.name) ∧
      (key ∉ v.fields.map Field.name → v.tag = variantTag index)) ∧ AreVariants key (index + 1) rest

/-- The texts of a content are read back, and the names below it are those that the walk gives. -/
def Content.HasPlainNames : Content → Prop
  | .enum first rest => ∀ s ∈ first :: rest, isBasic s = true
  | .object fields => AreKeys (fields.map Field.name)
  | .array element => element.name = elementName
  | .tuple elements => AreItems 0 elements
  | .record value => value.name = recordValueName
  | .union (some key) variants =>
    key.isEmpty = false ∧ isBasic key = true ∧ AreVariants key 0 variants
  | .union none variants => AreOptions 0 variants
  | _ => True

/-- A field whose node becomes the settled field, if the nodes of those below it do. -/
structure Field.Settles (f : Field) : Prop where
  reference : f.reference = none
  label : f.label = Text.label f.name
  description : ∀ s ∈ f.description, s.isEmpty = false ∧ isBasic s = true
  numbers : ∀ n ∈ f.content.numbers f.constraints, n.reread = n
  pattern : ∀ s ∈ f.content.pattern? f.constraints, s.isEmpty = false ∧
    rereadPattern s.toList = s.toList
  names : f.content.HasPlainNames

/-! ## Nodes of settled fields -/

/-- Values of basic characters are read back as they are. -/
theorem map_reread {values : List String} (h : ∀ s ∈ values, isBasic s = true) :
    values.map reread = values :=
  (List.map_congr_left fun s hs => Text.reread_eq (h s hs)).trans (List.map_id _)

/-- The repeated values of an enum write nothing that settling takes away. -/
theorem enumNode_settled {first : String} {rest : List String}
    (h : ∀ s ∈ first :: rest, isBasic s = true) :
    enumNode (first :: (rest.filter fun s => !s == first).eraseDups) =
      enumNode (first :: rest) := by
  rw [← List.eraseDups_cons]
  have hdistinct : ∀ s ∈ (first :: rest).eraseDups, isBasic s = true := fun s hs =>
    h s (List.mem_eraseDups.1 hs)
  rw [enumNode, enumNode, map_reread h, map_reread hdistinct, selfEntries_eq, selfEntries_eq,
    eraseDups_of_nodup (nodup_eraseDups _)]

/-- Settled members write the members that were there before. -/
theorem memberNodes_settled {fields : List Field} (h : ∀ f ∈ fields, f.settled.node = f.node) :
    memberNodes (settledFields none fields) = memberNodes fields := by
  induction fields with
  | nil => rfl
  | cons f rest ih =>
    obtain ⟨hf, hrest⟩ := List.forall_mem_cons.1 h
    show (f.settled.name, Value.node f.settled.node) :: memberNodes (settledFields none rest) = _
    rw [ih hrest, hf, Field.settled_name]
    rfl

/-- Settled elements of a tuple write the elements that were there before. -/
theorem elementNodes_settled {fields : List Field} (h : ∀ f ∈ fields, f.settled.node = f.node) :
    elementNodes (settledFields none fields) = elementNodes fields := by
  induction fields with
  | nil => rfl
  | cons f rest ih =>
    obtain ⟨hf, hrest⟩ := List.forall_mem_cons.1 h
    show Value.node f.settled.node :: elementNodes (settledFields none rest) = _
    rw [ih hrest, hf]
    rfl

/-- With the literal of the tag at the discriminator it does not matter what stood there. -/
theorem tagMembers_settled {key tag : String} {fields : List Field}
    (h : ∀ f ∈ fields, f.settled.node = f.node) :
    tagMembers key tag (memberNodes (settledFields (some key) fields)) =
      tagMembers key tag (memberNodes fields) := by
  induction fields with
  | nil => rfl
  | cons f rest ih =>
    obtain ⟨hf, hrest⟩ := List.forall_mem_cons.1 h
    have hrest := ih hrest
    rw [settledFields, memberNodes, memberNodes, tagMembers, tagMembers, List.map_cons,
      List.map_cons, ← tagMembers, ← tagMembers, hrest]
    by_cases hname : key = f.name
    · simp [hname, literalField]
    · simp [hname, hf, Ne.symm hname]

/-- Settled variants write their members as before: the discriminator is written from the tag. -/
theorem taggedNodes_settled {key : String} {variants : List Variant}
    (h : ∀ v ∈ variants, ∀ f ∈ v.fields, f.settled.node = f.node) :
    taggedNodes key (settledVariants (some key) variants) = taggedNodes key variants := by
  induction variants with
  | nil => rfl
  | cons v rest ih =>
    obtain ⟨tag, fields⟩ := v
    obtain ⟨hfields, hrest⟩ := List.forall_mem_cons.1 h
    rw [settledVariants, taggedNodes, taggedNodes, ih hrest, taggedNode, taggedNode,
      tagMembers_settled hfields]

/-- Settled options write the options that were there before. -/
theorem optionNodes_settled {variants : List Variant}
    (h : ∀ v ∈ variants, ∀ f ∈ v.fields, f.settled.node = f.node) :
    optionNodes (settledVariants none variants) = optionNodes variants := by
  induction variants with
  | nil => rfl
  | cons v rest ih =>
    obtain ⟨tag, fields⟩ := v
    obtain ⟨hfields, hrest⟩ := List.forall_mem_cons.1 h
    rw [settledVariants, optionNodes, optionNodes, ih hrest, memberNodes_settled hfields]

/-- A content and its settled form are written as one node, if this holds of its children. -/
theorem content_settled_node {c : Constraints} {content : Content} (hnames : content.HasPlainNames)
    (h : ∀ d ∈ content.children, d.settled.node = d.node) :
    content.settled.node c = content.node c := by
  cases content with
  | enum first rest => exact enumNode_settled hnames
  | object fields => exact congrArg objectNode (memberNodes_settled h)
  | array element => exact congrArg (arrayNode c) (h element (List.mem_singleton_self _))
  | tuple elements =>
    exact congrArg (fun nodes => Node.plain (.tuple nodes)) (elementNodes_settled h)
  | record value =>
    have hvalue := h value (List.mem_singleton_self _)
    rw [Content.settled, Content.node, Content.node, hvalue]
  | union discriminator variants =>
    have hvariants : ∀ v ∈ variants, ∀ f ∈ v.fields, f.settled.node = f.node := fun v hv f hf =>
      h f (List.mem_flatMap.2 ⟨v, hv, hf⟩)
    cases discriminator with
    | none => rw [Content.settled, Content.node, Content.node, optionNodes_settled hvariants]
    | some key => rw [Content.settled, Content.node, Content.node, taggedNodes_settled hvariants]
  | _ => rfl

/-- A settled field has the node of the field. -/
theorem settled_node (f : Field) (h : ∀ g : Field, g.Within f → g.Settles) :
    f.settled.node = f.node := by
  refine Field.of_within f h fun f hself ih => ?_
  have hcontent := @content_settled_node (f.content.kept f.constraints) f.content hself.names ih
  obtain ⟨name, label, description, isOptional, isNullable, c, content, reference⟩ := f
  rw [node_kept] at hcontent
  exact congrArg (presenceNode isOptional isNullable description) hcontent

/-! ## What is written for settled fields -/

theorem Field.settled_content (f : Field) : f.settled.content = f.content.settled := by
  cases f
  rfl

/-- A settled field stems from a field of the same name and, the discriminator apart, is its
settled form. -/
theorem mem_settledFields {discriminator : Option String} {fields : List Field} {g : Field}
    (h : g ∈ settledFields discriminator fields) :
    ∃ f ∈ fields, g.name = f.name ∧ (discriminator ≠ some f.name → g = f.settled) := by
  induction fields with
  | nil => cases h
  | cons f rest ih =>
    rw [settledFields, List.mem_cons] at h
    rcases h with rfl | h
    · refine ⟨f, List.mem_cons_self, ?_, fun hother => if_neg (by simpa using hother)⟩
      split
      · rfl
      · exact f.settled_name
    · obtain ⟨f', hf', hg⟩ := ih h
      exact ⟨f', List.mem_cons_of_mem f hf', hg⟩

/-- The fields of a settled variant stem from a variant that was there before. -/
theorem mem_settledVariants {discriminator : Option String} {variants : List Variant}
    {v : Variant} (h : v ∈ settledVariants discriminator variants) :
    ∃ w ∈ variants, v.fields = settledFields discriminator w.fields := by
  induction variants with
  | nil => cases h
  | cons w rest ih =>
    obtain ⟨tag, fields⟩ := w
    rw [settledVariants, List.mem_cons] at h
    rcases h with rfl | h
    · exact ⟨_, List.mem_cons_self, rfl⟩
    · obtain ⟨w, hw, hv⟩ := ih h
      exact ⟨w, List.mem_cons_of_mem _ hw, hv⟩

/-- What is written below a settled content is settled itself. -/
theorem Content.mem_writtenChildren_settled {content : Content} {g : Field}
    (h : g ∈ content.settled.writtenChildren) : ∃ d ∈ content.writtenChildren, g = d.settled := by
  have hplain {fields : List Field} (h : g ∈ settledFields none fields) :
      ∃ d ∈ fields, g = d.settled := by
    obtain ⟨d, hd, -, hsettled⟩ := mem_settledFields h
    exact ⟨d, hd, hsettled (by simp)⟩
  cases content with
  | string | number | boolean | date | enum => cases h
  | object fields => exact hplain h
  | tuple elements => exact hplain h
  | array element => exact ⟨element, List.mem_singleton_self _, List.mem_singleton.1 h⟩
  | record value => exact ⟨value, List.mem_singleton_self _, List.mem_singleton.1 h⟩
  | union discriminator variants =>
    cases discriminator with
    | none =>
      obtain ⟨v, hv, hg⟩ := List.mem_flatMap.1 h
      obtain ⟨w, hw, hfields⟩ := mem_settledVariants hv
      rw [hfields] at hg
      obtain ⟨d, hd, hsettled⟩ := hplain hg
      exact ⟨d, List.mem_flatMap.2 ⟨w, hw, hd⟩, hsettled⟩
    | some key =>
      obtain ⟨v, hv, hg⟩ := List.mem_flatMap.1 h
      obtain ⟨hg, hname⟩ := List.mem_filter.1 hg
      obtain ⟨w, hw, hfields⟩ := mem_settledVariants hv
      rw [hfields] at hg
      obtain ⟨d, hd, hsame, hsettled⟩ := mem_settledFields hg
      rw [hsame] at hname
      have hother : (some key : Option String) ≠ some d.name := fun heq => by
        simp [Option.some.inj heq] at hname
      exact ⟨d, List.mem_flatMap.2 ⟨w, hw, List.mem_filter.2 ⟨hd, hname⟩⟩, hsettled hother⟩

/-- What a settled field writes is the settled form of what the field writes. -/
theorem exists_of_settled_writes {f g : Field} (h : f.settled.Writes g) :
    ∃ d, f.Writes d ∧ g = d.settled := by
  generalize hs : f.settled = s at h
  induction h generalizing f with
  | self => exact ⟨f, .self f, hs.symm⟩
  | deeper hc _ ih =>
    subst hs
    rw [Field.settled_content] at hc
    obtain ⟨c, hmem, rfl⟩ := Content.mem_writtenChildren_settled hc
    obtain ⟨d, hd, hg⟩ := ih rfl
    exact ⟨d, .deeper hmem hd, hg⟩

theorem Field.settled_numbers (f : Field) :
    f.settled.content.numbers f.settled.constraints = f.content.numbers f.constraints := by
  obtain ⟨_, _, _, _, _, c, content, _⟩ := f
  cases content <;> rfl

theorem Field.settled_pattern (f : Field) :
    f.settled.content.pattern? f.settled.constraints = f.content.pattern? f.constraints := by
  obtain ⟨_, _, _, _, _, c, content, _⟩ := f
  cases content <;> rfl

/-- The literals that are written for a settled field are those of the field. -/
theorem Field.IsReadable.settled {f : Field} (h : f.IsReadable) : f.settled.IsReadable := by
  refine ⟨?_, by rw [f.settled_numbers]; exact h.numbers,
    by rw [f.settled_pattern]; exact h.pattern⟩
  obtain ⟨_, _, _, _, _, _, _, _⟩ := f
  exact h.reference

/-! ## Quiet results -/

/-- The value comes up, without a warning if the condition holds. -/
def Warned.Gives {α : Type} (w : Warned α) (a : α) (quiet : Prop) : Prop :=
  ∃ warnings, w.run = .ok (a, warnings) ∧ (quiet → warnings = [])

namespace Warned.Gives

variable {α β : Type} {w : Warned α} {a : α} {p q : Prop}

theorem pure (a : α) : (Pure.pure a : Warned α).Gives a p :=
  ⟨[], rfl, fun _ => rfl⟩

theorem mono (h : w.Gives a p) (hpq : q → p) : w.Gives a q :=
  h.imp fun _ hw => ⟨hw.1, fun hq => hw.2 (hpq hq)⟩

/-- Steps that give a value one after the other give the last one, on the same condition. -/
theorem bind {f : α → Warned β} {b : β} (h : w.Gives a p) (hf : (f a).Gives b p) :
    (w >>= f).Gives b p := by
  obtain ⟨first, hfirst, hquiet⟩ := h
  obtain ⟨second, hsecond, hquiet'⟩ := hf
  refine ⟨first ++ second, (run_bind _ _ _ _).2 ⟨a, first, second, hfirst, hsecond, rfl⟩, ?_⟩
  exact fun hp => by rw [hquiet hp, hquiet' hp, List.append_nil]

/-- A function is applied to the value that a step gives. -/
theorem map (h : w.Gives a p) (f : α → β) : (w >>= fun x => Pure.pure (f x)).Gives (f a) p :=
  h.bind (pure _)

/-- A step that runs without a warning gives its value on any condition. -/
theorem of_run (h : w.run = .ok (a, [])) : w.Gives a p :=
  ⟨[], h, fun _ => rfl⟩

end Warned.Gives

/-! ## The walk -/

/-- Every variant of a union with a discriminator has a field at the discriminator. -/
def Content.HasTags : Content → Prop
  | .union (some key) variants => ∀ v ∈ variants, key ∈ v.fields.map Field.name
  | _ => True

/-- The unions at every depth of the field have their tags. -/
def Field.HasTags (f : Field) : Prop :=
  ∀ g : Field, g.Within f → g.content.HasTags

theorem Field.HasTags.of_mem {f d : Field} (h : f.HasTags) (hd : d ∈ f.children) : d.HasTags :=
  fun g hg => h g (.deeper hd hg)

/-- The node of the field becomes the settled field, without a warning if there are all tags. -/
def Field.NodeSettles (f : Field) : Prop :=
  ∀ path, (fieldOf path f.name (.node f.node)).Gives f.settled f.HasTags

/-- Reading the members that settling fields write gives the settled fields. -/
theorem fieldsOf_memberNodes {fields : List Field} (h : ∀ f ∈ fields, f.NodeSettles)
    (path : String) : (fieldsOf path (memberNodes fields)).Gives (settledFields none fields)
      (∀ f ∈ fields, f.HasTags) := by
  induction fields with
  | nil =>
    rw [memberNodes, fieldsOf]
    exact .pure _
  | cons f rest ih =>
    obtain ⟨hf, hrest⟩ := List.forall_mem_cons.1 h
    rw [memberNodes, fieldsOf]
    exact ((hf _).mono fun hall => hall f List.mem_cons_self).bind
      (((ih hrest).mono fun hall g hg => hall g (List.mem_cons_of_mem f hg)).map _)

/-- Reading the elements that settling items write gives the settled items. -/
theorem elementsOf_elementNodes {path : String} : ∀ {fields : List Field} {index : Nat},
    AreItems index fields → (∀ f ∈ fields, f.NodeSettles) →
      (elementsOf path index (elementNodes fields)).Gives (settledFields none fields)
        (∀ f ∈ fields, f.HasTags)
  | [], _, _, _ => by
    rw [elementNodes, elementsOf]
    exact .pure _
  | f :: rest, index, hnames, h => by
    obtain ⟨hname, hnames⟩ := hnames
    obtain ⟨hf, hrest⟩ := List.forall_mem_cons.1 h
    have hfield := hf (below path (natText index))
    rw [hname] at hfield
    rw [elementNodes, elementsOf]
    exact (hfield.mono fun hall => hall f List.mem_cons_self).bind
      (((elementsOf_elementNodes hnames hrest).mono
        fun hall g hg => hall g (List.mem_cons_of_mem f hg)).map _)

/-- Reading the members of a tagged variant gives the settled fields, with the discriminator as a
plain literal. -/
theorem fieldsOf_tagMembers {key tag : String} {fields : List Field}
    (h : ∀ f ∈ fields, f.NodeSettles) (path : String) :
    (fieldsOf path (tagMembers key tag (memberNodes fields))).Gives
      (settledFields (some key) fields) (∀ f ∈ fields, f.HasTags) := by
  induction fields with
  | nil =>
    rw [memberNodes, tagMembers, List.map_nil, fieldsOf]
    exact .pure _
  | cons f rest ih =>
    obtain ⟨hf, hrest⟩ := List.forall_mem_cons.1 h
    have hothers := (ih hrest).mono
      fun (hall : ∀ g ∈ f :: rest, g.HasTags) g hg => hall g (List.mem_cons_of_mem f hg)
    rw [memberNodes, tagMembers, List.map_cons, ← tagMembers, fieldsOf, settledFields]
    by_cases hname : key = f.name
    · subst hname
      simp only [beq_self_eq_true, if_true]
      exact (Warned.Gives.of_run (fieldOf_literalNode _ _)).bind (hothers.map _)
    · rw [if_neg (by simpa using Ne.symm hname), if_neg (by simpa using hname)]
      exact ((hf _).mono fun hall => hall f List.mem_cons_self).bind (hothers.map _)

/-- A variant has its tag, or the tag for its index. -/
theorem tagOf_gives {path key tag : String} {index : Nat} {fields : List Field}
    (htag : isBasic tag = true)
    (huntagged : key ∉ fields.map Field.name → tag = variantTag index) :
    (tagOf path key index (tagMembers key tag (memberNodes fields))).Gives tag
      (key ∈ fields.map Field.name) := by
  by_cases hkey : key ∈ fields.map Field.name
  · rw [← memberNodes_names] at hkey
    exact .of_run (tagOf_tagMembers hkey htag)
  · have hmissing : key ∉ (tagMembers key tag (memberNodes fields)).map Prod.fst := by
      rwa [tagMembers_names, memberNodes_names]
    rw [huntagged hkey] at hmissing ⊢
    exact ⟨_, tagOf_of_missing hmissing, fun hmem => absurd hmem hkey⟩

/-- Reading the members of a tagged union gives the settled variants, and no warning if every
variant holds the discriminator. -/
theorem variantsOf_taggedNodes {path key : String} (hne : key.isEmpty = false) :
    ∀ {variants : List Variant} {index : Nat}, AreVariants key index variants →
      (∀ v ∈ variants, ∀ f ∈ v.fields, f.NodeSettles) →
        (variantsOf path (some key) index (taggedNodes key variants)).Gives
          (settledVariants (some key) variants)
          ((∀ v ∈ variants, key ∈ v.fields.map Field.name) ∧
            ∀ v ∈ variants, ∀ f ∈ v.fields, f.HasTags)
  | [], _, _, _ => by
    rw [taggedNodes, variantsOf]
    exact .pure _
  | ⟨tag, fields⟩ :: rest, index, hvariants, h => by
    obtain ⟨⟨htag, hkeys, huntagged⟩, hvariants⟩ := hvariants
    obtain ⟨hfields, hrest⟩ := List.forall_mem_cons.1 h
    have hothers := @variantsOf_taggedNodes path _ hne _ _ hvariants hrest
    rw [← memberNodes_names] at hkeys
    have hshape : taggedShape? (some key) (.node (taggedNode key tag (memberNodes fields))) =
        .ok (some (tagMembers key tag (memberNodes fields))) := by
      rw [taggedNode_of_areKeys key tag hkeys]
      exact taggedShape?_object hne
    rw [taggedNodes, variantsOf, variantOf_of_shape hshape, settledVariants]
    refine Warned.Gives.bind (a := ⟨tag, settledFields (some key) fields⟩) ?_
      ((hothers.mono ?_).map _)
    · refine ((tagOf_gives htag huntagged).mono fun hall => ?_).bind
        (((fieldsOf_tagMembers hfields _).mono fun hall => ?_).map _)
      · exact hall.1 _ List.mem_cons_self
      · exact hall.2 _ List.mem_cons_self
    · exact fun hall => ⟨fun v hv => hall.1 v (List.mem_cons_of_mem _ hv),
        fun v hv => hall.2 v (List.mem_cons_of_mem _ hv)⟩

/-- Reading the options of a plain union gives the settled variants. -/
theorem variantsOf_optionNodes {path : String} : ∀ {variants : List Variant} {index : Nat},
    AreOptions index variants → (∀ v ∈ variants, ∀ f ∈ v.fields, f.NodeSettles) →
      (variantsOf path none index (optionNodes variants)).Gives (settledVariants none variants)
        (∀ v ∈ variants, ∀ f ∈ v.fields, f.HasTags)
  | [], _, _, _ => by
    rw [optionNodes, variantsOf]
    exact .pure _
  | ⟨tag, fields⟩ :: rest, index, hnames, h => by
    obtain ⟨⟨htag, f, hfields, hname⟩, hnames⟩ := hnames
    obtain rfl : tag = variantTag index := htag
    obtain rfl : fields = [f] := hfields
    obtain ⟨hf, hrest⟩ := List.forall_mem_cons.1 h
    have hfield := hf f (List.mem_singleton_self f) (below path (optionName index))
    rw [hname] at hfield
    rw [optionNodes, memberNodes, memberNodes, hname, optionNode_option, variantsOf,
      variantOf_of_none rfl]
    exact ((hfield.mono fun hall => hall _ List.mem_cons_self f (List.mem_singleton_self f)).map
      fun f => Variant.mk (variantTag index) [f]).bind
        (((variantsOf_optionNodes hnames hrest).mono
          fun hall v hv => hall v (List.mem_cons_of_mem _ hv)).map _)

/-- An enum of basic names is planned as a leaf that holds the settled enum. -/
theorem enumNode_plan {first : String} {rest : List String}
    (h : ∀ s ∈ first :: rest, isBasic s = true) (d : Value) :
    ((enumNode (first :: rest)).withDescription d).plan =
      .ok (.leaf (Content.enum first rest).settled) := by
  rw [enumNode, map_reread h, selfEntries_eq, List.eraseDups_cons]
  simp [Node.plain, Node.withDescription, Node.plan, enumPlan, Content.ofValues?,
    Function.comp_def, Content.settled]

/-- The node of a content has a plan that gives the settled content. -/
theorem content_node {c : Constraints} {content : Content} (hnames : content.HasPlainNames)
    (h : ∀ d ∈ content.children, d.NodeSettles) (path : String) :
    ∃ plan, (∀ d, ((content.node c).withDescription d).plan = .ok plan) ∧
      (plan.read path).Gives content.settled
        (content.HasTags ∧ ∀ d ∈ content.children, d.HasTags) := by
  cases content with
  | string => exact ⟨.leaf .string, fun _ => rfl, .pure _⟩
  | number => exact ⟨.leaf .number, fun _ => rfl, .pure _⟩
  | boolean => exact ⟨.leaf .boolean, fun _ => rfl, .pure _⟩
  | date => exact ⟨.leaf .date, fun _ => rfl, .pure _⟩
  | enum first rest => exact ⟨.leaf _, enumNode_plan hnames, .pure _⟩
  | object fields =>
    have hkeys : AreKeys ((memberNodes fields).map Prod.fst) := by
      rw [memberNodes_names]
      exact hnames
    refine ⟨.object (memberNodes fields), fun d => ?_,
      ((fieldsOf_memberNodes h path).mono And.right).map Content.object⟩
    rw [Content.node, objectNode_of_areKeys hkeys]
    rfl
  | array element =>
    have hname : element.name = elementName := hnames
    have hfield := h element (List.mem_singleton_self _) (below path elementName)
    rw [hname] at hfield
    exact ⟨.array (.node element.node), fun _ => rfl,
      (hfield.mono fun hall => hall.2 _ (List.mem_singleton_self _)).map Content.array⟩
  | tuple elements =>
    exact ⟨.tuple (elementNodes elements), fun _ => rfl,
      ((elementsOf_elementNodes hnames h).mono And.right).map Content.tuple⟩
  | record value =>
    have hname : value.name = recordValueName := hnames
    have hfield := h value (List.mem_singleton_self _) (below path recordValueName)
    rw [hname] at hfield
    exact ⟨.record (.node value.node), fun _ => rfl,
      (hfield.mono fun hall => hall.2 _ (List.mem_singleton_self _)).map Content.record⟩
  | union discriminator variants =>
    have hfields : ∀ v ∈ variants, ∀ f ∈ v.fields, f.NodeSettles := fun v hv f hf =>
      h f (List.mem_flatMap.2 ⟨v, hv, hf⟩)
    have htags (hall : ∀ d ∈ (Content.union discriminator variants).children, d.HasTags) :
        ∀ v ∈ variants, ∀ f ∈ v.fields, f.HasTags := fun v hv f hf =>
      hall f (List.mem_flatMap.2 ⟨v, hv, hf⟩)
    cases discriminator with
    | none =>
      exact ⟨.union none (optionNodes variants), fun _ => rfl,
        ((variantsOf_optionNodes hnames hfields).mono fun hall => htags hall.2).map
          (Content.union none)⟩
    | some key =>
      obtain ⟨hne, hbasic, hvariants⟩ := hnames
      refine ⟨.union (some key) (taggedNodes key variants), fun d => ?_,
        ((variantsOf_taggedNodes hne hvariants hfields).mono fun hall =>
          ⟨hall.1, htags hall.2⟩).map (Content.union (some key))⟩
      rw [Content.node, Text.reread_eq hbasic]
      rfl

/-- The node of a field becomes the settled field. -/
theorem fieldOf_node (f : Field) (h : ∀ g : Field, g.Within f → g.Settles) : f.NodeSettles := by
  refine Field.of_within f h fun f hself ih path => ?_
  obtain ⟨plan, hplan, warnings, hread, hquiet⟩ :=
    @content_node f.constraints f.content hself.names ih path
  obtain ⟨name, label, description, isOptional, isNullable, c, content, reference⟩ := f
  have hconstraints : (content.node c).constraints = (.valid (content.kept c), []) := by
    rw [← node_kept]
    exact content_constraints (kept_fits content c) (by rw [kept_numbers]; exact hself.numbers)
      (by rw [kept_pattern]; exact hself.pattern)
  have hfield := fieldOf_presenceNode name isOptional isNullable (content_isCore c content)
    (content_description c content) hself.description (content_isFixed c content) hconstraints hplan
    hread
  obtain rfl : label = Text.label name := hself.label
  obtain rfl : reference = none := hself.reference
  exact ⟨warnings, hfield, fun hall => hquiet ⟨hall _ (.self _), fun d hd => hall.of_mem hd⟩⟩

/-- The object of fields is introspected as what is left of them. -/
theorem introspect_settles {fields : List Field} (hkeys : AreKeys (fields.map Field.name))
    (h : ∀ f ∈ fields, ∀ g : Field, g.Within f → g.Settles) (naming : Naming) :
    ∃ warnings, introspect (.node (objectNode (memberNodes fields))) naming .null =
      .ok ⟨naming, settledFields none fields, warnings, none⟩ ∧
        ((∀ f ∈ fields, f.HasTags) → warnings = []) := by
  obtain ⟨warnings, hfields, hquiet⟩ :=
    fieldsOf_memberNodes (fun f hf => fieldOf_node f (h f hf)) ""
  rw [objectNode_of_areKeys (by rwa [memberNodes_names])]
  exact ⟨warnings, introspect_of_fieldsOf hfields naming, hquiet⟩

/-! ## Regular fields -/

/-- Tagged variants are those of a union with the discriminator, from any index on. -/
theorem areVariants_of_isTagged {key : String} : ∀ {variants : List Variant} {index : Nat},
    (∀ v ∈ variants, v.IsTagged key) → AreVariants key index variants
  | [], _, _ => trivial
  | _ :: _, _, h =>
    have hfirst := h _ List.mem_cons_self
    ⟨⟨hfirst.tag, hfirst.keys, fun hmissing => absurd hfirst.mem hmissing⟩,
      areVariants_of_isTagged fun v hv => h v (List.mem_cons_of_mem _ hv)⟩

/-- Regular names are plain in particular. -/
theorem Content.HasRegularNames.plain {content : Content} (h : content.HasRegularNames) :
    content.HasPlainNames := by
  cases content with
  | enum first rest => exact h.2
  | union discriminator variants =>
    cases discriminator with
    | none => exact h
    | some key => exact ⟨h.1, h.2.1, areVariants_of_isTagged h.2.2⟩
  | _ => exact h

/-- Reading back what a regular field writes gives its settled form, without a warning. -/
theorem Field.IsRegular.settles {f : Field} (h : f.IsRegular) : f.Settles :=
  ⟨h.reference, h.label, h.description, fun n hn => (h.numbers n hn).2,
    fun s hs => ⟨(h.pattern s hs).1, (h.pattern s hs).2.2⟩, h.names.plain⟩

theorem Content.HasRegularNames.hasTags {content : Content} (h : content.HasRegularNames) :
    content.HasTags := by
  cases content with
  | union discriminator variants =>
    cases discriminator with
    | none => trivial
    | some key => exact fun v hv => (h.2.2 v hv).mem
  | _ => trivial

/-- Settling leaves a list of fields as it is just if it leaves each field so. -/
theorem settledFields_eq_iff {discriminator : Option String} {fields : List Field} :
    settledFields discriminator fields = fields ↔ ∀ f ∈ fields,
      (if discriminator == some f.name then literalField f.name else f.settled) = f := by
  induction fields with
  | nil => simp [settledFields]
  | cons f rest ih => rw [settledFields, List.cons.injEq, ih, List.forall_mem_cons]

/-- Settling leaves a list of variants as it is just if it leaves the fields of each one so. -/
theorem settledVariants_eq_iff {discriminator : Option String} {variants : List Variant} :
    settledVariants discriminator variants = variants ↔
      ∀ v ∈ variants, settledFields discriminator v.fields = v.fields := by
  induction variants with
  | nil => simp [settledVariants]
  | cons v rest ih =>
    obtain ⟨tag, fields⟩ := v
    rw [settledVariants, List.cons.injEq, ih, List.forall_mem_cons, Variant.mk.injEq]
    simp

/-- A content of regular names is settled once its children are. -/
theorem content_settled_eq {content : Content} (hnames : content.HasRegularNames)
    (h : ∀ d ∈ content.children, d.settled = d) : content.settled = content := by
  cases content with
  | enum first rest =>
    have hdistinct := eraseDups_of_nodup hnames.1
    rw [List.eraseDups_cons] at hdistinct
    rw [Content.settled, (List.cons.inj hdistinct).2]
  | object fields => exact congrArg Content.object (settledFields_eq_iff.2 h)
  | array element => exact congrArg Content.array (h element (List.mem_singleton_self _))
  | tuple elements => exact congrArg Content.tuple (settledFields_eq_iff.2 h)
  | record value => exact congrArg Content.record (h value (List.mem_singleton_self _))
  | union discriminator variants =>
    have hvariants : settledVariants discriminator variants = variants := by
      refine settledVariants_eq_iff.2 fun v hv => settledFields_eq_iff.2 fun f hf => ?_
      have hf' : f.settled = f := h f (List.mem_flatMap.2 ⟨v, hv, hf⟩)
      split
      · rename_i hname
        obtain rfl := beq_iff_eq.1 hname
        exact ((hnames.2.2 v hv).literal f hf rfl).symm
      · exact hf'
    rw [Content.settled, hvariants]
  | _ => rfl

/-- A regular field is settled. -/
theorem settled_of_isRegular (f : Field) (h : ∀ g : Field, g.Within f → g.IsRegular) :
    f.settled = f := by
  refine Field.of_within f h fun f hself ih => ?_
  have hkept := kept_of_fits hself.fits
  have hcontent := content_settled_eq hself.names ih
  obtain ⟨name, label, description, isOptional, isNullable, c, content, reference⟩ := f
  rw [Field.settled, hcontent, hkept]

/-- The object of regular fields is introspected as these fields. -/
theorem introspect_objectNode {fields : List Field} (hkeys : AreKeys (fields.map Field.name))
    (h : ∀ f ∈ fields, ∀ g : Field, g.Within f → g.IsRegular) (naming : Naming) :
    introspect (.node (objectNode (memberNodes fields))) naming .null =
      .ok ⟨naming, fields, [], none⟩ := by
  obtain ⟨warnings, hform, hquiet⟩ :=
    introspect_settles hkeys (fun f hf g hg => (h f hf g hg).settles) naming
  have hsettled : settledFields none fields = fields :=
    settledFields_eq_iff.2 fun f hf => settled_of_isRegular f (h f hf)
  have hnone := hquiet fun f hf g hg => (h f hf g hg).names.hasTags
  rw [hform, hsettled, hnone]

end FormSchema
