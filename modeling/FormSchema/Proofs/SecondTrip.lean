import FormSchema.Proofs.RoundTrip
import FormSchema.Proofs.Texts
import FormSchema.Proofs.Values

/-!
# The second round trip

A schema whose texts, integers and patterns can be written and read has a form that settles
(`isWritten_of_comesFrom`): what the file of the form is read as has the settled fields as its form.
The first trip may lose something, since literals become texts, equal options become one, and
members of a tagged union become objects with the literal of the tag. The second trip loses
nothing, because a settled form has the node of the form, so its file is read as the same schema
(`introspect_schemaFile_again`).
-/

namespace FormSchema

open Text (isBasic)

/-! ## Writable nodes -/

/-- The number is an integer. -/
def Number.IsInteger (k : Number) : Prop :=
  ∃ i : Int, k = .int i

/-- The text that the value is displayed as is known to stay in the basic plane, unless the value
is nothing, a truth value or a number, whose texts do so anyway. -/
def Value.IsBasic : Value → Prop
  | .null | .bool _ | .number _ => True
  | v => isBasic v.display = true

/-- A node whose texts, integers and patterns can be written and read. -/
structure Node.IsWritable (n : Node) : Prop where
  arguments : ∀ c ∈ n.checks, c.HasArguments Number.IsInteger
  patterns : ∀ c ∈ n.checks, ∀ s ∈ c.pattern, IsWrittenPattern s
  keys : ∀ key ∈ n.kind.keys, isBasic key = true
  description : ∀ s, n.description = .text s → isBasic s = true
  literal : ∀ values, n.kind = .literal values → ∀ v ∈ values, v.IsBasic
  discriminator : ∀ options key, n.kind = .union options (some key) →
    key.isEmpty = false ∧ isBasic key = true

/-- All nodes inside a value are writable. -/
def Value.AllWritable (v : Value) : Prop :=
  ∀ n : Node, (Value.node n).Inside v → n.IsWritable

theorem isBasic_of_all_numeralPart {s : String} (h : s.toList.all numeralPart = true) :
    isBasic s = true := by
  rw [isBasic, List.all_eq_true]
  intro c hc
  have hpart := List.all_eq_true.1 h c hc
  simp only [numeralPart, Char.isDigit, Bool.or_eq_true, Bool.and_eq_true, beq_iff_eq,
    decide_eq_true_eq] at hpart
  rcases hpart with (((⟨-, hlt⟩ | rfl) | rfl) | rfl) | rfl
  · exact decide_eq_true (Nat.lt_of_le_of_lt (UInt32.le_iff_toNat_le.1 hlt) (by decide))
  all_goals decide

/-- The text of a number has basic characters only. -/
theorem isBasic_number (n : Number) : isBasic n.display = true := by
  cases n with
  | int n => exact isBasic_of_all_numeralPart (intText_all n)
  | double x =>
    cases x with
    | finite negative rank =>
      refine isBasic_of_all_numeralPart ?_
      show (String.ofList _).toList.all numeralPart = true
      rw [String.toList_ofList, List.all_append, Double.rankText_all]
      cases negative <;> rfl
    | infinite negative => cases negative <;> decide
    | nan => decide

/-- A basic value is shown in basic characters. -/
theorem Value.IsBasic.display {v : Value} (h : v.IsBasic) : isBasic v.display = true := by
  cases v with
  | null => decide
  | bool b => cases b <;> decide
  | number n => exact isBasic_number n
  | _ => exact h

theorem Value.AllWritable.hasTexts {v : Value} (h : v.AllWritable) :
    v.HasTexts fun s => isBasic s = true := fun n hn =>
  have hself := h n hn
  ⟨hself.keys, hself.description,
    fun values hkind u hu => (hself.literal values hkind u hu).display,
    fun options key hkind => (hself.discriminator options key hkind).2⟩

theorem holdsWords_isBasic : HoldsWords fun s => isBasic s = true := by
  intro s hs
  rw [isBasic, List.all_eq_true]
  exact fun c hc => decide_eq_true
    (Nat.lt_trans (Source.identifierPart_lt (List.all_eq_true.1 hs c hc)) (by decide))

/-! ## Names below a field -/

/-- Variants that are read are those of a union with the discriminator. -/
theorem areVariants_of_variantsOf {path key : String} : ∀ {options : List Value} {index : Nat}
    {variants : List Variant} {warnings : List String},
    (∀ v ∈ options, v.HasDistinctKeys ∧ v.HasTexts fun s => isBasic s = true) →
      (variantsOf path (some key) index options).run = .ok (variants, warnings) →
        AreVariants key index variants
  | [], _, _, _, _, h => by
    rw [variantsOf, Warned.run_pure] at h
    cases h
    trivial
  | v :: rest, _, _, _, hoptions, h => by
    obtain ⟨variant, _, others, _, hv, hothers, rfl, -⟩ := variantsOf_cons h
    obtain ⟨⟨hkeys, htexts⟩, hrest⟩ := List.forall_mem_cons.1 hoptions
    obtain ⟨htag, hnames⟩ := variantOf_hasTexts holdsWords_isBasic htexts hv
    refine ⟨⟨htag, ⟨?_, List.forall_mem_map.2 hnames⟩, ?_⟩, areVariants_of_variantsOf hrest hothers⟩
    · rcases variantOf_cases hv with ⟨shape, _, _, hshape, -, hfields, -⟩ | ⟨f, _, -, -, rfl, -⟩
      · rw [fieldsOf_names hfields]
        exact nodup_keys_of_taggedShape hkeys hshape
      · exact List.nodup_singleton _
    · rcases variantOf_cases hv with ⟨shape, _, _, -, htagged, hfields, -⟩ | ⟨f, _, -, -, rfl, -⟩
      · rw [fieldsOf_names hfields]
        intro hmissing
        rw [Option.getD_some, tagOf_of_missing hmissing] at htagged
        exact (Prod.mk.inj (Except.ok.inj htagged)).1.symm
      · exact fun _ => rfl

/-- The names below a field of a writable node are those that the walk gives. -/
theorem hasPlainNames_of_plan {n : Node} {plan : Plan} {path : String} {content : Content}
    {warnings : List String} (hkeys : (Value.node n).HasDistinctKeys)
    (h : (Value.node n).AllWritable) (hplan : n.plan = .ok plan)
    (hread : (plan.read path).run = .ok (content, warnings)) : content.HasPlainNames := by
  obtain ⟨htexts, hnames⟩ := Plan.read_hasTexts holdsWords_isBasic h.hasTexts hplan hread
  have hof := plan_isOf hplan
  cases Plan.makes_of_read hread with
  | leaf =>
    cases content with
    | object | array | tuple | record | union => cases hof
    | enum first rest => exact htexts
    | _ => trivial
  | object hfields =>
    refine ⟨?_, List.forall_mem_map.2 hnames⟩
    rw [fieldsOf_names hfields]
    exact nodup_keys_of_shape hkeys hof
  | array hf => exact fieldOf_name hf
  | tuple hfields => exact areItems_of_elementsOf hfields
  | record hf => exact fieldOf_name hf
  | @union discriminator options _ _ hvariants =>
    cases discriminator with
    | none => exact areOptions_of_variantsOf hvariants
    | some key =>
      obtain ⟨hne, hbasic⟩ := (h n (.self _)).discriminator options key hof
      refine ⟨hne, hbasic, areVariants_of_variantsOf (fun v hv => ?_) hvariants⟩
      have hinside := inside_of_plan hplan v hv
      exact ⟨hkeys.of_inside hinside, h.hasTexts.of_inside hinside⟩

/-! ## Fields of writable schemas -/

/-- What is written for a field of a writable schema: integers, and patterns that can be read. -/
structure Field.IsWritten (f : Field) : Prop where
  settles : f.Settles
  integers : ∀ k ∈ f.content.numbers f.constraints, k.IsInteger
  patterns : ∀ s ∈ f.content.pattern? f.constraints, Text.isPattern s = true

/-- A field that comes from a writable schema settles. -/
theorem isWritten_of_comesFrom {v : Value} {f : Field} (hkeys : v.HasDistinctKeys)
    (h : v.AllWritable) (hf : f.ComesFrom v) : f.IsWritten := by
  have htexts := hasTexts_of_comesFrom holdsWords_isBasic h.hasTexts hf
  obtain ⟨u, hu, path, name, warnings, hfield⟩ := hf
  obtain ⟨p, hp, description, hdescription, c, content, rfl, hcontent⟩ := fieldOf_cases hfield
  have hinside := (inside_of_peel hp).1.trans hu
  have hbasic : ∀ s ∈ description, s.isEmpty = false ∧ isBasic s = true := by
    intro s hs
    obtain rfl : description = some s := hs
    exact ⟨(descriptionText_eq_some hdescription).2, htexts.description s rfl⟩
  rcases hcontent with ⟨rfl, rfl⟩ | ⟨plan, _, _, hplan, hc, hread⟩
  · refine ⟨⟨rfl, rfl, hbasic, ?_, ?_, trivial⟩, ?_, ?_⟩
    all_goals simp [numbers_empty, pattern_empty]
  · have hself := h p.node hinside
    have hintegers := numbers_of_hasArguments hself.arguments (fun _ hk => hk) hc content
    have hpatterns := pattern_isWritten hself.patterns hc content
    have hnames := hasPlainNames_of_plan (hkeys.of_inside hinside)
      (fun m hm => h m (hm.trans hinside)) hplan hread
    refine ⟨⟨rfl, rfl, hbasic, fun k hk => ?_, fun s hs => ?_, hnames⟩, hintegers, fun s hs => ?_⟩
    · obtain ⟨i, rfl⟩ := hintegers k hk
      rfl
    · exact ⟨(hpatterns s hs).1, (isPattern_of_isWritten (hpatterns s hs).2).2⟩
    · exact (isPattern_of_isWritten (hpatterns s hs).2).1

/-! ## The two trips -/

/-- The integers in the schema file of a form can be written out: none has more digits than the
limit allows. -/
def Form.HasShortNumbers (f : Form) : Prop :=
  ∀ root ∈ f.fields, ∀ g, root.Writes g → ∀ k ∈ g.content.numbers g.constraints, k.IsBounded

/-- The schema file of the first form can be written, and is read as a schema with the second
form. -/
structure Form.ReadsAs (settings : Settings) (form second : Form) : Prop where
  numbers : form.HasShortNumbers
  read : ∃ file n, schemaFile form [] settings = .ok file ∧
    Source.schema file form.schemaName = .ok n ∧ introspect (.node n) form.naming .null = .ok second

section

variable {form second : Form} {settings : Settings}

/-- A form of written fields is readable, if its numbers are short. -/
theorem isReadable_of_isWritten
    (h : ∀ root ∈ form.fields, ∀ g : Field, g.Within root → g.IsWritten)
    (hnumbers : form.HasShortNumbers) : form.IsReadable := by
  intro root hroot g hg
  have hwritten := h root hroot g hg.within
  refine ⟨by rw [hwritten.settles.reference]; rfl, fun k hk => ?_, hwritten.patterns⟩
  have hshort := hnumbers root hroot g hg k hk
  obtain ⟨i, rfl⟩ := hwritten.integers k hk
  exact hshort

/-- A form is read as one form only. -/
theorem Form.ReadsAs.unique {third : Form} (h : form.ReadsAs settings second)
    (h' : form.ReadsAs settings third) : second = third := by
  obtain ⟨file, n, hfile, hread, hsecond⟩ := h.read
  obtain ⟨file', n', hfile', hread', hthird⟩ := h'.read
  obtain rfl : file = file' := by simpa [hfile] using hfile'
  obtain rfl : n = n' := by simpa [hread] using hread'
  simpa [hsecond] using hthird

/-- A file that is read is read as the node of the form, and its names are words. -/
theorem Form.ReadsAs.of_isReadable (hsettings : settings.HasPlainImport) (hform : form.IsReadable)
    (h : form.ReadsAs settings second) :
    introspect (.node form.node) form.naming .null = .ok second ∧
      Source.isWord form.schemaName.toList = true ∧
        Source.isWord (Text.typeName form.schemaName).toList = true := by
  obtain ⟨file, n, hfile, hread, hsecond⟩ := h.read
  obtain ⟨hname, -⟩ := Source.schema_builtFrom hread
  rcases Source.isWord_typeName_or hname with htype | hrefused
  · obtain ⟨file', hfile', hread'⟩ := Source.schema_schemaFile hsettings hname htype hform
    obtain rfl : file = file' := by simpa [hfile] using hfile'
    obtain rfl : n = form.node := by simpa [hread] using hread'
    exact ⟨hsecond, hname, htype⟩
  · obtain ⟨file', e, hfile', he⟩ :=
      Source.schema_error_of_typeName hsettings hname hrefused hform
    obtain rfl : file = file' := by simpa [hfile] using hfile'
    rw [hread] at he
    cases he

/-- What is written in a form with settled fields is settled. -/
theorem exists_of_settledFields_writes (hfields : second.fields = settledFields none form.fields)
    {root g : Field} (hroot : root ∈ second.fields) (hg : root.Writes g) :
    ∃ root' ∈ form.fields, ∃ d, root'.Writes d ∧ g = d.settled := by
  rw [hfields] at hroot
  obtain ⟨root', hroot', -, hsettled⟩ := mem_settledFields hroot
  rw [hsettled (by simp)] at hg
  exact ⟨root', hroot', exists_of_settled_writes hg⟩

/-- A settled form is read back as it is, since it has the node of the form that it is left of. -/
theorem readsAs_self_of_settled (hsettings : settings.HasPlainImport) (hform : form.IsReadable)
    (hsettles : ∀ root ∈ form.fields, ∀ g : Field, g.Within root → g.Settles)
    (hnaming : second.naming = form.naming)
    (hfields : second.fields = settledFields none form.fields)
    (h : form.ReadsAs settings second) : second.ReadsAs settings second := by
  obtain ⟨hsecond, hname, htype⟩ := h.of_isReadable hsettings hform
  have hexport : second.schemaName = form.schemaName := by
    rw [Form.schemaName, hnaming, Form.schemaName]
  have hnode : second.node = form.node := by
    rw [Form.node, hfields,
      memberNodes_settled fun f hf => settled_node f (hsettles f hf), ← Form.node]
  have hnumbers : second.HasShortNumbers := by
    intro root hroot g hg
    obtain ⟨root', hroot', d, hd, rfl⟩ := exists_of_settledFields_writes hfields hroot hg
    rw [d.settled_numbers]
    exact h.numbers root' hroot' d hd
  have hreadable : second.IsReadable := by
    intro root hroot g hg
    obtain ⟨root', hroot', d, hd, rfl⟩ := exists_of_settledFields_writes hfields hroot hg
    exact (hform root' hroot' d hd).settled
  rw [← hexport] at hname htype
  obtain ⟨file, hfile, hread⟩ := Source.schema_schemaFile hsettings hname htype hreadable
  refine ⟨hnumbers, file, second.node, hfile, hread, ?_⟩
  rw [hnode, hnaming]
  exact hsecond

end

/-- The second trip through a schema file is the identity. The first one can be made if its
integers can be written and its names are words. What is read back after it is read back again, and
has the same fields and the same file then. -/
theorem introspect_schemaFile_again {schema : Value} {naming : Naming} {steps : Datum} {form : Form}
    {settings : Settings} (hbuilt : BuiltFrom (fun _ => True) schema) (hnodes : schema.AllWritable)
    (hform : introspect schema naming steps = .ok form) (hsettings : settings.HasPlainImport) :
    (form.HasShortNumbers → Source.isWord naming.exportName.toList = true →
        Source.isWord (Text.typeName naming.exportName).toList = true →
          ∃ second, form.ReadsAs settings second) ∧
      ∀ second, form.ReadsAs settings second → (∃ third, second.ReadsAs settings third) ∧
        ∀ third, second.ReadsAs settings third → third.fields = second.fields ∧
          schemaFile third [] settings = schemaFile second [] settings := by
  have hdistinct : schema.HasDistinctKeys := hbuilt.allSound.hasDistinctKeys
  obtain ⟨shape, hshape, hfields, hnaming⟩ := fieldsOf_of_introspect hform
  have hwritten : ∀ root ∈ form.fields, ∀ g : Field, g.Within root → g.IsWritten :=
    fun root hroot g hg =>
      isWritten_of_comesFrom hdistinct hnodes (introspect_comesFrom hform root hroot g hg)
  have hsettles : ∀ root ∈ form.fields, ∀ g : Field, g.Within root → g.Settles :=
    fun root hroot g hg => (hwritten root hroot g hg).settles
  have hkeys : AreKeys (form.fields.map Field.name) := by
    rw [fieldsOf_names hfields]
    exact ⟨nodup_keys_of_shape hdistinct hshape,
      keys_of_shape hnodes.hasTexts (inside_of_shape hshape)⟩
  obtain ⟨warnings, hread, -⟩ := introspect_settles hkeys hsettles form.naming
  constructor
  · intro hnumbers hname htype
    have hreadable := isReadable_of_isWritten hwritten hnumbers
    have hexport : form.schemaName = naming.exportName := by rw [Form.schemaName, hnaming]
    rw [← hexport] at hname htype
    obtain ⟨file, hfile, hnode⟩ := Source.schema_schemaFile hsettings hname htype hreadable
    exact ⟨_, hnumbers, file, form.node, hfile, hnode, hread⟩
  · intro second hsecond
    have hreadable := isReadable_of_isWritten hwritten hsecond.numbers
    obtain ⟨hintrospected, -, -⟩ := hsecond.of_isReadable hsettings hreadable
    have hsame : second = ⟨form.naming, settledFields none form.fields, warnings, none⟩ := by
      rw [Form.node, hread] at hintrospected
      exact (Except.ok.inj hintrospected).symm
    have hagain := readsAs_self_of_settled hsettings hreadable hsettles (by rw [hsame])
      (by rw [hsame]) hsecond
    refine ⟨⟨second, hagain⟩, fun third hthird => ?_⟩
    obtain rfl := hagain.unique hthird
    exact ⟨rfl, rfl⟩

/-! ## A union with loose tags -/

/-- An object with a number where a tag could be. -/
def numberedNode : Node :=
  .plain (.object [("kind", .node (.plain (.literal [.number (.int 1)])))])

/-- An object without a tag, whose literal repeats a value. -/
def repeatedNode : Node :=
  .plain (.object [("b", .node (.plain (.literal [.text "x", .text "x"])))])

/-- The union of both with texts, which are no objects. -/
def looseNode : Node :=
  .plain (.union [.node numberedNode, .node repeatedNode, .node (.plain (.string none))]
    (some "kind"))

/-- The object of such a union. -/
def looseObject : Value :=
  .node (.plain (.object [("a", .node looseNode)]))

/-- The variants of such a union. -/
def looseVariants : List Variant :=
  [⟨"1", [⟨"kind", "Kind", none, false, false, {}, .number, none⟩]⟩,
    ⟨"variant_1", [⟨"b", "B", none, false, false, {}, .enum "x" ["x"], none⟩]⟩,
    ⟨"variant_2", [⟨"option_2", "Option_2", none, false, false, {}, .string, none⟩]⟩]

/-- The form of such an object. -/
def looseForm : Form :=
  ⟨⟨"F", "./s", "s"⟩,
    [⟨"a", "A", none, false, false, {}, .union (some "kind") looseVariants, none⟩],
    [untaggedWarning "a" "kind" 1], none⟩

theorem builtFrom_looseObject : BuiltFrom (fun _ => True) looseObject := by
  have hone : Builder.literal.call [.number (.int 1)] =
      .ok (.node (.plain (.literal [.number (.int 1)]))) := rfl
  have htwice : Builder.literal.call [.list [.text "x", .text "x"]] =
      .ok (.node (.plain (.literal [.text "x", .text "x"]))) := rfl
  have hstring : Builder.string.call [] = .ok (.node (.plain (.string none))) := rfl
  have hunion : Builder.discriminatedUnion.call [.text "kind",
      .list [.node numberedNode, .node repeatedNode, .node (.plain (.string none))]] =
        .ok (.node looseNode) := rfl
  have hnumbered : BuiltFrom (fun _ => True) (.node numberedNode) :=
    builtFrom_object (.construct (by simpa using .number trivial) hone)
  have hrepeated : BuiltFrom (fun _ => True) (.node repeatedNode) :=
    builtFrom_object (.construct (by simpa using .list (by simpa using .text _)) htwice)
  have htext : BuiltFrom (fun _ => True) (.node (.plain (.string none))) :=
    .construct (by simp) hstring
  refine builtFrom_object (.construct ?_ hunion)
  simpa using ⟨.text _, .list (by simpa using ⟨hnumbered, hrepeated, htext⟩)⟩

theorem plain_isWritable {kind : Kind} (hkeys : ∀ key ∈ kind.keys, isBasic key = true)
    (hliteral : ∀ values, kind = .literal values → ∀ v ∈ values, v.IsBasic)
    (hdiscriminator : ∀ options key, kind = .union options (some key) →
      key.isEmpty = false ∧ isBasic key = true) : (Node.plain kind).IsWritable :=
  ⟨by rintro _ ⟨⟩, by rintro _ ⟨⟩, hkeys, by rintro _ ⟨⟩, hliteral, hdiscriminator⟩

theorem allWritable_object {name : String} {v : Value} (hname : isBasic name = true)
    (h : v.AllWritable) : (Value.node (.plain (.object [(name, v)]))).AllWritable := by
  refine forall_inside_node ?_ (List.forall_mem_singleton.2 h)
  exact plain_isWritable (List.forall_mem_singleton.2 hname) (by rintro _ ⟨⟩) (by rintro _ _ ⟨⟩)

theorem allWritable_literal {values : List Value} (h : ∀ v ∈ values, v.IsBasic) :
    (Value.node (.plain (.literal values))).AllWritable := by
  refine forall_inside_node (plain_isWritable (by rintro _ ⟨⟩) ?_ (by rintro _ _ ⟨⟩))
    (by rintro _ ⟨⟩)
  rintro _ ⟨⟩
  exact h

theorem allWritable_looseObject : looseObject.AllWritable := by
  have hnumbered : (Value.node numberedNode).AllWritable :=
    allWritable_object (by decide) (allWritable_literal (List.forall_mem_singleton.2 trivial))
  have hrepeated : (Value.node repeatedNode).AllWritable := by
    have hx : (Value.text "x").IsBasic := show isBasic "x" = true by decide
    exact allWritable_object (by decide) (allWritable_literal (by simpa using hx))
  have hstring : (Value.node (.plain (.string none))).AllWritable :=
    forall_inside_node (plain_isWritable (by rintro _ ⟨⟩) (by rintro _ ⟨⟩) (by rintro _ _ ⟨⟩))
      (by rintro _ ⟨⟩)
  refine allWritable_object (by decide) (forall_inside_node ?_ ?_)
  · refine plain_isWritable (by rintro _ ⟨⟩) (by rintro _ ⟨⟩) ?_
    rintro _ _ ⟨⟩
    decide
  · exact List.forall_mem_cons.2 ⟨hnumbered,
      List.forall_mem_cons.2 ⟨hrepeated, List.forall_mem_singleton.2 hstring⟩⟩

theorem numbered_gives : (variantOf "a" (some "kind") 0 (.node numberedNode)).run =
    .ok (looseVariants[0], []) := by
  have hfields (path : String) : (fieldsOf path [("kind", .node (.plain (.literal
      [.number (.int 1)])))]).run = .ok (looseVariants[0].fields, []) := by
    refine fieldsOf_singleton ?_
    rw [fieldOf_of_plan (peel_of_isCore rfl rfl) rfl]
    cbv
  have hlookup : [("kind", Value.node (.plain (.literal [.number (.int 1)])))].lookup "kind" =
      some (.node (.plain (.literal [.number (.int 1)]))) := List.lookup_cons_self
  exact variantOf_of_run (taggedShape?_object (by decide)) (tagOf_of_literal hlookup rfl (by decide))
    (hfields _)

theorem repeated_gives : (variantOf "a" (some "kind") 1 (.node repeatedNode)).run =
    .ok (looseVariants[1], [untaggedWarning "a" "kind" 1]) := by
  have hfields (path : String) : (fieldsOf path [("b", .node (.plain (.literal
      [.text "x", .text "x"])))]).run = .ok (looseVariants[1].fields, []) := by
    refine fieldsOf_singleton ?_
    rw [fieldOf_of_plan (peel_of_isCore rfl rfl) rfl]
    cbv
  exact variantOf_of_run (taggedShape?_object (by decide)) (tagOf_of_missing (by simp)) (hfields _)

theorem string_gives : (variantOf "a" (some "kind") 2 (.node (.plain (.string none)))).run =
    .ok (looseVariants[2], []) := by
  have hnone : taggedShape? (some "kind") (.node (.plain (.string none))) = .ok none := by
    have hunwrap : (Value.node (.plain (.string none))).unwrap =
        .ok ⟨.plain (.string none), false, false⟩ := unwrap_of_isCore rfl
    rw [taggedShape?, hunwrap]
    simp [Node.plain, Value.shape?]
  refine variantOf_option hnone ?_
  rw [fieldOf_of_plan (peel_of_isCore rfl rfl) rfl]
  cbv

/-- The form of an object with such a union. -/
theorem introspect_looseObject :
    introspect looseObject ⟨"F", "./s", "s"⟩ .null = .ok looseForm := by
  have hvariants := variantsOf_of_run numbered_gives (variantsOf_of_run repeated_gives
    (variantsOf_of_run string_gives (by rw [variantsOf]; rfl)))
  have hread : ((Plan.union (some "kind")
      [.node numberedNode, .node repeatedNode, .node (.plain (.string none))]).read "a").run =
        .ok (.union (some "kind") looseVariants, [untaggedWarning "a" "kind" 1]) :=
    run_return hvariants _
  have hfield : (fieldOf "a" "a" (.node looseNode)).run = _ := fieldOf_plain rfl rfl rfl hread
  have hlabel : Text.label "a" = "A" := by cbv
  rw [hlabel] at hfield
  exact introspect_of_fieldsOf (fieldsOf_singleton hfield) _

theorem hasShortNumbers_looseForm : looseForm.HasShortNumbers := by
  intro root hroot g hg k hk
  obtain rfl := List.mem_singleton.1 hroot
  cases hg with
  | self => cases hk
  | @deeper _ c _ hc hg =>
    obtain rfl | rfl : c = looseVariants[1].fields[0] ∨ c = looseVariants[2].fields[0] := by
      simpa [Content.writtenChildren, looseVariants] using hc
    all_goals
      cases hg with
      | self => cases hk
      | deeper hd => cases hd

/-- The union goes through a file twice, though a number, a repeated value and a member without a
tag do not come back as they were. -/
theorem introspect_schemaFile_again_loose :
    introspect looseObject ⟨"F", "./s", "s"⟩ .null = .ok looseForm ∧
      ∃ second third, looseForm.ReadsAs {} second ∧ second.ReadsAs {} third ∧
        third.fields = second.fields ∧ schemaFile third [] {} = schemaFile second [] {} := by
  obtain ⟨hfirst, hagain⟩ := introspect_schemaFile_again builtFrom_looseObject
    allWritable_looseObject introspect_looseObject hasPlainImport_default
  obtain ⟨second, hsecond⟩ := hfirst hasShortNumbers_looseForm (by decide) (by decide)
  obtain ⟨⟨third, hthird⟩, hsame⟩ := hagain second hsecond
  obtain ⟨hfields, hfile⟩ := hsame third hthird
  exact ⟨introspect_looseObject, second, third, hsecond, hthird, hfields, hfile⟩

end FormSchema
