import FormSchema.Proofs.Configurations
import FormSchema.Proofs.Origin
import FormSchema.Proofs.Provenance

/-!
# The default rules leave nothing out

The default rules cover every field with integer bounds (`covers_defaultRules`). A form that comes
from a schema whose bounds are integers has only such fields (`hasIntegerBounds_of_comesFrom`), so
it is generated with all its fields and no further warning, and each field at any depth can be
rendered wherever it stands (`generate_succeeds`). One thing can keep a form from being generated:
an integer among its constraints that is too long to be written (`not_generate_longBound`).
-/

namespace FormSchema

/-- The bounds that a node was given are integers, if they are numbers. -/
def Node.HasIntegerBounds (n : Node) : Prop :=
  ∀ c ∈ n.checks, c.name = "greater_than" ∨ c.name = "less_than" →
    ∀ k, c.value.scalar.number? = some k → ∃ i, k = .int i

/-- The bounds of all nodes inside a value are integers. -/
def Value.HasIntegerBounds (v : Value) : Prop :=
  ∀ n : Node, (Value.node n).Inside v → n.HasIntegerBounds

/-- A bound of a field is one that its node was given. -/
theorem bound_of_lookup {n : Node} (h : n.HasIntegerBounds) {key : String} {d : Datum} {k : Number}
    (hkey : key = "min" ∨ key = "max") (hd : n.members.lookup key = some d)
    (hk : d.number? = some k) : ∃ i, k = .int i := by
  rcases Node.of_lookup_members hd with ⟨rfl, -⟩ | ⟨check, hcheck, heffect⟩
  · simp at hkey
  · obtain ⟨hname, rfl⟩ := (sets_of_effect heffect).eq_bound hkey
    exact h check hcheck hname k hk

theorem hasIntegerBounds_of_comesFrom {f : Field} {v : Value} (hf : f.ComesFrom v)
    (hv : v.HasIntegerBounds) : f.HasIntegerBounds := by
  obtain ⟨u, hu, _, _, _, hfield⟩ := hf
  obtain ⟨p, hp, _, -, c, _, rfl, ⟨rfl, -⟩ | ⟨_, _, _, -, hc, -⟩⟩ := fieldOf_cases hfield
  · exact ⟨by simp, by simp⟩
  · have hnode : p.node.HasIntegerBounds := hv _ ((inside_of_peel hp).1.trans hu)
    rcases of_fieldConstraints hc with ⟨-, rfl⟩ | ⟨-, hfrom⟩
    · exact ⟨by simp, by simp⟩
    · constructor
      · intro k hk
        obtain ⟨d, hd, hread⟩ := hfrom.min k hk
        exact bound_of_lookup hnode (.inl rfl) hd hread
      · intro k hk
        obtain ⟨d, hd, hread⟩ := hfrom.max k hk
        exact bound_of_lookup hnode (.inr rfl) hd hread

/-- The constraints of all fields of the form can be written. -/
def Form.HasShortBounds (form : Form) : Prop :=
  ∀ root ∈ form.fields, root.AllShort

/-- Where the constraints can be written, so can all that the rendered fields show. -/
theorem allShort_of_hasShortBounds {form : Form}
    (h : ∀ root ∈ form.fields, ∀ g : Field, g.Within root → Covers defaultRules g)
    (hshort : form.HasShortBounds) :
    (∀ e ∈ chosenBy defaultRules form.fields, e.2.AllShort) ∧
      ∀ n ∈ allInitialNumbers form.fields, n.IsBounded := by
  constructor
  · intro e he
    obtain ⟨hf, hc⟩ := mem_chosenBy he
    exact allShort_of_resolve (h e.1 hf) hc (hshort e.1 hf)
  · exact fun n hn => Number.isShort_iff.1 (allInitialNumbers_isShort hshort n hn)

/-- With the default rules, every schema that has a form and integer bounds is generated. The
fields are those of the form, which are the members of the schema in order, and the warnings are
those of the form. Each field at any depth has a configuration by the rules, and with it can be
rendered at every place. Both fail in one way alone, and only if there is a constraint that is too
long to be written. -/
theorem generate_succeeds {schema : Value} {naming : Naming} {steps : Datum} {form : Form}
    (settings : Settings) (hform : introspect schema naming steps = .ok form)
    (hbounds : schema.HasIntegerBounds) :
    ((∃ out shape, generate schema naming steps defaultRules settings = .ok out ∧
        schema.shape? = .ok (some shape) ∧ out.fields = shape.map Prod.fst ∧
          out.fields = form.fieldNames ∧ out.warnings = form.warnings) ∨
      generate schema naming steps defaultRules settings = .error .longInteger ∧
        ¬form.HasShortBounds) ∧
    ∀ root ∈ form.fields, ∀ g : Field, g.Within root →
      ∃ c, g.resolve defaultRules = .ok c ∧
        ∀ place, (∃ markup, Markup.fieldMarkup place g c = .ok markup) ∨
          Markup.fieldMarkup place g c = .error .longInteger ∧ ¬g.AllShort := by
  have hcovers : ∀ root ∈ form.fields, ∀ g : Field, g.Within root → Covers defaultRules g :=
    fun root hroot g hg => covers_defaultRules
      (hasIntegerBounds_of_comesFrom (introspect_comesFrom hform root hroot g hg) hbounds)
  have hgenerate : generate schema naming steps defaultRules settings =
      form.generate defaultRules settings := by
    rw [generate, hform]
  rw [hgenerate]
  constructor
  · obtain ⟨hwritten, hall⟩ := Form.generate_of_covers settings hcovers
      (allShort_of_hasShortBounds hcovers)
    refine hwritten.imp_left ?_
    rintro ⟨out, hout⟩
    obtain ⟨hfields, hwarnings⟩ := hall out hout
    obtain ⟨shape, hshape, hread, -⟩ := fieldsOf_of_introspect hform
    exact ⟨out, shape, hout, hshape,
      by rw [hfields, Form.fieldNames, fieldsOf_names hread], hfields, hwarnings⟩
  · intro root hroot g hg
    have hbelow : ∀ d : Field, d.Within g → Covers defaultRules d :=
      fun d hd => hcovers root hroot d (hd.trans hg)
    obtain ⟨c, hc, hoffer⟩ := g.resolve_succeeds hbelow
    exact ⟨c, hc, fun place =>
      Markup.fieldMarkup_isWritten (hoffer.allShow (allShort_of_resolve hbelow hc)) place g⟩

/-! ## An age and tags -/

/-- A number between 1 and 5. -/
def boundedNumber : Node :=
  ((Node.plain .number).withCheck (.valued "greater_than" (.int 1) true)).withCheck
    (.valued "less_than" (.int 5) true)

/-- One tag. -/
def tag : Node :=
  .plain (.enum [("x", "x")])

/-- An object of such an age and of a list of tags. -/
def agedShape : Shape :=
  [("age", .node boundedNumber), ("tags", .node (.plain (.array (.node tag))))]

/-- The fields of such an object. -/
def agedFields : List Field :=
  [⟨"age", "Age", none, false, false, { min := some (.int 1), max := some (.int 5) }, .number, none⟩,
    ⟨"tags", "Tags", none, false, false, {},
      .array ⟨elementName, "Item", none, false, false, {}, .enum "x" [], none⟩, none⟩]

theorem fieldsOf_agedShape : (fieldsOf "" agedShape).run = .ok (agedFields, []) := by
  have peel_age : (Value.node boundedNumber).peel = .ok ⟨boundedNumber, false, false, .null⟩ :=
    peelFrom_of_unwrap (u := ⟨boundedNumber, false, false⟩) (by cbv)
  have peel_tag : (Value.node tag).peel = .ok ⟨tag, false, false, .null⟩ :=
    peelFrom_of_unwrap (u := ⟨tag, false, false⟩) (by cbv)
  have peel_tags : (Value.node (.plain (.array (.node tag)))).peel =
      .ok ⟨.plain (.array (.node tag)), false, false, .null⟩ :=
    peelFrom_of_unwrap (u := ⟨.plain (.array (.node tag)), false, false⟩) (by cbv)
  refine fieldsOf_cons.2 ⟨_, [], _, [], ?_, fieldsOf_cons.2 ⟨_, [], [], [], ?_, ?_, rfl, rfl⟩,
    rfl, rfl⟩
  · rw [fieldOf_of_plan peel_age rfl]
    cbv
  · rw [fieldOf_of_plan peel_tags rfl]
    simp only [Peeled.read, Plan.read, fieldOf_of_plan peel_tag rfl]
    cbv
  · rw [fieldsOf]
    rfl

/-- The nodes of such an object. -/
theorem nodes_agedShape {n : Node}
    (h : (Value.node n).Inside (.node (.plain (.object agedShape)))) :
    n ∈ [.plain (.object agedShape), boundedNumber, .plain (.array (.node tag)), tag] := by
  obtain _ | ⟨hmem, hn⟩ := h
  · simp
  simp only [Value.values, Node.plain, Kind.values, agedShape, List.map_cons, List.map_nil,
    List.mem_cons, List.not_mem_nil, or_false] at hmem
  rcases hmem with rfl | rfl
  · obtain - | ⟨hmem, -⟩ := hn
    · simp
    · exact absurd hmem List.not_mem_nil
  · obtain - | ⟨hmem, hn⟩ := hn
    · simp [Node.plain]
    · obtain rfl := List.mem_singleton.1 hmem
      obtain - | ⟨hmem, -⟩ := hn
      · simp
      · exact absurd hmem List.not_mem_nil

theorem introspect_agedShape :
    introspect (.node (.plain (.object agedShape))) ⟨"F", "./s", "s"⟩ .null =
      .ok ⟨⟨"F", "./s", "s"⟩, agedFields, [], none⟩ :=
  introspect_of_fieldsOf fieldsOf_agedShape _

theorem hasIntegerBounds_agedShape :
    (Value.node (.plain (.object agedShape))).HasIntegerBounds := by
  have hplain (kind : Kind) : (Node.plain kind).HasIntegerBounds :=
    fun _ hc => absurd hc List.not_mem_nil
  have hage : boundedNumber.HasIntegerBounds := by
    intro c hc _ k hk
    rcases List.mem_cons.1 hc with rfl | hc
    · cases hk
      exact ⟨1, rfl⟩
    · obtain rfl := List.mem_singleton.1 hc
      cases hk
      exact ⟨5, rfl⟩
  intro n hn
  have hnode := nodes_agedShape hn
  simp only [List.mem_cons, List.not_mem_nil, or_false] at hnode
  rcases hnode with rfl | rfl | rfl | rfl
  · exact hplain _
  · exact hage
  · exact hplain _
  · exact hplain _

theorem hasShortBounds_agedShape :
    Form.HasShortBounds ⟨⟨"F", "./s", "s"⟩, agedFields, [], none⟩ := by
  have hleaf {f : Field} (hbounds : ∀ n ∈ f.bounds, n.isShort = true) (hf : f.children = []) :
      f.AllShort :=
    Field.allShort_iff.2 ⟨hbounds, by simp [hf]⟩
  refine List.forall_mem_cons.2 ⟨hleaf (by decide) rfl, List.forall_mem_singleton.2 ?_⟩
  exact Field.allShort_iff.2 ⟨by decide, List.forall_mem_singleton.2 (hleaf (by decide) rfl)⟩

/-- The object of an age and tags is generated with both. -/
theorem generate_succeeds_aged : ∃ out,
    generate (.node (.plain (.object agedShape))) ⟨"F", "./s", "s"⟩ .null defaultRules {} =
      .ok out ∧ out.fields = ["age", "tags"] ∧ out.warnings = [] := by
  obtain ⟨⟨out, _, hout, -, -, hfields, hwarnings⟩ | ⟨-, hlong⟩, -⟩ :=
    generate_succeeds {} introspect_agedShape hasIntegerBounds_agedShape
  · exact ⟨out, hout, hfields, hwarnings⟩
  · exact absurd hasShortBounds_agedShape hlong

/-! ## A bound that is too long -/

/-- A number with a lower bound. -/
def numberFrom (k : Int) : Node :=
  (Node.plain .number).withCheck (.valued "greater_than" (.int k) true)

/-- The field of such a number. -/
def fieldFrom (k : Int) : Field :=
  ⟨"a", "A", none, false, false, { min := some (.int k) }, .number, none⟩

theorem hasIntegerBounds_fieldFrom (k : Int) : (fieldFrom k).HasIntegerBounds :=
  ⟨fun n hn => ⟨k, (Option.mem_some_iff.1 hn).symm⟩, by rintro n ⟨⟩⟩

/-- How the default rules render the field. -/
def configFrom (k : Int) : Config :=
  ⟨.input, { type := some "number", min := some (.int k) }, Parts.none, [], ⟨"A", none, true⟩⟩

theorem resolve_fieldFrom (k : Int) : (fieldFrom k).resolve defaultRules = .ok (configFrom k) := by
  cbv

theorem fieldsOf_numberFrom (k : Int) :
    (fieldsOf "" [("a", .node (numberFrom k))]).run = .ok ([fieldFrom k], []) := by
  refine fieldsOf_singleton ?_
  rw [fieldOf_of_plan (peel_of_isCore rfl rfl) rfl]
  cbv

theorem hasIntegerBounds_numberFrom (k : Int) :
    (Value.node (.plain (.object [("a", .node (numberFrom k))]))).HasIntegerBounds := by
  have hnumber : (numberFrom k).HasIntegerBounds := by
    refine List.forall_mem_singleton.2 fun _ number hnumber => ?_
    cases hnumber
    exact ⟨k, rfl⟩
  refine forall_inside_node (fun _ hc => absurd hc List.not_mem_nil) ?_
  exact List.forall_mem_singleton.2 (forall_inside_node hnumber fun _ hv => absurd hv List.not_mem_nil)

/-- No form is generated of a number whose lower bound is too long: its initial value cannot be
written. -/
theorem generate_fieldFrom {k : Int} (hlong : ¬(Number.int k).isShort = true) (naming : Naming)
    (settings : Settings) :
    Form.generate ⟨naming, [fieldFrom k], [], none⟩ defaultRules settings =
      .error .longInteger := by
  have hcovers : ∀ root ∈ [fieldFrom k], ∀ g : Field, g.Within root → Covers defaultRules g := by
    refine List.forall_mem_singleton.2 fun g hg => covers_defaultRules ?_
    cases hg with
    | self => exact hasIntegerBounds_fieldFrom k
    | deeper hc => exact absurd hc List.not_mem_nil
  have hstate (head : FormFile.Head) : FormFile.writeState head [fieldFrom k] =
      .error .longInteger :=
    writing_eq_error.2 ⟨fun hall => hlong (hall _ (List.mem_singleton_self _)), rfl⟩
  simp [Form.generate, FormFile.text, FormFile.plainFile, (chosenBy_of_covers hcovers).1, hstate,
    Except.map]

/-- A form with an integer bound for which the default rules generate nothing. -/
theorem not_generate_longBound :
    introspect (.node (.plain (.object [("a", .node (numberFrom leastLong))])))
        ⟨"F", "./s", "s"⟩ .null = .ok ⟨⟨"F", "./s", "s"⟩, [fieldFrom leastLong], [], none⟩ ∧
      (Value.node (.plain (.object [("a", .node (numberFrom leastLong))]))).HasIntegerBounds ∧
        generate (.node (.plain (.object [("a", .node (numberFrom leastLong))])))
          ⟨"F", "./s", "s"⟩ .null defaultRules {} = .error .longInteger := by
  have hform := introspect_of_fieldsOf (fieldsOf_numberFrom leastLong) ⟨"F", "./s", "s"⟩
  refine ⟨hform, hasIntegerBounds_numberFrom leastLong, ?_⟩
  rw [generate, hform]
  exact generate_fieldFrom leastLong_not_isShort _ _

end FormSchema
