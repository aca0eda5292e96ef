import Mathlib
import FormSchema.Generation
import FormSchema.Failure
import FormSchema.Proofs.Walk

/-!
# Excluded fields leave no trace

A root field that the rules fail on is left out of the generated form. `generate_excludes` says
that nothing else of it remains: the fields are the other root fields, there is one more warning
for each field that is left out, and the code and what it imports are those of the form that is
generated from the schema without the members, with steps that do not name them.

A step is read back from its own record (`Step.read_toDatum`), so the steps of the smaller form
can be given as plain data again. In both runs the same fields are rendered, under the same steps.
-/

namespace FormSchema

/-- The rules fail on the field. -/
def Field.fails (rules : List Rule) (f : Field) : Bool :=
  match f.resolve rules with
  | .ok _ => false
  | .error _ => true

/-- The names of the root fields that the rules fail on. -/
def Form.excluded (rules : List Rule) (form : Form) : List String :=
  (form.fields.filter (Field.fails rules)).map Field.name

/-- The members of a shape that do not have one of the names. -/
def Shape.without (names : List String) (shape : Shape) : Shape :=
  shape.filter fun member => !names.contains member.1

/-- A step that does not name some fields. -/
def Step.without (names : List String) (s : Step) : Step :=
  { s with fields := s.fields.filter fun name => !names.contains name }

/-- The steps of a form as plain data, with some names left out. -/
def Form.stepsWithout (names : List String) (form : Form) : Datum :=
  .ofOption (fun steps => .list (steps.map fun s => (s.without names).toDatum)) form.steps

/-! ## Steps as plain data -/

theorem textItems_texts (name : String) : ∀ ss : List String,
    Entries.textItems name (ss.map .text) = .valid ss
  | [] => rfl
  | s :: rest => by
    rw [List.map_cons, Entries.textItems, textItems_texts name rest]
    rfl

/-- A step is read back from its record. -/
theorem Step.read_toDatum (s : Step) : Step.read s.toDatum = .valid s := by
  obtain ⟨id, label, description, fields⟩ := s
  have hfields := textItems_texts "fields" fields
  cases description <;>
    simp [Step.read, Step.toDatum, Entries.required, Entries.nullable, Entries.textsOrNone,
      List.lookup_cons, Datum.ofText?, Datum.ofOption, Datum.text?, Checked.ofOption, Checked.and,
      Checked.map, hfields]

theorem readStep_toDatum {known : List String} {s : Step} (h : s.fields ⊆ known) :
    readStep known s.toDatum = .ok s := by
  have hknown : firstUnknown? known s.fields = none := by
    rw [firstUnknown?, List.find?_eq_none]
    exact fun name hn => by simpa using h hn
  simp only [readStep, Step.read_toDatum, Checked.toResult, hknown]

theorem readFormSteps_toDatum {known : List String} : ∀ {steps : List Step},
    (∀ s ∈ steps, s.fields ⊆ known) →
      (steps.map Step.toDatum).mapM (readStep known) = .ok steps
  | [], _ => rfl
  | s :: rest, h => by
    rw [List.map_cons, List.mapM_cons, readStep_toDatum (h s List.mem_cons_self),
      readFormSteps_toDatum fun t ht => h t (List.mem_cons_of_mem s ht)]
    rfl

/-- A step that was read only names known fields. -/
theorem fields_subset_of_readStep {known : List String} {d : Datum} {s : Step}
    (h : readStep known d = .ok s) : s.fields ⊆ known := by
  unfold readStep at h
  split at h
  · cases h
  · rename_i step _
    split at h
    · cases h
    · rename_i hnone
      cases h
      rw [firstUnknown?, List.find?_eq_none] at hnone
      exact fun name hn => by simpa using hnone name hn

theorem fields_subset_of_readSteps {known : List String} : ∀ {items : List Datum}
    {steps : List Step}, items.mapM (readStep known) = .ok steps →
      ∀ s ∈ steps, s.fields ⊆ known
  | [], steps, h, s, hs => by
    cases h
    cases hs
  | d :: rest, steps, h, s, hs => by
    obtain ⟨first, others, hd, hr, rfl⟩ := mapM_cons_eq_ok.1 h
    rcases List.mem_cons.1 hs with rfl | hs
    · exact fields_subset_of_readStep hd
    · exact fields_subset_of_readSteps hr s hs

theorem fields_subset_of_readFormSteps {known : List String} {d : Datum} {steps : List Step}
    (h : readFormSteps known d = .ok (some steps)) : ∀ s ∈ steps, s.fields ⊆ known := by
  unfold readFormSteps at h
  split at h
  · cases h
  · split at h
    · cases h
    · obtain ⟨read, hread, heq⟩ := map_eq_ok.1 h
      cases heq
      exact fields_subset_of_readSteps hread

/-- The steps of a form are read back, with some names left out, if the others are known. -/
theorem readFormSteps_stepsWithout {known names : List String} {form : Form}
    (h : ∀ steps, form.steps = some steps → ∀ s ∈ steps, (s.without names).fields ⊆ known) :
    readFormSteps known (form.stepsWithout names) =
      .ok (form.steps.map (List.map (Step.without names))) := by
  unfold Form.stepsWithout
  cases hs : form.steps with
  | none => rfl
  | some steps =>
    have hread : (steps.map fun s => (s.without names).toDatum).mapM (readStep known) =
        .ok (steps.map (Step.without names)) := by
      have hkept : ∀ s ∈ steps.map (Step.without names), s.fields ⊆ known := by
        simpa using h steps hs
      have hread := readFormSteps_toDatum hkept
      rwa [List.map_map] at hread
    simp only [Datum.ofOption, readFormSteps, Datum.sequence, hread]
    rfl

/-! ## What is rendered -/

/-- A field is chosen with the configuration that the rules give it. -/
theorem mem_chosenBy {rules : List Rule} {fields : List Field} {e : Field × Config}
    (h : e ∈ chosenBy rules fields) : e.1 ∈ fields ∧ e.1.resolve rules = .ok e.2 := by
  obtain ⟨f, hf, hsome⟩ := List.mem_filterMap.1 h
  split at hsome
  · rename_i config hresolve
    obtain rfl := Option.some.inj hsome
    exact ⟨hf, hresolve⟩
  · cases hsome

theorem chosenBy_filter (rules : List Rule) (fields : List Field) :
    chosenBy rules (fields.filter fun f => !f.fails rules) = chosenBy rules fields := by
  rw [chosenBy, chosenBy, List.filterMap_filter]
  refine List.filterMap_congr fun f _ => ?_
  cases hf : f.resolve rules <;> simp [Field.fails, hf]

theorem chosenBy_names (rules : List Rule) (fields : List Field) :
    (chosenBy rules fields).map (fun (f, _) => f.name) =
      (fields.filter fun f => !f.fails rules).map Field.name := by
  induction fields with
  | nil => rfl
  | cons f rest ih =>
    cases hf : f.resolve rules with
    | ok config => simpa [chosenBy, Field.fails, hf] using ih
    | error e => simpa [chosenBy, Field.fails, hf] using ih

/-- Of fields with different names, those that the rules do not fail on are those whose names are
not among the excluded ones. -/
theorem Form.not_fails_iff {form : Form} (hn : (form.fields.map Field.name).Nodup)
    (rules : List Rule) {f : Field} (hf : f ∈ form.fields) :
    f.fails rules = (form.excluded rules).contains f.name := by
  rw [Bool.eq_iff_iff, List.contains_iff_mem, Form.excluded, List.mem_map]
  constructor
  · exact fun h => ⟨f, List.mem_filter.2 ⟨hf, h⟩, rfl⟩
  · rintro ⟨g, hg, heq⟩
    rw [List.mem_filter] at hg
    exact List.inj_on_of_nodup_map hn hg.1 hf heq ▸ hg.2

theorem Form.filter_not_excluded {form : Form} (hn : (form.fields.map Field.name).Nodup)
    (rules : List Rule) :
    (form.fields.filter fun f => !(form.excluded rules).contains f.name) =
      form.fields.filter fun f => !f.fails rules :=
  List.filter_congr fun f hf => by rw [Form.not_fails_iff hn rules hf]

/-- A rendered field is not among the excluded ones, so nothing is lost from a step by leaving
them out first. -/
theorem Step.restrict_without {names excluded : List String} (h : ∀ n ∈ names, n ∉ excluded)
    (s : Step) : (s.without excluded).restrict names = s.restrict names := by
  simp only [Step.restrict, Step.without, List.filter_filter]
  congr 1
  refine List.filter_congr fun name _ => ?_
  by_cases hm : name ∈ names
  · simp [hm, h name hm]
  · simp [hm]

/-- The warnings of the fields that are left out, one for each, in order. -/
theorem exclusions_forall₂ (rules : List Rule) (fields : List Field) :
    List.Forall₂ (fun f warning => ∃ e : Failure, f.resolve rules = .error e ∧
        warning = "Field \"" ++ f.name ++ "\": " ++ e.detail ++ "; field excluded from the form")
      (fields.filter (Field.fails rules)) (exclusions rules fields) := by
  induction fields with
  | nil => exact .nil
  | cons f rest ih =>
    cases hf : f.resolve rules with
    | ok config => simpa [exclusions, Field.fails, hf] using ih
    | error e => simpa [exclusions, Field.fails, hf, exclusionWarning] using ih

theorem introspect_eq_ok {schema : Value} {naming : Naming} {steps : Datum} {form : Form}
    {shape : Shape} (hshape : rootShape schema = .ok shape) :
    introspect schema naming steps = .ok form ↔
      ∃ fields warnings kept, (fieldsOf "" shape).run = .ok (fields, warnings) ∧
        readFormSteps (fields.map Field.name) steps = .ok kept ∧
        form = ⟨naming, fields, warnings, kept⟩ := by
  simp only [introspect, hshape]
  rcases (fieldsOf "" shape).run with e | ⟨fields, warnings⟩
  · simp
  · cases hs : readFormSteps (fields.map Field.name) steps <;> simp [hs, eq_comm]

/-- The form of the schema without the members of some names. -/
theorem introspect_without {schema : Value} {naming : Naming} {steps : Datum} {form : Form}
    {shape : Shape} (names : List String) (hshape : rootShape schema = .ok shape)
    (hform : introspect schema naming steps = .ok form) :
    ∃ fewer, introspect (.node (.plain (.object (shape.without names)))) naming
        (form.stepsWithout names) =
      .ok ⟨naming, form.fields.filter fun f => !names.contains f.name, fewer,
        form.steps.map (List.map (Step.without names))⟩ := by
  obtain ⟨fields, warnings, kept, hfields, hsteps, rfl⟩ := (introspect_eq_ok hshape).1 hform
  obtain ⟨fewer, hfewer⟩ := fieldsOf_filter (fun name => !names.contains name) hfields
  have hroot : rootShape (.node (.plain (.object (shape.without names)))) =
      .ok (shape.without names) := by
    simp only [rootShape, Node.plain, Value.shape?]
  -- What a step still names is a name of the form, and not one of those that are left out.
  have hknown : ∀ steps, kept = some steps → ∀ s ∈ steps, (s.without names).fields ⊆
      (fields.filter fun f => !names.contains f.name).map Field.name := by
    rintro _ rfl s hs name hname
    rw [Step.without, List.mem_filter] at hname
    obtain ⟨f, hf, rfl⟩ := List.mem_map.1 (fields_subset_of_readFormSteps hsteps s hs hname.1)
    exact List.mem_map.2 ⟨f, List.mem_filter.2 ⟨hf, hname.2⟩, rfl⟩
  exact ⟨fewer, (introspect_eq_ok hroot).2
    ⟨_, _, _, hfewer, readFormSteps_stepsWithout hknown, rfl⟩⟩

/-- Fields that the rules fail on, and their names in the steps, make no difference to the code. -/
theorem Form.generate_without {form : Form} {rules : List Rule} {settings : Settings}
    {out : Generated} (hn : (form.fields.map Field.name).Nodup) (warnings : List String)
    (hout : form.generate rules settings = .ok out) :
    ∃ out', Form.generate ⟨form.naming,
        form.fields.filter fun f => !(form.excluded rules).contains f.name, warnings,
        form.steps.map (List.map (Step.without (form.excluded rules)))⟩ rules settings = .ok out' ∧
      out'.code = out.code ∧ out'.primitives = out.primitives := by
  have hchosen := chosenBy_filter rules form.fields
  have hnames : ∀ n ∈ (chosenBy rules form.fields).map (fun (f, _) => f.name),
      n ∉ form.excluded rules := by
    intro n hn'
    rw [chosenBy_names, ← Form.filter_not_excluded hn rules, List.mem_map] at hn'
    obtain ⟨f, hf, rfl⟩ := hn'
    simpa using (List.mem_filter.1 hf).2
  have hsteps : ((form.steps.map (List.map (Step.without (form.excluded rules)))).getD []).map
        (Step.restrict ((chosenBy rules form.fields).map fun (f, _) => f.name)) =
      (form.steps.getD []).map
        (Step.restrict ((chosenBy rules form.fields).map fun (f, _) => f.name)) := by
    cases form.steps with
    | none => rfl
    | some steps =>
      simp only [Option.map_some, Option.getD_some, List.map_map]
      exact List.map_congr_left fun s _ => Step.restrict_without hnames s
  simp only [Form.generate] at hout ⊢
  rw [Form.filter_not_excluded hn rules, hchosen, hsteps]
  obtain ⟨code, hcode, rfl⟩ := map_eq_ok.1 hout
  rw [hcode]
  exact ⟨_, rfl, rfl, rfl⟩

/-! ## Both runs -/

/-- A root field that the rules fail on leaves no trace but a warning. The rendered fields are the
others, and the code and what it imports are those of the schema without its member and of steps
that do not name it. -/
theorem generate_excludes {schema : Value} {naming : Naming} {steps : Datum} {rules : List Rule}
    {settings : Settings} {shape : Shape} {out : Generated}
    (hshape : rootShape schema = .ok shape) (hkeys : (shape.map Prod.fst).Nodup)
    (hout : generate schema naming steps rules settings = .ok out) :
    ∃ form, introspect schema naming steps = .ok form ∧
      form.fields.map Field.name = shape.map Prod.fst ∧
      out.fields = (shape.map Prod.fst).filter (fun name =>
        !(form.excluded rules).contains name) ∧
      (∃ left, out.warnings = form.warnings ++ left ∧
        List.Forall₂ (fun f warning => ∃ e : Failure, f.resolve rules = .error e ∧
            warning =
              "Field \"" ++ f.name ++ "\": " ++ e.detail ++ "; field excluded from the form")
          (form.fields.filter (Field.fails rules)) left) ∧
      ∃ out', generate (.node (.plain (.object (shape.without (form.excluded rules))))) naming
          (form.stepsWithout (form.excluded rules)) rules settings = .ok out' ∧
        out'.code = out.code ∧ out'.primitives = out.primitives := by
  unfold generate at hout
  split at hout
  · cases hout
  rename_i form hform
  obtain ⟨fewer, hfewer⟩ := introspect_without (form.excluded rules) hshape hform
  obtain ⟨fields, warnings, kept, hfields, -, heq⟩ := (introspect_eq_ok hshape).1 hform
  have hnames : form.fields.map Field.name = shape.map Prod.fst := heq ▸ fieldsOf_names hfields
  have hn : (form.fields.map Field.name).Nodup := hnames ▸ hkeys
  refine ⟨form, hform, hnames, ?_, ?_, ?_⟩
  · rw [← hnames, List.filter_map]
    obtain ⟨code, -, rfl⟩ := map_eq_ok.1 hout
    simp only [Function.comp_def]
    rw [Form.filter_not_excluded hn rules]
    exact chosenBy_names rules form.fields
  · obtain ⟨code, -, rfl⟩ := map_eq_ok.1 hout
    exact ⟨exclusions rules form.fields, rfl, exclusions_forall₂ rules form.fields⟩
  · have hnaming : form.naming = naming := heq ▸ rfl
    rw [generate, hfewer, ← hnaming]
    exact Form.generate_without hn fewer hout

/-- A text and a flag. -/
def textAndFlag : Shape :=
  [("a", .node (.plain (.string none))), ("b", .node (.plain .boolean))]

/-- A table that accepts texts only. -/
def textRules : List Rule :=
  [⟨"text", fun f => .ok (f.type == .string), .input, fun _ => .ok []⟩]

/-- The field of the text. -/
def textField : Field :=
  ⟨"a", "A", none, false, false, {}, .string, none⟩

/-- The configuration of the text. -/
def textConfig : Config :=
  ⟨.input, {}, .none, [], ⟨"A", none, true⟩⟩

theorem fieldsOf_textAndFlag : (fieldsOf "" textAndFlag).run =
    .ok ([textField, ⟨"b", "B", none, false, false, {}, .boolean, none⟩], []) := by
  have peel_a : (Value.node (.plain (.string none))).peel =
      .ok ⟨.plain (.string none), false, false, .null⟩ :=
    peelFrom_of_unwrap (u := ⟨.plain (.string none), false, false⟩) (by cbv)
  have peel_b : (Value.node (.plain .boolean)).peel = .ok ⟨.plain .boolean, false, false, .null⟩ :=
    peelFrom_of_unwrap (u := ⟨.plain .boolean, false, false⟩) (by cbv)
  refine fieldsOf_cons.2 ⟨_, [], _, [], ?_, fieldsOf_cons.2 ⟨_, [], [], [], ?_, ?_, rfl, rfl⟩,
    rfl, rfl⟩
  · rw [fieldOf_of_plan peel_a rfl]
    cbv
  · rw [fieldOf_of_plan peel_b rfl]
    cbv
  · rw [fieldsOf]
    rfl

theorem rootShape_textAndFlag : rootShape (.node (.plain (.object textAndFlag))) =
    .ok textAndFlag := by
  simp only [rootShape, Node.plain, Value.shape?]

theorem chosenBy_textAndFlag :
    chosenBy textRules [textField, ⟨"b", "B", none, false, false, {}, .boolean, none⟩] =
      [(textField, textConfig)] := by
  cbv

theorem generate_textAndFlag : ∃ out,
    generate (.node (.plain (.object textAndFlag))) ⟨"F", "./s", "s"⟩
      (.list [Step.toDatum ⟨"s", "S", none, ["b", "a"]⟩]) textRules {} = .ok out ∧
        out.fields = ["a"] := by
  have hsteps : readFormSteps ["a", "b"] (.list [Step.toDatum ⟨"s", "S", none, ["b", "a"]⟩]) =
      .ok (some [⟨"s", "S", none, ["b", "a"]⟩]) := by cbv
  obtain ⟨markup, hmarkup⟩ : ∃ markup,
      Markup.fieldMarkup (.path "a") textField textConfig = .ok markup :=
    ⟨_, by simp only [Markup.fieldMarkup, textConfig]; rfl⟩
  rw [generate, (introspect_eq_ok rootShape_textAndFlag).2
    ⟨_, _, _, fieldsOf_textAndFlag, hsteps, rfl⟩]
  simp only [Form.generate, chosenBy_textAndFlag]
  have hname : textField.name = "a" := rfl
  have hstate (h : FormFile.Head) :
      FormFile.writeState h [textField] = .ok (FormFile.formState h [textField]) := rfl
  simp [Step.restrict, FormFile.text, FormFile.steppedFile, FormFile.stepBlocks,
    FormFile.fieldsMarkup, FormFile.chosenNamed, FormFile.rootMarkups, hname, hmarkup, hstate,
    Except.map]

/-- Of a text and a flag only the text is rendered, under the step that named both, and the code
is that of the text alone. -/
theorem generate_excludes_flag : ∃ (out : Generated) (form : Form) (out' : Generated),
    generate (.node (.plain (.object textAndFlag))) ⟨"F", "./s", "s"⟩
      (.list [Step.toDatum ⟨"s", "S", none, ["b", "a"]⟩]) textRules {} = .ok out ∧
    out.fields = ["a"] ∧
    generate (.node (.plain (.object (textAndFlag.without (form.excluded textRules)))))
      ⟨"F", "./s", "s"⟩ (form.stepsWithout (form.excluded textRules)) textRules {} = .ok out' ∧
    out'.code = out.code := by
  obtain ⟨out, hout, hfields⟩ := generate_textAndFlag
  obtain ⟨form, -, -, -, -, out', hout', hcode, -⟩ :=
    generate_excludes rootShape_textAndFlag (by decide) hout
  exact ⟨out, form, out', hout, hfields, hout', hcode⟩

end FormSchema
