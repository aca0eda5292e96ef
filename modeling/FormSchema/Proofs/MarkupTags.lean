import FormSchema.Failure
import FormSchema.Proofs.Tags

/-!
# Tags of the pieces of markup

Each piece of markup has fixed tags of its own, those of the parts of a card, of a button and of the
frame of a field, and apart from them the tags of the markup that is put into it. What else is put
into a piece is plain, or becomes so between tags. A control has the tags of its component alone
(`renders_control`).
-/

namespace FormSchema

/-- The texts of a frame are plain. -/
structure Frame.IsPlain (frame : Frame) : Prop where
  label : FormSchema.IsPlain frame.label
  description : ∀ s ∈ frame.description, FormSchema.IsPlain s

/-- The texts of properties are plain. -/
structure ControlProps.IsPlain (p : ControlProps) : Prop where
  type : ∀ s ∈ p.type, FormSchema.IsPlain s
  pattern : ∀ s ∈ p.pattern, FormSchema.IsPlain s
  options : ∀ options ∈ p.options, ∀ s ∈ options, FormSchema.IsPlain s

namespace Markup

open Text (lines indent escapeText)

variable {names : List String}

/-! ## Buttons -/

section Buttons

variable (hbase : ["Button", "Field"] ⊆ names)

include hbase

/-- The button that removes a row uses imported names only. -/
theorem renders_removeButton : Renders names removeButton :=
  renders_between hbase rfl rfl (by decide) (by decide)
    (isPlain_codeAttribute (isPlain_fixed rfl (by decide)) (isPlain_fixed rfl (by decide)))

/-- The button that adds a row uses imported names only, if the value it adds is plain. -/
theorem renders_addButton (label : String) {value : String} (hvalue : IsPlain value) :
    Renders names (addButton label value) := by
  have hcode : IsPlain ("() => arrayField.pushValue(" ++ value ++ ")") := isPlain_append.2
    ⟨isPlain_append.2 ⟨isPlain_fixed rfl (by decide), hvalue⟩, isPlain_fixed rfl (by decide)⟩
  have hopen : Renders names ("<Button type=\"button\" variant=\"outline\" " ++
      codeAttribute "onClick" ("() => arrayField.pushValue(" ++ value ++ ")") ++ ">Add ") :=
    renders_between hbase rfl rfl (by decide) (by decide)
      (isPlain_codeAttribute (isPlain_fixed rfl (by decide)) hcode)
  have hlabel := hopen.append_of_isShut (isShut_append _ (by decide) (by decide))
    (renders_of_isPlain (isPlain_escapeText label))
  exact hlabel.append_of_endsName (by decide) (renders_fixed hbase rfl (by decide))

end Buttons

/-! ## Cards -/

section Cards

variable (hcard : cardPrimitives ⊆ names)

include hcard

/-- A card around parts that use imported names uses imported names. -/
theorem renders_card (title : String) {body : List String} (hbody : RenderAll names body) :
    Renders names (card title body) := by
  have fixed {s : String} {cs : List Char} := @renders_fixed names _ s cs hcard
  have htitle : Renders names ("    <CardTitle>" ++ escapeText title ++ "</CardTitle>") :=
    renders_between hcard rfl rfl (by decide) (by decide) (isPlain_escapeText title)
  simp only [card, renders_lines, renderAll_append, renderAll_cons, renderAll_nil, and_true]
  exact ⟨⟨⟨fixed rfl (by decide), fixed rfl (by decide), htitle, fixed rfl (by decide),
    fixed rfl (by decide)⟩, hbody⟩, fixed rfl (by decide), fixed rfl (by decide)⟩

/-- The card of the rows uses imported names, if the rows and the button do. -/
theorem renders_rowsCard (title : String) {path add : String} {rows : List String}
    (hpath : IsPlain path) (hrows : RenderAll names rows) (hadd : Renders names add) :
    Renders names (rowsCard title path rows add) := by
  have fixed {s : String} {cs : List Char} := @renders_fixed names _ s cs hcard
  have hopen : Renders names ("<form.Field " ++ textAttribute "name" path ++ " mode=\"array\">") :=
    renders_between hcard rfl rfl (by decide) (by decide) (isPlain_textAttribute (by decide) hpath)
  have htitle : Renders names ("        <CardTitle>" ++ escapeText title ++ "</CardTitle>") :=
    renders_between hcard rfl rfl (by decide) (by decide) (isPlain_escapeText title)
  have hbutton : Renders names ("        " ++ add) := hadd.behind rfl (by decide)
  simp only [rowsCard, renders_lines, renderAll_append, renderAll_cons, renderAll_nil, and_true]
  exact ⟨⟨⟨hopen, fixed rfl (by decide), fixed rfl (by decide), fixed rfl (by decide), htitle,
    fixed rfl (by decide), fixed rfl (by decide)⟩, hrows⟩, hbutton, fixed rfl (by decide),
    fixed rfl (by decide), fixed rfl (by decide), fixed rfl (by decide)⟩

/-- The card of a row uses imported names, if its content does. -/
theorem renderAll_rowCards (hbase : ["Button", "Field"] ⊆ names) {row title : String}
    {content : List String} (hrow : IsPlain row) (htitle : IsPlain title)
    (hcontent : RenderAll names content) : RenderAll names (rowCards row title content) := by
  have fixed {s : String} {cs : List Char} := @renders_fixed names _ s cs hcard
  have hopen : Renders names
      ("        \x7b(arrayField.state.value ?? []).map((" ++ row ++ ", i) => (") :=
    renders_between hcard rfl rfl (by decide) (by decide) hrow
  have htitle : Renders names
      ("              <CardTitle>" ++ title ++ " \x7bi + 1\x7d</CardTitle>") :=
    renders_between hcard rfl rfl (by decide) (by decide) htitle
  have hbutton : Renders names ("              " ++ removeButton) :=
    (renders_removeButton hbase).behind rfl (by decide)
  simp only [rowCards, renderAll_append, renderAll_cons, renderAll_nil, and_true]
  exact ⟨⟨⟨hopen, fixed rfl (by decide), fixed rfl (by decide), htitle, hbutton,
    fixed rfl (by decide), fixed rfl (by decide)⟩, hcontent⟩, fixed rfl (by decide),
    fixed rfl (by decide), fixed rfl (by decide)⟩

end Cards

/-! ## Frames -/

section Frames

variable (hbase : ["Button", "Field"] ⊆ names)

/-- The attributes of a plain frame open no tag. -/
theorem isPlain_frameLines {frame : Frame} (h : frame.IsPlain) :
    ∀ l ∈ frameLines frame, IsPlain l := by
  have hlabel : IsPlain (textAttribute "label" frame.label) :=
    isPlain_textAttribute (by decide) h.label
  unfold frameLines
  refine List.forall_mem_append.2 ⟨List.forall_mem_append.2
    ⟨List.forall_mem_singleton.2 hlabel, ?_⟩, ?_⟩
  · split
    · rename_i s hs
      split
      · simp
      · exact List.forall_mem_singleton.2 (isPlain_textAttribute (by decide) (h.description s hs))
    · simp
  · split
    · exact List.forall_mem_singleton.2 (by decide)
    · simp

theorem isPlain_errorAttribute :
    IsPlain (codeAttribute "error" "field.state.meta.errors?.[0]") :=
  isPlain_codeAttribute (by decide) (isPlain_fixed rfl (by decide))

include hbase

/-- A bound field uses the names that its control uses, and those of the field around it. -/
theorem renders_boundField {place : Place} {frame : Frame} {control : String}
    (hplace : place.IsPlain) (hframe : frame.IsPlain) (hcontrol : Renders names control) :
    Renders names (boundField place frame control) := by
  have fixed {s : String} {cs : List Char} := @renders_fixed names _ s cs hbase
  have hname : Renders names ("  " ++ place.nameAttribute) :=
    (renders_of_isPlain (Place.isPlain_nameAttribute hplace)).behind rfl (by decide)
  have hlines : RenderAll names ((frameLines frame).map ("      " ++ ·)) :=
    List.forall_mem_map.2 fun l hl =>
      (renders_of_isPlain (isPlain_frameLines hframe l hl)).behind rfl (by decide)
  have herror : Renders names ("      " ++ codeAttribute "error" "field.state.meta.errors?.[0]") :=
    (renders_of_isPlain isPlain_errorAttribute).behind rfl (by decide)
  simp only [boundField, renders_lines, renderAll_append, renderAll_cons, renderAll_nil, and_true]
  exact ⟨⟨⟨fixed rfl (by decide), hname, fixed rfl (by decide), fixed rfl (by decide)⟩, hlines⟩,
    herror, fixed rfl (by decide), renders_indent.2 hcontrol, fixed rfl (by decide),
    fixed rfl (by decide), fixed rfl (by decide)⟩

end Frames

/-! ## Lines of controls -/

theorem isPlain_margin {s : String} (h : IsPlain s) : IsPlain ("  " ++ s) :=
  isPlain_append.2 ⟨by decide, h⟩

/-- An attribute of text opens no tag, whatever the text is. -/
theorem isPlain_textLine {name : String} (hname : IsPlain name) {o : Option String}
    (h : ∀ s ∈ o, IsPlain s) : ∀ l ∈ textLine name o, IsPlain l := by
  unfold textLine
  split
  · exact List.forall_mem_singleton.2 (isPlain_margin (isPlain_textAttribute hname (h _ rfl)))
  · simp

theorem isPlain_numberLine {name : String} (hname : IsPlain name) (o : Option Number) :
    ∀ l ∈ numberLine name o, IsPlain l := by
  unfold numberLine
  split
  · exact List.forall_mem_singleton.2
      (isPlain_margin (isPlain_codeAttribute hname (isPlain_literal _)))
  · simp

theorem isPlain_lengthLine {name : String} (hname : IsPlain name) (o : Option Int) :
    ∀ l ∈ lengthLine name o, IsPlain l := by
  unfold lengthLine
  split
  · exact List.forall_mem_singleton.2
      (isPlain_margin (isPlain_codeAttribute hname (isPlain_intText _)))
  · simp

theorem isPlain_codeLine {name value : String} (hname : IsPlain name) (hvalue : IsPlain value) :
    IsPlain ("  " ++ codeAttribute name value) :=
  isPlain_margin (isPlain_codeAttribute hname hvalue)

/-- The lines that bind a control to its value open no tag. -/
theorem isPlain_boundLines {value : String} (h : IsPlain value) :
    ∀ l ∈ boundLines value, IsPlain l := by
  have hchange : IsPlain ("(e) => field.handleChange(" ++ value ++ ")") :=
    isPlain_append.2 ⟨isPlain_append.2 ⟨isPlain_fixed rfl (by decide), h⟩, by decide⟩
  exact List.forall_mem_cons.2 ⟨isPlain_codeLine (by decide) (isPlain_fixed rfl (by decide)),
    List.forall_mem_cons.2 ⟨isPlain_codeLine (by decide) hchange, List.forall_mem_cons.2
      ⟨isPlain_codeLine (by decide) (isPlain_fixed rfl (by decide)),
        List.forall_mem_singleton.2 (by decide)⟩⟩⟩

/-! ## Controls -/

theorem renders_codeLine {name value : String} (hname : IsPlain name) (hvalue : IsPlain value) :
    Renders names ("  " ++ codeAttribute name value) :=
  renders_of_isPlain (isPlain_codeLine hname hvalue)

/-- The opening tag of a choice. -/
theorem renders_choice {tags : List String} {start : String} {cs : List Char}
    (hnames : tags ⊆ names) (hstart : start = String.ofList cs)
    (h : (haveTags tags cs && isShut cs) = true) :
    Renders names (start ++ codeAttribute "value" "field.state.value" ++ " " ++
      codeAttribute "onValueChange" "field.handleChange" ++ ">") := by
  have hselected : IsPlain (codeAttribute "value" "field.state.value") :=
    isPlain_codeAttribute (by decide) (isPlain_fixed rfl (by decide))
  have hchanged : IsPlain (codeAttribute "onValueChange" "field.handleChange") :=
    isPlain_codeAttribute (by decide) (isPlain_fixed rfl (by decide))
  have hvalue : Renders names (start ++ codeAttribute "value" "field.state.value" ++ " ") :=
    renders_between hnames hstart rfl h rfl hselected
  exact (hvalue.append_of_isShut (isShut_append _ (by decide) (by decide))
    (renders_of_isPlain hchanged)).append_of_endsName (by decide) (renders_fixed hnames rfl rfl)

/-- An input uses the primitive of that name. -/
theorem renders_input {p : ControlProps} (h : p.IsPlain) (hnames : ["Input"] ⊆ names) :
    Renders names (inputMarkup p) := by
  have htype : ∀ l ∈ textLine "type" p.type, IsPlain l := isPlain_textLine (by decide) h.type
  have hpattern : ∀ l ∈ textLine "pattern" p.pattern, IsPlain l :=
    isPlain_textLine (by decide) h.pattern
  have hbound : ∀ l ∈ boundLines (if p.type == some "number" then "e.target.valueAsNumber"
      else "e.target.value"), IsPlain l :=
    isPlain_boundLines (by split <;> exact isPlain_fixed rfl (by decide))
  simp only [inputMarkup, renders_lines, renderAll_append, renderAll_cons, renderAll_nil, and_true]
  exact ⟨⟨⟨⟨⟨⟨⟨⟨renders_fixed hnames rfl (by decide), renderAll_of_isPlain htype⟩,
    renderAll_of_isPlain (isPlain_numberLine (by decide) _)⟩,
    renderAll_of_isPlain (isPlain_numberLine (by decide) _)⟩,
    renderAll_of_isPlain (isPlain_numberLine (by decide) _)⟩,
    renderAll_of_isPlain (isPlain_lengthLine (by decide) _)⟩,
    renderAll_of_isPlain (isPlain_lengthLine (by decide) _)⟩,
    renderAll_of_isPlain hpattern⟩, renderAll_of_isPlain hbound⟩

/-- A text area uses the primitive of that name. -/
theorem renders_textarea (p : ControlProps) (hnames : ["Textarea"] ⊆ names) :
    Renders names (textareaMarkup p) := by
  have hbound : ∀ l ∈ boundLines "e.target.value", IsPlain l :=
    isPlain_boundLines (isPlain_fixed rfl (by decide))
  simp only [textareaMarkup, renders_lines, renderAll_append, renderAll_cons, renderAll_nil,
    and_true]
  exact ⟨⟨renders_fixed hnames rfl (by decide),
    renderAll_of_isPlain (isPlain_lengthLine (by decide) _)⟩, renderAll_of_isPlain hbound⟩

/-- A checkbox uses the primitive of that name. -/
theorem renders_checkbox (hnames : ["Checkbox"] ⊆ names) : Renders names checkboxMarkup := by
  have fixed {s : String} {cs : List Char} := @renders_fixed names _ s cs hnames
  simp only [checkboxMarkup, renders_lines, renderAll_cons, renderAll_nil, and_true]
  exact ⟨fixed rfl (by decide),
    renders_codeLine (by decide) (isPlain_fixed rfl (by decide)),
    renders_codeLine (by decide) (isPlain_fixed rfl (by decide)), fixed rfl (by decide)⟩

/-- A date picker uses the primitive of that name. -/
theorem renders_date (hnames : ["DatePicker"] ⊆ names) : Renders names dateMarkup := by
  have fixed {s : String} {cs : List Char} := @renders_fixed names _ s cs hnames
  simp only [dateMarkup, renders_lines, renderAll_cons, renderAll_nil, and_true]
  exact ⟨fixed rfl (by decide),
    renders_codeLine (by decide) (isPlain_fixed rfl (by decide)),
    renders_codeLine (by decide) (isPlain_fixed rfl (by decide)), fixed rfl (by decide)⟩

/-- A slider uses the primitive of that name. -/
theorem renders_slider (p : ControlProps) (hnames : ["Slider"] ⊆ names) :
    Renders names (sliderMarkup p) := by
  have fixed {s : String} {cs : List Char} := @renders_fixed names _ s cs hnames
  have hvalue : IsPlain ("[field.state.value ?? " ++ (p.min.getD (.int 0)).literal ++ "]") :=
    isPlain_append.2
      ⟨isPlain_append.2 ⟨isPlain_fixed rfl (by decide), isPlain_literal _⟩, by decide⟩
  simp only [sliderMarkup, renders_lines, renderAll_cons, renderAll_nil, and_true]
  exact ⟨fixed rfl (by decide), renders_codeLine (by decide) hvalue,
    renders_codeLine (by decide) (isPlain_fixed rfl (by decide)),
    renders_codeLine (by decide) (isPlain_literal _),
    renders_codeLine (by decide) (isPlain_literal _),
    renders_codeLine (by decide) (isPlain_literal _), fixed rfl (by decide)⟩

/-- An option of a selection uses the primitive of the selection. -/
theorem renders_selectItem {option : String} (h : IsPlain option) (hnames : ["Select"] ⊆ names) :
    Renders names (selectItem option) := by
  have hopen : Renders names ("    <Select.Item " ++ textAttribute "value" option ++ ">") :=
    renders_between hnames rfl rfl (by decide) (by decide) (isPlain_textAttribute (by decide) h)
  have htext := hopen.append_of_isShut (isShut_append _ (by decide) (by decide))
    (renders_of_isPlain (isPlain_escapeText (Text.optionLabel option)))
  exact htext.append_of_endsName (by decide) (renders_fixed hnames rfl (by decide))

/-- A selection uses the primitive of that name, for its options too. -/
theorem renders_select {options : List String} (h : ∀ s ∈ options, IsPlain s)
    (hnames : ["Select"] ⊆ names) : Renders names (selectMarkup options) := by
  have fixed {s : String} {cs : List Char} := @renders_fixed names _ s cs hnames
  have hitems : RenderAll names (options.map selectItem) :=
    List.forall_mem_map.2 fun s hs => renders_selectItem (h s hs) hnames
  simp only [selectMarkup, renders_lines, renderAll_append, renderAll_cons, renderAll_nil, and_true]
  exact ⟨⟨⟨renders_choice hnames rfl (by decide), fixed rfl (by decide), fixed rfl (by decide),
    fixed rfl (by decide), fixed rfl (by decide)⟩, hitems⟩, fixed rfl (by decide),
    fixed rfl (by decide)⟩

/-- An option of a radio group uses the group and a label. -/
theorem renderAll_radioItem {place : Place} {option : String} (hplace : place.IsPlain)
    (h : IsPlain option) (hnames : ["RadioGroup", "Label"] ⊆ names) :
    RenderAll names (radioItem place option) := by
  have fixed {s : String} {cs : List Char} := @renders_fixed names _ s cs hnames
  have hid := Place.isPlain_optionId hplace h
  have hvalue : Renders names ("    <RadioGroup.Item " ++ textAttribute "value" option ++ " id=") :=
    renders_between hnames rfl rfl (by decide) (by decide) (isPlain_textAttribute (by decide) h)
  have hitem := (hvalue.append_of_isShut (isShut_append _ (by decide) (by decide))
    (renders_of_isPlain hid)).append_of_endsName (t := " />") (by decide)
      (fixed rfl (by decide))
  have hopen : Renders names ("    <Label htmlFor=" ++ place.optionId option ++ ">") :=
    renders_between hnames rfl rfl (by decide) (by decide) hid
  have hlabel := (hopen.append_of_isShut (isShut_append _ (by decide) (by decide))
    (renders_of_isPlain (isPlain_escapeText (Text.optionLabel option)))).append_of_endsName
      (t := "</Label>") (by decide) (fixed rfl (by decide))
  simp only [radioItem, renderAll_cons, renderAll_nil, and_true]
  exact ⟨fixed rfl (by decide), hitem, hlabel, fixed rfl (by decide)⟩

/-- A radio group uses the group and a label for each option. -/
theorem renders_radio {place : Place} {options : List String} (hplace : place.IsPlain)
    (h : ∀ s ∈ options, IsPlain s) (hnames : ["RadioGroup", "Label"] ⊆ names) :
    Renders names (radioMarkup place options) := by
  have hitems : RenderAll names (options.flatMap (radioItem place)) := by
    intro l hl
    obtain ⟨s, hs, hl⟩ := List.mem_flatMap.1 hl
    exact renderAll_radioItem hplace (h s hs) hnames l hl
  simp only [radioMarkup, renders_lines, renderAll_append, renderAll_cons, renderAll_nil, and_true]
  exact ⟨⟨renders_choice hnames rfl (by decide), hitems⟩, renders_fixed hnames rfl (by decide)⟩

/-- The options that a control requires are among its plain props. -/
theorem isPlain_of_requireOptions {c : Config} {fieldName : String} {options : List String}
    (h : c.props.IsPlain) (hoptions : requireOptions c fieldName = .ok options) :
    ∀ s ∈ options, IsPlain s := by
  unfold requireOptions at hoptions
  split at hoptions
  · rename_i first rest hgiven
    cases hoptions
    exact h.options _ hgiven
  · cases hoptions

/-- A control has the tags that its component needs. -/
theorem renders_control {c : Config} {fieldName markup : String} {place : Place}
    (hprops : c.props.IsPlain) (hplace : place.IsPlain) (hnames : c.component.primitives ⊆ names)
    (h : controlMarkup fieldName c place = .ok markup) : Renders names markup := by
  unfold controlMarkup at h
  split at h <;> rename_i hcomponent
  · rw [hcomponent] at hnames
    obtain ⟨-, rfl⟩ := writing_eq_ok.1 h
    exact renders_input hprops hnames
  · rw [hcomponent] at hnames
    obtain ⟨-, rfl⟩ := writing_eq_ok.1 h
    exact renders_textarea _ hnames
  · rw [hcomponent] at hnames
    cases h
    exact renders_checkbox hnames
  · rw [hcomponent] at hnames
    obtain ⟨options, hoptions, rfl⟩ := map_eq_ok.1 h
    exact renders_select (isPlain_of_requireOptions hprops hoptions) hnames
  · rw [hcomponent] at hnames
    obtain ⟨options, hoptions, rfl⟩ := map_eq_ok.1 h
    exact renders_radio hplace (isPlain_of_requireOptions hprops hoptions) hnames
  · rw [hcomponent] at hnames
    obtain ⟨-, rfl⟩ := writing_eq_ok.1 h
    exact renders_slider _ hnames
  · rw [hcomponent] at hnames
    cases h
    exact renders_date hnames
  · cases h
    refine renders_of_isPlain (isPlain_comment (isPlain_append.2 ⟨by decide, ?_⟩))
    cases c.component <;> decide

/-! ## Choices of variants -/

/-- The choice of a variant uses a selection in a bound field. -/
theorem renders_variantChoice {place : Place} {discriminator : String} {tags : List String}
    (hbase : ["Button", "Field"] ⊆ names) (hselect : ["Select"] ⊆ names) (hplace : place.IsPlain)
    (hkey : IsPlain discriminator) (htags : ∀ tag ∈ tags, IsPlain tag) :
    Renders names (variantChoice place discriminator tags) := by
  have fixed {s : String} {cs : List Char} := @renders_fixed names _ s cs hbase
  have hname : Renders names ("  " ++ place.nameAttribute) :=
    renders_of_isPlain (isPlain_margin (Place.isPlain_nameAttribute hplace))
  have hopen : Renders names
      ("    <Field " ++ textAttribute "label" (Text.label discriminator) ++ " required>") :=
    renders_between hbase rfl rfl (by decide) (by decide)
      (isPlain_textAttribute (by decide) (isPlain_label hkey))
  simp only [variantChoice, renders_lines, renderAll_cons, renderAll_nil, and_true]
  exact ⟨fixed rfl (by decide), hname, fixed rfl (by decide), hopen,
    renders_indent.2 (renders_select htags hselect), fixed rfl (by decide), fixed rfl (by decide),
    fixed rfl (by decide)⟩

/-- The tags of variants are plain, and the markup of their fields has known tags. -/
def VariantsRender (names : List String) (variants : List (String × List String)) : Prop :=
  ∀ v ∈ variants, IsPlain v.1 ∧ RenderAll names v.2

theorem VariantsRender.tags {variants : List (String × List String)}
    (h : VariantsRender names variants) : ∀ tag ∈ variants.map Prod.fst, IsPlain tag :=
  List.forall_mem_map.2 fun v hv => (h v hv).1

/-- The parts of the variants use imported names, if each part does. -/
theorem renders_parts {variants : List (String × List String)}
    {part : String × List String → String} (h : VariantsRender names variants)
    (hpart : ∀ v, IsPlain v.1 → RenderAll names v.2 → Renders names (part v)) :
    Renders names (Text.joined "\n\n" (variants.map part)) :=
  (renders_joined separates_breaks).2
    (List.forall_mem_map.2 fun v hv => hpart v (h v hv).1 (h v hv).2)

/-! ## Rows -/

/-- An array of single controls uses the card and the primitives of its control. -/
theorem renders_singleArray {path markup : String} {c elementConfig : Config} {element : Field}
    (hbase : ["Button", "Field"] ⊆ names) (hcard : cardPrimitives ⊆ names) (hpath : IsPlain path)
    (hprops : elementConfig.props.IsPlain) (hnames : elementConfig.component.primitives ⊆ names)
    (hinitial : IsPlain (element.initial 3))
    (h : singleArray path c elementConfig element = .ok markup) : Renders names markup := by
  obtain ⟨control, hcontrol, -, rfl⟩ := singleArray_eq_ok h
  have hrows := Place.isPlain_rows hpath
  have fixed {s : String} {cs : List Char} := @renders_fixed names _ s cs hbase
  have hname : Renders names ("              " ++ (Place.rows path).nameAttribute) :=
    (renders_of_isPlain (Place.isPlain_nameAttribute hrows)).behind rfl (by decide)
  have hlabel : Renders names
      ("                <Field label=" ++ templated "Item $\x7bi + 1\x7d" ++ " ") :=
    renders_between hbase rfl rfl (by decide) (by decide)
      (isPlain_templated (isPlain_fixed rfl (by decide)))
  have hopen := (hlabel.append_of_isShut (isShut_append _ (by decide) (by decide))
    (renders_of_isPlain isPlain_errorAttribute)).append_of_endsName (t := ">") (by decide)
      (fixed rfl (by decide))
  have hbutton : Renders names ("            " ++ removeButton) :=
    (renders_removeButton hbase).behind rfl (by decide)
  have hall : RenderAll names (singleRows path control) := by
    simp only [singleRows, renderAll_cons, renderAll_nil, and_true]
    exact ⟨fixed rfl (by decide), fixed rfl (by decide), fixed rfl (by decide), hname,
      fixed rfl (by decide), hopen, renders_indent.2 (renders_control hprops hrows hnames hcontrol),
      fixed rfl (by decide), fixed rfl (by decide), fixed rfl (by decide), hbutton,
      fixed rfl (by decide), fixed rfl (by decide)⟩
  exact renders_rowsCard hcard _ hpath hall (renders_addButton hbase _ hinitial)

/-- An array of objects uses the card and what the fields of a row use. -/
theorem renders_objectArray {path : String} {c : Config} {element : Field}
    {children : List String} (hbase : ["Button", "Field"] ⊆ names)
    (hcard : cardPrimitives ⊆ names) (hpath : IsPlain path) (h : RenderAll names children) :
    Renders names (objectArray path c element children) :=
  renders_rowsCard hcard _ hpath
    (renderAll_rowCards hcard hbase (by decide) (isPlain_escapeText _)
      (renderAll_spaced (renderAll_indent 14 h)))
    (renders_addButton hbase _ (by decide))

theorem renders_rowVariant {discriminator tag : String} {children : List String}
    (hkey : IsPlain discriminator) (htag : IsPlain tag) (h : RenderAll names children) :
    Renders names (rowVariant discriminator tag children) := by
  have fixed {s : String} {cs : List Char} := @renders_fixed names _ s cs names.nil_subset
  have htest : IsPlain ("\x7b" ++ Text.memberAccess "item" [discriminator] ++ " === " ++
      Text.quoted tag ++ " && (") := by
    simp only [isPlain_append]
    exact ⟨⟨⟨⟨by decide, isPlain_memberAccess (by decide) (List.forall_mem_singleton.2 hkey)⟩,
      by decide⟩, isPlain_quoted htag⟩, by decide⟩
  rw [rowVariant, renders_indent]
  simp only [renders_lines, renderAll_append, renderAll_cons, renderAll_nil, and_true]
  exact ⟨⟨⟨renders_of_isPlain htest, fixed rfl (by decide)⟩,
    renderAll_spaced (renderAll_indent 4 h)⟩, fixed rfl (by decide), fixed rfl (by decide)⟩

/-- An array of unions uses the card, a selection and what its variants use. -/
theorem renders_unionArray {path discriminator : String} {c : Config}
    {variants : List (String × List String)} (hbase : ["Button", "Field"] ⊆ names)
    (hcard : cardPrimitives ⊆ names) (hselect : ["Select"] ⊆ names) (hpath : IsPlain path)
    (hkey : IsPlain discriminator) (h : VariantsRender names variants) :
    Renders names (unionArray path c discriminator variants) := by
  have hchoice := renders_variantChoice hbase hselect
    (Place.isPlain_child (Place.isPlain_rows hpath) hkey) hkey h.tags
  have hpart : ∀ v : String × List String, IsPlain v.1 → RenderAll names v.2 →
      Renders names (rowVariant discriminator v.1 v.2) :=
    fun _ htag hchildren => renders_rowVariant hkey htag hchildren
  have hparts := renders_parts h hpart
  exact renders_rowsCard hcard _ hpath
    (renderAll_rowCards hcard hbase (by decide) (by decide)
      (renderAll_cons.2 ⟨renders_indent.2 hchoice, renderAll_cons.2 ⟨hparts, renderAll_nil⟩⟩))
    (renders_addButton hbase _ (by decide))

/-! ## Records -/

/-- A record uses the card and what its control uses. -/
theorem renders_recordCard {path title control : String} (hcard : cardPrimitives ⊆ names)
    (hpath : IsPlain path) (hcontrol : Renders names control) :
    Renders names (recordCard path title control) := by
  have fixed {s : String} {cs : List Char} := @renders_fixed names _ s cs hcard
  have hopen : Renders names ("<form.Field " ++ textAttribute "name" path ++ ">") :=
    renders_between hcard rfl rfl (by decide) (by decide) (isPlain_textAttribute (by decide) hpath)
  have htitle : Renders names ("        <CardTitle>" ++ escapeText title ++ "</CardTitle>") :=
    renders_between hcard rfl rfl (by decide) (by decide) (isPlain_escapeText title)
  have hname : Renders names ("              " ++ (Place.entries path).nameAttribute) :=
    (renders_of_isPlain (Place.isPlain_nameAttribute (Place.isPlain_entries hpath))).behind rfl
      (by decide)
  simp only [recordCard, renders_lines, renderAll_cons, renderAll_nil, and_true]
  exact ⟨hopen, fixed rfl (by decide), fixed rfl (by decide), fixed rfl (by decide), htitle,
    fixed rfl (by decide), fixed rfl (by decide), fixed rfl (by decide), fixed rfl (by decide),
    fixed rfl (by decide), fixed rfl (by decide), hname, fixed rfl (by decide),
    renders_indent.2 hcontrol, fixed rfl (by decide), fixed rfl (by decide), fixed rfl (by decide),
    fixed rfl (by decide), fixed rfl (by decide), fixed rfl (by decide), fixed rfl (by decide),
    fixed rfl (by decide)⟩

theorem renders_entryInput (hinput : ["Input"] ⊆ names) : Renders names entryInput := by
  have hbound : ∀ l ∈ boundLines "e.target.value", IsPlain l :=
    isPlain_boundLines (isPlain_fixed rfl (by decide))
  simp only [entryInput, renders_lines, renderAll_append, renderAll_cons, renderAll_nil, and_true]
  exact ⟨renders_fixed hinput rfl (by decide), renderAll_of_isPlain hbound⟩

/-- A record uses the card, an input for its keys and the primitives of its control. -/
theorem renders_record {path markup : String} {c valueConfig : Config}
    (hcard : cardPrimitives ⊆ names) (hinput : ["Input"] ⊆ names) (hpath : IsPlain path)
    (hprops : valueConfig.props.IsPlain) (hnames : valueConfig.component.primitives ⊆ names)
    (h : recordMarkup path c valueConfig = .ok markup) : Renders names markup := by
  unfold recordMarkup at h
  split at h
  · cases h
    exact renders_recordCard hcard hpath (renders_entryInput hinput)
  · obtain ⟨control, hcontrol, rfl⟩ := map_eq_ok.1 h
    exact renders_recordCard hcard hpath
      (renders_control hprops (Place.isPlain_entries hpath) hnames hcontrol)

/-! ## Unions -/

theorem isPlain_stateValue {path name : String} (hpath : IsPlain path) (hname : IsPlain name) :
    IsPlain (stateValue path name) :=
  isPlain_memberAccess (by decide)
    (List.forall_mem_append.2 ⟨isPlain_splitOn hpath, List.forall_mem_singleton.2 hname⟩)

theorem renders_switchVariant {selected tag : String} {children : List String}
    (hselected : IsPlain selected) (htag : IsPlain tag) (h : RenderAll names children) :
    Renders names (switchVariant selected tag children) := by
  have fixed {s : String} {cs : List Char} := @renders_fixed names _ s cs names.nil_subset
  have hcode : IsPlain ("(state) => " ++ selected) := isPlain_append.2 ⟨by decide, hselected⟩
  have hopen : Renders names
      ("<form.Subscribe " ++ codeAttribute "selector" ("(state) => " ++ selected) ++ ">") :=
    renders_between names.nil_subset rfl rfl (by decide) (by decide)
      (isPlain_codeAttribute (by decide) hcode)
  have htest : IsPlain ("  \x7b(value) => value === " ++ Text.quoted tag ++ " && (") :=
    isPlain_append.2 ⟨isPlain_append.2 ⟨isPlain_fixed rfl (by decide), isPlain_quoted htag⟩,
      by decide⟩
  rw [switchVariant, renders_indent]
  simp only [renders_lines, renderAll_append, renderAll_cons, renderAll_nil, and_true]
  exact ⟨⟨⟨hopen, renders_of_isPlain htest, fixed rfl (by decide)⟩,
    renderAll_spaced (renderAll_indent 6 h)⟩, fixed rfl (by decide), fixed rfl (by decide),
    fixed rfl (by decide)⟩

/-- A union uses the card, a selection and what its variants use. -/
theorem renders_unionCard {path discriminator : String} {c : Config}
    {variants : List (String × List String)} (hbase : ["Button", "Field"] ⊆ names)
    (hcard : cardPrimitives ⊆ names) (hselect : ["Select"] ⊆ names) (hpath : IsPlain path)
    (hkey : IsPlain discriminator) (h : VariantsRender names variants) :
    Renders names (unionCard path c discriminator variants) := by
  have hplace : (Place.path path).IsPlain := hpath
  have hchoice := renders_variantChoice hbase hselect (Place.isPlain_child hplace hkey) hkey h.tags
  have hpart : ∀ v : String × List String, IsPlain v.1 → RenderAll names v.2 →
      Renders names (switchVariant (stateValue path discriminator) v.1 v.2) :=
    fun _ htag hchildren => renders_switchVariant (isPlain_stateValue hpath hkey) htag hchildren
  have hparts := renders_parts h hpart
  exact renders_card hcard _
    (renderAll_cons.2 ⟨renders_indent.2 hchoice, renderAll_cons.2 ⟨hparts, renderAll_nil⟩⟩)

end Markup

end FormSchema
