import FormSchema.Proofs.BindingLines
import FormSchema.Proofs.Bindings
import FormSchema.Failure

/-!
# Lines that bind in the pieces of markup

The lines of a card, a button or a frame bind nothing themselves; a field that holds one value adds
the line with its place, and a choice among buttons the lines of its options. So the lines that bind
in a piece are those of the markup that is put into it, with the ones that the piece adds. The
titles and names that stand in a piece have to be flat.
-/

namespace FormSchema.Markup

open Text (lines indent escapeText)

/-! ## Attributes -/

/-- An attribute of another name binds nothing, whatever its text is. -/
theorem quiet_textAttribute {name : String} (h : Quiet name) (value : String) :
    Quiet (textAttribute name value) :=
  ((h.append (by decide)).append (isFlat_escapeAttribute value)).append (by decide)

/-- An attribute of another name binds nothing, if its code has no line break. -/
theorem quiet_codeAttribute {name value : String} (h : Quiet name) (hvalue : IsFlat value) :
    Quiet (codeAttribute name value) :=
  (h.append (by decide)).append (isFlat_braced hvalue)

theorem quiet_comment {s : String} (h : IsFlat s) : Quiet (comment s) := by
  have hstart : "\x7b" ++ "/* " = String.ofList ['\x7b', '/', '*', ' '] := rfl
  have hopen : Quiet ("\x7b" ++ "/* ") := quiet_fixed hstart rfl
  have hcomment : comment s = "\x7b" ++ "/* " ++ s ++ " */" ++ "\x7d" := by
    simp only [comment, braced, String.append_assoc]
  rw [hcomment]
  exact ((hopen.append h).append (by decide)).append (by decide)

theorem quiet_codeLine {name value : String} (h : Quiet name) (hvalue : IsFlat value) :
    Quiet ("  " ++ codeAttribute name value) :=
  (quiet_codeAttribute h hvalue).behind rfl rfl

/-! ## Buttons -/

/-- The button that removes a row binds nothing. -/
theorem quiet_removeButton : Quiet removeButton :=
  ((quiet_fixed rfl (by decide)).append
    (isFlat_codeAttribute (by decide) (isFlat_fixed rfl (by decide)))).append
      (isFlat_fixed rfl (by decide))

/-- The button that adds a row binds nothing. -/
theorem quiet_addButton {label value : String} (hlabel : IsFlat label) (hvalue : IsFlat value) :
    Quiet (addButton label value) := by
  have hcode : IsFlat ("() => arrayField.pushValue(" ++ value ++ ")") := isFlat_append.2
    ⟨isFlat_append.2 ⟨isFlat_fixed rfl (by decide), hvalue⟩, by decide⟩
  have hopen : Quiet "<Button type=\"button\" variant=\"outline\" " :=
    quiet_fixed rfl (by decide)
  exact (((hopen.append (isFlat_codeAttribute (by decide) hcode)).append (by decide)).append
    (isFlat_escapeText hlabel)).append (by decide)

/-! ## Cards -/

/-- A card binds what its body binds. -/
theorem bindingLines_card {title : String} (htitle : IsFlat title) (body : List String) :
    bindingLines (card title body) = body.flatMap bindingLines := by
  have fixed {s : String} {cs : List Char} := @quiet_fixed s cs
  have hline : Quiet ("    <CardTitle>" ++ escapeText title ++ "</CardTitle>") :=
    ((fixed rfl (by decide)).append (isFlat_escapeText htitle)).append (by decide)
  refine bindingLines_between body ?_ ?_
  · simp only [quietAll_cons, quietAll_nil, and_true]
    exact ⟨fixed rfl (by decide), fixed rfl (by decide), hline, fixed rfl (by decide),
      fixed rfl (by decide)⟩
  · simp only [quietAll_cons, quietAll_nil, and_true]
    exact ⟨fixed rfl (by decide), fixed rfl (by decide)⟩

/-- The card of the rows binds what the rows bind. -/
theorem bindingLines_rowsCard {title add : String} (htitle : IsFlat title) (path : String)
    (rows : List String) (hadd : Quiet add) :
    bindingLines (rowsCard title path rows add) = rows.flatMap bindingLines := by
  have fixed {s : String} {cs : List Char} := @quiet_fixed s cs
  have hopen : Quiet ("<form.Field " ++ textAttribute "name" path ++ " mode=\"array\">") :=
    ((fixed rfl (by decide)).append (isFlat_textAttribute (by decide) path)).append (by decide)
  have hline : Quiet ("        <CardTitle>" ++ escapeText title ++ "</CardTitle>") :=
    ((fixed rfl (by decide)).append (isFlat_escapeText htitle)).append (by decide)
  have hbutton : Quiet ("        " ++ add) := hadd.behind rfl (by decide)
  refine bindingLines_between rows ?_ ?_
  · simp only [quietAll_cons, quietAll_nil, and_true]
    exact ⟨hopen, fixed rfl (by decide), fixed rfl (by decide), fixed rfl (by decide), hline,
      fixed rfl (by decide), fixed rfl (by decide)⟩
  · simp only [quietAll_cons, quietAll_nil, and_true]
    exact ⟨hbutton, fixed rfl (by decide), fixed rfl (by decide), fixed rfl (by decide),
      fixed rfl (by decide)⟩

/-- The card of a row binds what its content binds. -/
theorem flatMap_rowCards {row title : String} (hrow : IsFlat row) (htitle : IsFlat title)
    (content : List String) :
    (rowCards row title content).flatMap bindingLines = content.flatMap bindingLines := by
  have fixed {s : String} {cs : List Char} := @quiet_fixed s cs
  have hopen : Quiet ("        \x7b(arrayField.state.value ?? []).map((" ++ row ++ ", i) => (") :=
    ((fixed rfl (by decide)).append hrow).append (by decide)
  have hline : Quiet ("              <CardTitle>" ++ title ++ " \x7bi + 1\x7d</CardTitle>") :=
    ((fixed rfl (by decide)).append htitle).append (by decide)
  have hbutton : Quiet ("              " ++ removeButton) :=
    quiet_removeButton.behind rfl (by decide)
  refine flatMap_between content ?_ ?_
  · simp only [quietAll_cons, quietAll_nil, and_true]
    exact ⟨hopen, fixed rfl (by decide), fixed rfl (by decide), hline, hbutton,
      fixed rfl (by decide), fixed rfl (by decide)⟩
  · simp only [quietAll_cons, quietAll_nil, and_true]
    exact ⟨fixed rfl (by decide), fixed rfl (by decide), fixed rfl (by decide)⟩

/-! ## Controls that bind nothing -/

/-- An optional attribute of text binds nothing. -/
theorem quietAll_textLine {name : String} (h : Quiet name) (o : Option String) :
    QuietAll (textLine name o) := by
  unfold textLine
  split
  · exact List.forall_mem_singleton.2 ((quiet_textAttribute h _).behind rfl rfl)
  · exact quietAll_nil

theorem quietAll_numberLine {name : String} (h : Quiet name) (o : Option Number) :
    QuietAll (numberLine name o) := by
  unfold numberLine
  split
  · exact List.forall_mem_singleton.2 (quiet_codeLine h (isFlat_literal _))
  · exact quietAll_nil

theorem quietAll_lengthLine {name : String} (h : Quiet name) (o : Option Int) :
    QuietAll (lengthLine name o) := by
  unfold lengthLine
  split
  · exact List.forall_mem_singleton.2 (quiet_codeLine h (isFlat_intText _))
  · exact quietAll_nil

/-- The lines that bind a control to its value have no name or identifier in them. -/
theorem quietAll_boundLines {value : String} (h : IsFlat value) : QuietAll (boundLines value) := by
  have fixed {s : String} {cs : List Char} := @quiet_fixed s cs
  have hchange : IsFlat ("(e) => field.handleChange(" ++ value ++ ")") :=
    isFlat_append.2 ⟨isFlat_append.2 ⟨isFlat_fixed rfl (by decide), h⟩, by decide⟩
  simp only [boundLines, quietAll_cons, quietAll_nil, and_true]
  exact ⟨quiet_codeLine (fixed rfl (by decide)) (isFlat_fixed rfl (by decide)),
    quiet_codeLine (fixed rfl (by decide)) hchange,
    quiet_codeLine (fixed rfl (by decide)) (isFlat_fixed rfl (by decide)), fixed rfl (by decide)⟩

/-- An input binds nothing of its own: the name stands in the field around it. -/
theorem bindingLines_input (p : ControlProps) : bindingLines (inputMarkup p) = [] := by
  have fixed {s : String} {cs : List Char} := @quiet_fixed s cs
  have hbound : QuietAll (boundLines (if p.type == some "number" then "e.target.valueAsNumber"
      else "e.target.value")) :=
    quietAll_boundLines (by split <;> exact isFlat_fixed rfl (by decide))
  refine QuietAll.bindingLines_eq ?_
  simp only [quietAll_append, quietAll_cons, quietAll_nil, and_true]
  exact ⟨⟨⟨⟨⟨⟨⟨⟨fixed rfl (by decide), quietAll_textLine (fixed rfl (by decide)) _⟩,
    quietAll_numberLine (fixed rfl (by decide)) _⟩,
    quietAll_numberLine (fixed rfl (by decide)) _⟩,
    quietAll_numberLine (fixed rfl (by decide)) _⟩,
    quietAll_lengthLine (fixed rfl (by decide)) _⟩,
    quietAll_lengthLine (fixed rfl (by decide)) _⟩,
    quietAll_textLine (fixed rfl (by decide)) _⟩, hbound⟩

theorem bindingLines_textarea (p : ControlProps) : bindingLines (textareaMarkup p) = [] := by
  have fixed {s : String} {cs : List Char} := @quiet_fixed s cs
  refine QuietAll.bindingLines_eq ?_
  simp only [quietAll_append, quietAll_cons, quietAll_nil, and_true]
  exact ⟨⟨fixed rfl (by decide), quietAll_lengthLine (fixed rfl (by decide)) _⟩,
    quietAll_boundLines (isFlat_fixed rfl (by decide))⟩

theorem bindingLines_checkbox : bindingLines checkboxMarkup = [] := by
  have fixed {s : String} {cs : List Char} := @quiet_fixed s cs
  refine QuietAll.bindingLines_eq ?_
  simp only [quietAll_cons, quietAll_nil, and_true]
  exact ⟨fixed rfl (by decide),
    quiet_codeLine (fixed rfl (by decide)) (isFlat_fixed rfl (by decide)),
    quiet_codeLine (fixed rfl (by decide)) (isFlat_fixed rfl (by decide)), fixed rfl (by decide)⟩

theorem bindingLines_date : bindingLines dateMarkup = [] := by
  have fixed {s : String} {cs : List Char} := @quiet_fixed s cs
  refine QuietAll.bindingLines_eq ?_
  simp only [quietAll_cons, quietAll_nil, and_true]
  exact ⟨fixed rfl (by decide),
    quiet_codeLine (fixed rfl (by decide)) (isFlat_fixed rfl (by decide)),
    quiet_codeLine (fixed rfl (by decide)) (isFlat_fixed rfl (by decide)), fixed rfl (by decide)⟩

/-- A slider binds nothing of its own. -/
theorem bindingLines_slider (p : ControlProps) : bindingLines (sliderMarkup p) = [] := by
  have fixed {s : String} {cs : List Char} := @quiet_fixed s cs
  have hvalue : IsFlat ("[field.state.value ?? " ++ (p.min.getD (.int 0)).literal ++ "]") :=
    isFlat_append.2 ⟨isFlat_append.2 ⟨isFlat_fixed rfl (by decide), isFlat_literal _⟩, by decide⟩
  refine QuietAll.bindingLines_eq ?_
  simp only [quietAll_cons, quietAll_nil, and_true]
  exact ⟨fixed rfl (by decide), quiet_codeLine (fixed rfl (by decide)) hvalue,
    quiet_codeLine (fixed rfl (by decide)) (isFlat_fixed rfl (by decide)),
    quiet_codeLine (fixed rfl (by decide)) (isFlat_literal _),
    quiet_codeLine (fixed rfl (by decide)) (isFlat_literal _),
    quiet_codeLine (fixed rfl (by decide)) (isFlat_literal _), fixed rfl (by decide)⟩

/-- The opening tag of a choice. -/
theorem quiet_choice {start : String} (h : Quiet start) :
    Quiet (start ++ codeAttribute "value" "field.state.value" ++ " " ++
      codeAttribute "onValueChange" "field.handleChange" ++ ">") := by
  have hselected : IsFlat (codeAttribute "value" "field.state.value") :=
    isFlat_codeAttribute (by decide) (isFlat_fixed rfl (by decide))
  have hchanged : IsFlat (codeAttribute "onValueChange" "field.handleChange") :=
    isFlat_codeAttribute (by decide) (isFlat_fixed rfl (by decide))
  exact (((h.append hselected).append (by decide)).append hchanged).append (by decide)

theorem quiet_selectItem {option : String} (h : IsFlat option) : Quiet (selectItem option) := by
  have hopen : Quiet "    <Select.Item " := quiet_fixed rfl (by decide)
  exact (((hopen.append (isFlat_textAttribute (by decide) option)).append (by decide)).append
    (isFlat_escapeText (isFlat_optionLabel h))).append (by decide)

/-- A selection binds nothing of its own, whatever its options are. -/
theorem bindingLines_select {options : List String} (h : ∀ s ∈ options, IsFlat s) :
    bindingLines (selectMarkup options) = [] := by
  have fixed {s : String} {cs : List Char} := @quiet_fixed s cs
  have hitems : QuietAll (options.map selectItem) :=
    List.forall_mem_map.2 fun s hs => quiet_selectItem (h s hs)
  refine QuietAll.bindingLines_eq ?_
  simp only [quietAll_append, quietAll_cons, quietAll_nil, and_true]
  exact ⟨⟨⟨quiet_choice (fixed rfl (by decide)), fixed rfl (by decide), fixed rfl (by decide),
    fixed rfl (by decide), fixed rfl (by decide)⟩, hitems⟩, fixed rfl (by decide),
    fixed rfl (by decide)⟩

/-! ## Buttons for options -/

/-- What opens a binding opens it with any text behind it. -/
theorem opensBinding_append {s : String} (h : opensBinding s.toList = true) (t : String) :
    opensBinding (s ++ t).toList = true := by
  obtain ⟨opener, hopener, hprefix⟩ := List.any_eq_true.1 h
  rw [String.toList_append]
  exact List.any_eq_true.2 ⟨opener, hopener, List.isPrefixOf_iff_prefix.2
    ((List.isPrefixOf_iff_prefix.1 hprefix).trans (List.prefix_append _ _))⟩

/-- An option of a radio group binds its item and its label. -/
theorem flatMap_radioItem {place : Place} {option : String} (hplace : place.IsFlat)
    (h : IsFlat option) :
    (radioItem place option).flatMap bindingLines = (Binding.option place option).lines := by
  have fixed {s : String} {cs : List Char} := @quiet_fixed s cs
  have hid := Place.isFlat_optionId hplace h
  have hitem : bindingLines ("    <RadioGroup.Item " ++ textAttribute "value" option ++ " id=" ++
      place.optionId option ++ " />") =
        ["<RadioGroup.Item " ++ textAttribute "value" option ++ " id=" ++ place.optionId option ++
          " />"] := by
    have hflat : IsFlat (textAttribute "value" option) :=
      isFlat_textAttribute (by decide) option
    have hmargin : "    <RadioGroup.Item " = "    " ++ "<RadioGroup.Item " := rfl
    simp only [hmargin, String.append_assoc]
    refine bindingLines_of_opens rfl rfl (opensBinding_append (by decide) _) ?_
    simp only [isFlat_append]
    exact ⟨by decide, hflat, by decide, hid, by decide⟩
  have hlabel : bindingLines ("    <Label htmlFor=" ++ place.optionId option ++ ">" ++
      escapeText (Text.optionLabel option) ++ "</Label>") =
        ["<Label htmlFor=" ++ place.optionId option ++ ">" ++
          escapeText (Text.optionLabel option) ++ "</Label>"] := by
    have hflat := isFlat_escapeText (isFlat_optionLabel h)
    have hmargin : "    <Label htmlFor=" = "    " ++ "<Label htmlFor=" := rfl
    simp only [hmargin, String.append_assoc]
    refine bindingLines_of_opens rfl rfl (opensBinding_append (by decide) _) ?_
    simp only [isFlat_append]
    exact ⟨by decide, hid, by decide, hflat, by decide⟩
  have hopen : Quiet "  <div className=\"flex items-center gap-2\">" := fixed rfl (by decide)
  have hclose : Quiet "  </div>" := fixed rfl (by decide)
  simp only [radioItem, List.flatMap_cons, List.flatMap_nil, hopen.bindingLines_eq,
    hclose.bindingLines_eq, hitem, hlabel]
  rfl

/-- A radio group binds its options, in order. -/
theorem bindingLines_radio {place : Place} {options : List String} (hplace : place.IsFlat)
    (h : ∀ s ∈ options, IsFlat s) :
    bindingLines (radioMarkup place options) =
      (options.map (Binding.option place)).flatMap Binding.lines := by
  have fixed {s : String} {cs : List Char} := @quiet_fixed s cs
  have hstart : Quiet "<RadioGroup " := fixed rfl (by decide)
  have hclose : QuietAll ["</RadioGroup>"] :=
    List.forall_mem_singleton.2 (fixed rfl (by decide))
  have hopen := List.forall_mem_singleton.2 (quiet_choice hstart)
  rw [radioMarkup, bindingLines_between _ hopen hclose, List.flatMap_assoc, List.flatMap_map]
  exact List.flatMap_congr fun s hs => flatMap_radioItem hplace (h s hs)

/-- A control binds the options of its buttons, and else nothing. -/
theorem bindingLines_control {c : Config} {fieldName markup : String} {place : Place}
    (hoptions : ∀ options ∈ c.props.options, ∀ s ∈ options, IsFlat s) (hplace : place.IsFlat)
    (h : controlMarkup fieldName c place = .ok markup) :
    bindingLines markup = (controlBindings place c).flatMap Binding.lines := by
  unfold controlMarkup at h
  split at h <;> rename_i hcomponent <;> simp only [controlBindings, hcomponent]
  · obtain ⟨-, rfl⟩ := writing_eq_ok.1 h
    exact bindingLines_input _
  · obtain ⟨-, rfl⟩ := writing_eq_ok.1 h
    exact bindingLines_textarea _
  · cases h
    exact bindingLines_checkbox
  · obtain ⟨options, hgiven, rfl⟩ := map_eq_ok.1 h
    exact bindingLines_select (hoptions _ (requireOptions_eq_ok hgiven))
  · obtain ⟨options, hgiven, rfl⟩ := map_eq_ok.1 h
    have hsome := requireOptions_eq_ok hgiven
    rw [hsome]
    exact bindingLines_radio hplace (hoptions _ hsome)
  · obtain ⟨-, rfl⟩ := writing_eq_ok.1 h
    exact bindingLines_slider _
  · cases h
    exact bindingLines_date
  · cases h
    have hquiet : Quiet (comment ("Unsupported component: " ++ c.component.name)) :=
      quiet_comment (isFlat_append.2 ⟨isFlat_fixed rfl (by decide),
        by cases c.component <;> decide⟩)
    rw [hquiet.bindingLines_eq]
    rfl

/-! ## One field -/

/-- The line of a name binds that name, whatever its margin is. -/
theorem bindingLines_nameAttribute {place : Place} (h : place.IsFlat) {margin : String}
    {cs : List Char} (hmargin : margin = String.ofList cs) (hspaces : cs.all (· == ' ') = true) :
    bindingLines (margin ++ place.nameAttribute) = [place.nameAttribute] := by
  have hopens : opensBinding place.nameAttribute.toList = true := by
    cases place with
    | path names =>
      have hname : opensBinding ("name" ++ "=\"").toList = true := by decide
      exact opensBinding_append (opensBinding_append hname _) _
    | row template =>
      have hname : opensBinding "name=".toList = true := by decide
      exact opensBinding_append hname _
  exact bindingLines_of_opens hmargin hspaces hopens (Place.isFlat_nameAttribute h)

theorem quietAll_frameLines (frame : Frame) :
    QuietAll ((frameLines frame).map ("      " ++ ·)) := by
  have hlabel : Quiet (textAttribute "label" frame.label) :=
    quiet_textAttribute (quiet_fixed rfl (by decide)) _
  have hdescription (s : String) : Quiet (textAttribute "description" s) :=
    quiet_textAttribute (quiet_fixed rfl (by decide)) _
  have hlines : QuietAll (frameLines frame) := by
    unfold frameLines
    refine quietAll_append.2 ⟨quietAll_append.2 ⟨List.forall_mem_singleton.2 hlabel, ?_⟩, ?_⟩
    · split
      · split
        · exact quietAll_nil
        · exact List.forall_mem_singleton.2 (hdescription _)
      · exact quietAll_nil
    · split
      · exact List.forall_mem_singleton.2 (quiet_fixed rfl (by decide))
      · exact quietAll_nil
  exact List.forall_mem_map.2 fun l hl => (hlines l hl).behind rfl rfl

theorem quiet_errorAttribute : Quiet (codeAttribute "error" "field.state.meta.errors?.[0]") :=
  quiet_codeAttribute (quiet_fixed rfl (by decide)) (isFlat_fixed rfl (by decide))

/-- A field that holds one value has the line with its place, and then those of its control. -/
theorem bindingLines_boundField {place : Place} (hplace : place.IsFlat) (frame : Frame)
    (control : String) :
    bindingLines (boundField place frame control) =
      place.nameAttribute :: bindingLines control := by
  have fixed {s : String} {cs : List Char} := @quiet_fixed s cs
  have hlines : boundField place frame control = lines (["<form.Field"] ++
      ("  " ++ place.nameAttribute) :: ((["  children=\x7b(field) => (", "    <Field"] ++
        (frameLines frame).map ("      " ++ ·) ++
        ["      " ++ codeAttribute "error" "field.state.meta.errors?.[0]", "    >"]) ++
        indent 6 control :: ["    </Field>", "  )\x7d", "/>"])) := by
    simp only [boundField, List.append_assoc, List.cons_append, List.nil_append]
  rw [hlines, bindingLines_lines, flatMap_around, bindingLines_nameAttribute hplace rfl rfl,
    bindingLines_indent, List.singleton_append]
  · simp only [quietAll_cons, quietAll_nil, and_true]
    exact fixed rfl (by decide)
  · simp only [quietAll_append, quietAll_cons, quietAll_nil, and_true]
    exact ⟨⟨⟨fixed rfl (by decide), fixed rfl (by decide)⟩, quietAll_frameLines frame⟩,
      quiet_errorAttribute.behind rfl rfl, fixed rfl (by decide)⟩
  · simp only [quietAll_cons, quietAll_nil, and_true]
    exact ⟨fixed rfl (by decide), fixed rfl (by decide), fixed rfl (by decide)⟩

/-- The choice of a variant has the line with the place of the discriminator. -/
theorem bindingLines_variantChoice {place : Place} (hplace : place.IsFlat) (discriminator : String)
    {tags : List String} (htags : ∀ tag ∈ tags, IsFlat tag) :
    bindingLines (variantChoice place discriminator tags) = [place.nameAttribute] := by
  have fixed {s : String} {cs : List Char} := @quiet_fixed s cs
  have hopen : Quiet
      ("    <Field " ++ textAttribute "label" (Text.label discriminator) ++ " required>") :=
    ((fixed rfl (by decide)).append (isFlat_textAttribute (by decide) _)).append (by decide)
  rw [variantChoice, bindingLines_lines]
  show ([_] ++ ("  " ++ place.nameAttribute) ::
    ([_, _] ++ indent 6 (selectMarkup tags) :: [_, _, _])).flatMap bindingLines = _
  rw [flatMap_around, bindingLines_nameAttribute hplace rfl rfl, bindingLines_indent,
    bindingLines_select htags, List.append_nil]
  · simp only [quietAll_cons, quietAll_nil, and_true]
    exact fixed rfl (by decide)
  · simp only [quietAll_cons, quietAll_nil, and_true]
    exact ⟨fixed rfl (by decide), hopen⟩
  · simp only [quietAll_cons, quietAll_nil, and_true]
    exact ⟨fixed rfl (by decide), fixed rfl (by decide), fixed rfl (by decide)⟩

/-! ## Rows -/

/-- Rows of a single control bind the name of a row and then what the control binds. -/
theorem flatMap_singleRows {path : String} (hpath : IsFlat path) (control : String) :
    (singleRows path control).flatMap bindingLines =
      (Place.rows path).nameAttribute :: bindingLines control := by
  have fixed {s : String} {cs : List Char} := @quiet_fixed s cs
  have hlabel : Quiet ("                <Field label=" ++ templated "Item $\x7bi + 1\x7d" ++ " " ++
      codeAttribute "error" "field.state.meta.errors?.[0]" ++ ">") :=
    ((((fixed rfl (by decide)).append (isFlat_templated (isFlat_fixed rfl (by decide)))).append
      (by decide)).append quiet_errorAttribute.isFlat).append (by decide)
  have hbutton : Quiet ("            " ++ removeButton) :=
    quiet_removeButton.behind rfl (by decide)
  rw [singleRows]
  show ([_, _, _] ++ ("              " ++ (Place.rows path).nameAttribute) ::
    ([_, _] ++ indent 18 control :: [_, _, _, _, _, _])).flatMap bindingLines = _
  rw [flatMap_around, bindingLines_nameAttribute (Place.isFlat_rows hpath) rfl rfl,
    bindingLines_indent, List.singleton_append]
  · simp only [quietAll_cons, quietAll_nil, and_true]
    exact ⟨fixed rfl (by decide), fixed rfl (by decide), fixed rfl (by decide)⟩
  · simp only [quietAll_cons, quietAll_nil, and_true]
    exact ⟨fixed rfl (by decide), hlabel⟩
  · simp only [quietAll_cons, quietAll_nil, and_true]
    exact ⟨fixed rfl (by decide), fixed rfl (by decide), fixed rfl (by decide), hbutton,
      fixed rfl (by decide), fixed rfl (by decide)⟩

/-- The lines that bind in an array of single controls are those of its bindings. -/
theorem bindingLines_singleArray {path markup : String} {c elementConfig : Config} {element : Field}
    (hlabel : IsFlat c.frame.label) (hpath : IsFlat path)
    (hoptions : ∀ options ∈ elementConfig.props.options, ∀ s ∈ options, IsFlat s)
    (hinitial : IsFlat (element.initial 3))
    (h : singleArray path c elementConfig element = .ok markup) :
    bindingLines markup = (singleBindings (.rows path) elementConfig).flatMap Binding.lines := by
  obtain ⟨control, hcontrol, -, rfl⟩ := singleArray_eq_ok h
  rw [bindingLines_rowsCard hlabel _ _ (quiet_addButton hlabel hinitial), flatMap_singleRows hpath,
    bindingLines_control hoptions (Place.isFlat_rows hpath) hcontrol]
  rfl

/-- An array of objects binds what the fields of a row bind. -/
theorem bindingLines_objectArray {path : String} {c : Config} {element : Field}
    (hlabel : IsFlat c.frame.label) (helement : IsFlat element.label) (children : List String) :
    bindingLines (objectArray path c element children) = children.flatMap bindingLines := by
  rw [objectArray, bindingLines_rowsCard hlabel _ _ (quiet_addButton helement (by decide)),
    flatMap_rowCards (by decide) (isFlat_escapeText helement), flatMap_spaced, flatMap_indent]

/-- A variant of a row binds what its fields bind. -/
theorem bindingLines_rowVariant (discriminator tag : String) (children : List String) :
    bindingLines (rowVariant discriminator tag children) = children.flatMap bindingLines := by
  have fixed {s : String} {cs : List Char} := @quiet_fixed s cs
  have htest : Quiet ("\x7b" ++ Text.memberAccess "item" [discriminator] ++ " === " ++
      Text.quoted tag ++ " && (") := by
    have hopen : Quiet "\x7b" := fixed rfl (by decide)
    exact (((hopen.append (isFlat_memberAccess _ (by decide))).append (by decide)).append
      (isFlat_quoted tag)).append (by decide)
  rw [rowVariant, bindingLines_indent, bindingLines_between, flatMap_spaced, flatMap_indent]
  · simp only [quietAll_cons, quietAll_nil, and_true]
    exact ⟨htest, fixed rfl (by decide)⟩
  · simp only [quietAll_cons, quietAll_nil, and_true]
    exact ⟨fixed rfl (by decide), fixed rfl (by decide)⟩

/-- The lines that bind in the markup of the fields of variants. -/
def variantLines (variants : List (String × List String)) : List String :=
  variants.flatMap fun v => v.2.flatMap bindingLines

/-- The parts of the variants bind what the variants bind, in order. -/
theorem bindingLines_parts {part : String × List String → String}
    (hpart : ∀ v, bindingLines (part v) = v.2.flatMap bindingLines)
    (variants : List (String × List String)) :
    bindingLines (Text.joined "\n\n" (variants.map part)) = variantLines variants := by
  rw [bindingLines_joined breaks_lines, List.flatMap_map]
  exact List.flatMap_congr fun v _ => hpart v

/-- An array of unions binds the choice of a row's variant and then what its variants bind. -/
theorem bindingLines_unionArray {path discriminator : String} {c : Config}
    {variants : List (String × List String)} (hlabel : IsFlat c.frame.label) (hpath : IsFlat path)
    (hkey : IsFlat discriminator) (htags : ∀ tag ∈ variants.map Prod.fst, IsFlat tag) :
    bindingLines (unionArray path c discriminator variants) =
      ((Place.rows path).child discriminator).nameAttribute :: variantLines variants := by
  have hplace := Place.isFlat_child (Place.isFlat_rows hpath) hkey
  have hadd : Quiet (addButton "Item" "\x7b\x7d") := quiet_addButton (by decide) (by decide)
  rw [unionArray, bindingLines_rowsCard hlabel _ _ hadd, flatMap_rowCards (by decide) (by decide),
    List.flatMap_cons, List.flatMap_singleton, bindingLines_indent,
    bindingLines_variantChoice hplace discriminator htags,
    bindingLines_parts fun v => bindingLines_rowVariant discriminator v.1 v.2]
  rfl

/-! ## Records -/

/-- A record binds the name of an entry and then what its control binds. -/
theorem bindingLines_recordCard {path title : String} (hpath : IsFlat path) (htitle : IsFlat title)
    (control : String) :
    bindingLines (recordCard path title control) =
      (Place.entries path).nameAttribute :: bindingLines control := by
  have fixed {s : String} {cs : List Char} := @quiet_fixed s cs
  have hopen : Quiet ("<form.Field " ++ textAttribute "name" path ++ ">") :=
    ((fixed rfl (by decide)).append (isFlat_textAttribute (by decide) path)).append (by decide)
  have hline : Quiet ("        <CardTitle>" ++ escapeText title ++ "</CardTitle>") :=
    ((fixed rfl (by decide)).append (isFlat_escapeText htitle)).append (by decide)
  rw [recordCard, bindingLines_lines]
  show ([_, _, _, _, _, _, _, _, _, _, _] ++
    ("              " ++ (Place.entries path).nameAttribute) ::
      ([_] ++ indent 16 control :: [_, _, _, _, _, _, _, _])).flatMap bindingLines = _
  rw [flatMap_around, bindingLines_nameAttribute (Place.isFlat_entries hpath) rfl rfl,
    bindingLines_indent, List.singleton_append]
  · simp only [quietAll_cons, quietAll_nil, and_true]
    exact ⟨hopen, fixed rfl (by decide), fixed rfl (by decide), fixed rfl (by decide), hline,
      fixed rfl (by decide), fixed rfl (by decide), fixed rfl (by decide), fixed rfl (by decide),
      fixed rfl (by decide), fixed rfl (by decide)⟩
  · simp only [quietAll_cons, quietAll_nil, and_true]
    exact fixed rfl (by decide)
  · simp only [quietAll_cons, quietAll_nil, and_true]
    exact ⟨fixed rfl (by decide), fixed rfl (by decide), fixed rfl (by decide),
      fixed rfl (by decide), fixed rfl (by decide), fixed rfl (by decide), fixed rfl (by decide),
      fixed rfl (by decide)⟩

theorem bindingLines_entryInput : bindingLines entryInput = [] := by
  refine QuietAll.bindingLines_eq ?_
  simp only [quietAll_append, quietAll_cons, quietAll_nil, and_true]
  exact ⟨quiet_fixed rfl (by decide), quietAll_boundLines (isFlat_fixed rfl (by decide))⟩

/-- The lines that bind in a record are those of its bindings. -/
theorem bindingLines_record {path markup : String} {c valueConfig : Config}
    (hlabel : IsFlat c.frame.label) (hpath : IsFlat path)
    (hoptions : ∀ options ∈ valueConfig.props.options, ∀ s ∈ options, IsFlat s)
    (h : recordMarkup path c valueConfig = .ok markup) :
    bindingLines markup = (recordBindings path valueConfig).flatMap Binding.lines := by
  unfold recordMarkup at h
  unfold recordBindings
  split at h
  · rename_i hcomposite
    cases h
    rw [if_pos hcomposite, bindingLines_recordCard hpath hlabel, bindingLines_entryInput]
    rfl
  · rename_i hsingle
    obtain ⟨control, hcontrol, rfl⟩ := map_eq_ok.1 h
    rw [if_neg hsingle, bindingLines_recordCard hpath hlabel,
      bindingLines_control hoptions (Place.isFlat_entries hpath) hcontrol]
    rfl

/-! ## Unions -/

/-- A variant that is switched on binds what its fields bind. -/
theorem bindingLines_switchVariant {selected : String} (hselected : IsFlat selected) (tag : String)
    (children : List String) :
    bindingLines (switchVariant selected tag children) = children.flatMap bindingLines := by
  have fixed {s : String} {cs : List Char} := @quiet_fixed s cs
  have hcode : IsFlat ("(state) => " ++ selected) := isFlat_append.2 ⟨by decide, hselected⟩
  have hopen : Quiet
      ("<form.Subscribe " ++ codeAttribute "selector" ("(state) => " ++ selected) ++ ">") :=
    ((fixed rfl (by decide)).append (isFlat_codeAttribute (by decide) hcode)).append (by decide)
  have htest : Quiet ("  \x7b(value) => value === " ++ Text.quoted tag ++ " && (") :=
    ((fixed rfl (by decide)).append (isFlat_quoted tag)).append (by decide)
  rw [switchVariant, bindingLines_indent, bindingLines_between, flatMap_spaced, flatMap_indent]
  · simp only [quietAll_cons, quietAll_nil, and_true]
    exact ⟨hopen, htest, fixed rfl (by decide)⟩
  · simp only [quietAll_cons, quietAll_nil, and_true]
    exact ⟨fixed rfl (by decide), fixed rfl (by decide), fixed rfl (by decide)⟩

/-- A union binds the choice of its variant and then what its variants bind. -/
theorem bindingLines_unionCard {path discriminator : String} {c : Config}
    {variants : List (String × List String)} (hlabel : IsFlat c.frame.label) (hpath : IsFlat path)
    (hkey : IsFlat discriminator) (htags : ∀ tag ∈ variants.map Prod.fst, IsFlat tag) :
    bindingLines (unionCard path c discriminator variants) =
      ((Place.path path).child discriminator).nameAttribute :: variantLines variants := by
  have hplace : (Place.path path).IsFlat := hpath
  have hselected : IsFlat (stateValue path discriminator) := isFlat_memberAccess _ (by decide)
  rw [unionCard, bindingLines_card hlabel, List.flatMap_cons, List.flatMap_singleton,
    bindingLines_indent,
    bindingLines_variantChoice (Place.isFlat_child hplace hkey) discriminator htags,
    bindingLines_parts fun v => bindingLines_switchVariant hselected v.1 v.2]
  rfl

end FormSchema.Markup
