import FormSchema.Proofs.Bindings
import FormSchema.Proofs.Tags
import FormSchema.Failure

/-!
# Bindings stand in the markup, whatever the names

Markup is moved to the right when it is put into other markup. A name may have a line break in it,
and then the spaces come into the line of its binding: such a line stands in the markup only up to
spaces behind its line breaks (`Moves`). Lines stand in a text if they do so one behind the other
(`StandIn`), which is kept when the text is moved or put between others.

By recursion on the configuration the lines of all bindings of a field stand in its markup
(`standIn_field`), in order and for any names.
-/

namespace FormSchema.Markup

open Text (lines indent joined)

/-! ## Moved texts -/

/-- The second text is the first one with spaces put in behind line breaks. -/
inductive Moves : List Char → List Char → Prop
  | nil : Moves [] []
  | char (c : Char) {cs ds : List Char} : Moves cs ds → Moves (c :: cs) (c :: ds)
  | lineBreak (n : Nat) {cs ds : List Char} : Moves cs ds →
    Moves ('\n' :: cs) ('\n' :: (List.replicate n ' ' ++ ds))

namespace Moves

/-- Nothing has to move. -/
theorem refl : ∀ cs : List Char, Moves cs cs
  | [] => .nil
  | c :: cs => .char c (refl cs)

/-- Texts that are moved on their own are moved together. -/
theorem append {as as' bs bs' : List Char} (ha : Moves as as') (hb : Moves bs bs') :
    Moves (as ++ bs) (as' ++ bs') := by
  induction ha with
  | nil => exact hb
  | char c _ ih => exact .char c ih
  | lineBreak n _ ih =>
    rw [List.cons_append, List.cons_append, List.append_assoc]
    exact .lineBreak n ih

/-- The parts of a text are moved with it. -/
theorem split : ∀ {as bs cs : List Char}, Moves (as ++ bs) cs →
    ∃ as' bs', cs = as' ++ bs' ∧ Moves as as' ∧ Moves bs bs'
  | [], _, cs, h => ⟨[], cs, rfl, .nil, h⟩
  | a :: as, _, _, h => by
    rw [List.cons_append] at h
    cases h with
    | char _ h =>
      obtain ⟨as', bs', rfl, has, hbs⟩ := split h
      exact ⟨a :: as', bs', rfl, .char a has, hbs⟩
    | lineBreak n h =>
      obtain ⟨as', bs', rfl, has, hbs⟩ := split h
      exact ⟨'\n' :: (List.replicate n ' ' ++ as'), bs', by simp, .lineBreak n has, hbs⟩

/-- A text without line breaks stays as it is. -/
theorem eq_of_isFlat {cs ds : List Char} (h : Moves cs ds) (hflat : '\n' ∉ cs) : ds = cs := by
  induction h with
  | nil => rfl
  | char c _ ih => rw [ih fun hmem => hflat (List.mem_cons_of_mem c hmem)]
  | lineBreak => exact absurd List.mem_cons_self hflat

/-- A text may be moved twice. -/
theorem trans {as bs cs : List Char} (hab : Moves as bs) (hbc : Moves bs cs) : Moves as cs := by
  induction hab generalizing cs with
  | nil => exact hbc
  | char c _ ih =>
    cases hbc with
    | char _ h => exact .char c (ih h)
    | lineBreak n h => exact .lineBreak n (ih h)
  | @lineBreak n as bs _ ih =>
    -- The spaces that are there stay, and those of the second move come in front of them.
    have hspaces {ds : List Char} (h : Moves (List.replicate n ' ' ++ bs) ds) :
        ∃ es, ds = List.replicate n ' ' ++ es ∧ Moves as es := by
      obtain ⟨spaces, es, rfl, hsame, hes⟩ := split h
      exact ⟨es, by rw [hsame.eq_of_isFlat (by simp)], ih hes⟩
    cases hbc with
    | char _ h =>
      obtain ⟨es, rfl, hes⟩ := hspaces h
      exact .lineBreak n hes
    | lineBreak m h =>
      obtain ⟨es, rfl, hes⟩ := hspaces h
      rw [← List.append_assoc, ← List.replicate_add]
      exact .lineBreak (m + n) hes

end Moves

/-- An indented line has some spaces before it. -/
theorem exists_indentLine (n : Nat) (line : List Char) :
    ∃ m, Text.indentLine n line = List.replicate m ' ' ++ line := by
  unfold Text.indentLine
  split
  · exact ⟨0, rfl⟩
  · exact ⟨n, rfl⟩

/-- Indenting the lines of a text puts spaces before the first one and moves the rest. -/
theorem moves_lines (n : Nat) (line : List Char) : ∀ rest : List (List Char),
    ∃ m moved, (lines ((line :: rest).map fun l => String.ofList (Text.indentLine n l))).toList =
        List.replicate m ' ' ++ moved ∧
      Moves (lines ((line :: rest).map String.ofList)).toList moved
  | [] => by
    obtain ⟨m, hline⟩ := exists_indentLine n line
    refine ⟨m, line, ?_, ?_⟩
    · simp [lines, joined, hline]
    · simpa [lines, joined] using Moves.refl line
  | next :: rest => by
    obtain ⟨m, hline⟩ := exists_indentLine n line
    obtain ⟨k, moved, hlines, hmoves⟩ := moves_lines n next rest
    refine ⟨m, line ++ '\n' :: (List.replicate k ' ' ++ moved), ?_, ?_⟩
    · rw [← hlines]
      simp [lines, joined, hline]
    · have hrest := (Moves.refl line).append (hmoves.lineBreak k)
      simpa [lines, joined] using hrest

/-- A text that is indented is moved, behind some spaces. -/
theorem exists_moves_indent (n : Nat) (s : String) :
    ∃ m moved, (indent n s).toList = List.replicate m ' ' ++ moved ∧ Moves s.toList moved := by
  have hlines := lines_splitChars s.toList
  unfold indent
  cases hsplit : Text.splitChars '\n' s.toList with
  | nil => exact absurd hsplit (splitChars_ne_nil _ _)
  | cons line rest =>
    rw [hsplit] at hlines
    obtain ⟨m, moved, hindent, hmoves⟩ := moves_lines n line rest
    exact ⟨m, moved, hindent, hlines ▸ hmoves⟩

/-! ## Lines that stand in a text -/

/-- The lines stand in the text one behind the other, each of them moved. -/
inductive StandIn : List String → List Char → Prop
  | nil (text : List Char) : StandIn [] text
  | cons (before : List Char) {line : String} {ls : List String} {moved after : List Char} :
    Moves line.toList moved → StandIn ls after → StandIn (line :: ls) (before ++ moved ++ after)

namespace StandIn

variable {ls ms : List String} {text : List Char}

theorem self (line : String) : StandIn [line] line.toList := by
  simpa using StandIn.cons [] (Moves.refl line.toList) (.nil [])

/-- Lines stand in a text with anything before it. -/
theorem behind (h : StandIn ls text) (front : List Char) : StandIn ls (front ++ text) := by
  cases h with
  | nil => exact .nil _
  | cons before hline hrest =>
    rw [← List.append_assoc, ← List.append_assoc]
    exact .cons (front ++ before) hline hrest

/-- Lines that stand in two texts stand in one behind the other. -/
theorem append {rest : List Char} (h : StandIn ls text) (hrest : StandIn ms rest) :
    StandIn (ls ++ ms) (text ++ rest) := by
  induction h with
  | nil text => exact hrest.behind text
  | cons before hline _ ih =>
    rw [List.append_assoc]
    exact .cons before hline ih

/-- Lines stand in a text with anything after it. -/
theorem before (h : StandIn ls text) (rest : List Char) : StandIn ls (text ++ rest) := by
  simpa using h.append (.nil rest)

/-- Lines that stand in a text stand in it when it is moved. -/
theorem moves {moved : List Char} (h : StandIn ls text) (hmoves : Moves text moved) :
    StandIn ls moved := by
  induction h generalizing moved with
  | nil => exact .nil moved
  | cons before hline _ ih =>
    obtain ⟨front, after', rfl, hfront, hafter⟩ := hmoves.split
    obtain ⟨before', line', rfl, -, hline'⟩ := hfront.split
    exact .cons before' (hline.trans hline') (ih hafter)

/-- Lines that stand in a text stand in it when it is indented. -/
theorem indent {s : String} (h : StandIn ls s.toList) (n : Nat) :
    StandIn ls (Text.indent n s).toList := by
  obtain ⟨m, moved, hindent, hmoves⟩ := exists_moves_indent n s
  rw [hindent]
  exact (h.moves hmoves).behind _

/-- A line behind a margin. -/
theorem line (margin line : String) : StandIn [line] (margin ++ line).toList := by
  rw [String.toList_append]
  exact (self line).behind _

end StandIn

/-! ## Lines along pieces -/

/-- The lines stand in the pieces, in the first ones and then in the ones behind. -/
inductive StandAlong : List String → List String → Prop
  | nil : StandAlong [] []
  | cons {ls ms : List String} {piece : String} {pieces : List String} :
    StandIn ls piece.toList → StandAlong ms pieces → StandAlong (ls ++ ms) (piece :: pieces)

namespace StandAlong

variable {ls ms pieces rest : List String}

theorem skip (piece : String) (h : StandAlong ls pieces) : StandAlong ls (piece :: pieces) :=
  .cons (.nil piece.toList) h

/-- Other pieces in front count for nothing. -/
theorem behind (h : StandAlong ls pieces) : ∀ front : List String, StandAlong ls (front ++ pieces)
  | [] => h
  | piece :: front => (h.behind front).skip piece

theorem append (h : StandAlong ls pieces) (hrest : StandAlong ms rest) :
    StandAlong (ls ++ ms) (pieces ++ rest) := by
  induction h with
  | nil => exact hrest
  | cons hpiece _ ih =>
    rw [List.append_assoc]
    exact .cons hpiece ih

theorem before (h : StandAlong ls pieces) (rest : List String) : StandAlong ls (pieces ++ rest) := by
  have hnone : StandAlong [] rest := by simpa using nil.behind rest
  simpa using h.append hnone

theorem one {piece : String} (h : StandIn ls piece.toList) : StandAlong ls [piece] := by
  simpa using StandAlong.cons h .nil

/-- A change of every piece that keeps its lines keeps the lines along the pieces. -/
theorem map (h : StandAlong ls pieces) {f : String → String}
    (hf : ∀ ls s, StandIn ls s.toList → StandIn ls (f s).toList) :
    StandAlong ls (pieces.map f) := by
  induction h with
  | nil => exact .nil
  | cons hpiece _ ih => exact .cons (hf _ _ hpiece) ih

theorem indent (h : StandAlong ls pieces) (n : Nat) :
    StandAlong ls (pieces.map (Text.indent n)) :=
  h.map fun _ _ hs => hs.indent n

/-- Lines that stand in pieces stand in them when they are joined. -/
theorem joined (h : StandAlong ls pieces) (sep : String) :
    StandIn ls (Text.joined sep pieces).toList := by
  induction h with
  | nil => exact .nil _
  | @cons ls ms piece pieces hpiece hrest ih =>
    cases pieces with
    | nil =>
      cases hrest
      simpa [Text.joined] using hpiece
    | cons next rest =>
      rw [Text.joined, String.toList_append, String.toList_append]
      · exact (hpiece.before _).append ih
      · simp

theorem spaced (h : StandAlong ls pieces) : StandAlong ls (spaced pieces) := by
  unfold Markup.spaced
  split
  · rename_i hempty
    rwa [List.isEmpty_iff.1 hempty] at h
  · exact one (h.joined _)

/-- Among other pieces there are some that the lines stand in. -/
theorem between (h : StandAlong ls pieces) (front behind : List String) :
    StandIn ls (lines (front ++ pieces ++ behind)).toList :=
  ((h.behind front).before behind).joined "\n"

/-- Among other pieces there are two that the lines stand in. -/
theorem around {first second : String} (hfirst : StandIn ls first.toList)
    (hsecond : StandIn ms second.toList) (front between behind : List String) :
    StandAlong (ls ++ ms) (front ++ first :: (between ++ second :: behind)) :=
  .behind (.cons hfirst (.behind (.before (one hsecond) behind) between)) front

end StandAlong

/-! ## Pieces of markup -/

/-- The lines of bindings. -/
abbrev bindingTexts (bindings : List Binding) : List String :=
  bindings.flatMap Binding.lines

theorem standIn_rowsCard {ls rows : List String} (h : StandAlong ls rows) (title path add : String) :
    StandIn ls (rowsCard title path rows add).toList :=
  h.between _ _

/-- A card shows the lines of its body. -/
theorem standIn_card {ls body : List String} (h : StandAlong ls body) (title : String) :
    StandIn ls (card title body).toList :=
  h.between _ _

/-- The card of a row shows the lines of the row. -/
theorem standAlong_rowCards {ls content : List String} (h : StandAlong ls content)
    (row title : String) : StandAlong ls (rowCards row title content) :=
  (h.behind _).before _

theorem standAlong_radioItem (place : Place) (option : String) :
    StandAlong (Binding.option place option).lines (radioItem place option) :=
  .skip _ (.cons (.line "    " _) (.cons (.line "    " _) (.skip _ .nil)))

/-- A radio group shows the item and the label of every option, in order. -/
theorem standIn_radio (place : Place) (options : List String) :
    StandIn (bindingTexts (options.map (Binding.option place)))
      (radioMarkup place options).toList := by
  have hitems : StandAlong (bindingTexts (options.map (Binding.option place)))
      (options.flatMap (radioItem place)) := by
    induction options with
    | nil => exact .nil
    | cons option rest ih => exact (standAlong_radioItem place option).append ih
  exact hitems.between _ _

/-- The lines of the options of a control stand in it. -/
theorem standIn_control {fieldName : String} {c : Config} {place : Place} {control : String}
    (h : controlMarkup fieldName c place = .ok control) :
    StandIn (bindingTexts (controlBindings place c)) control.toList := by
  unfold controlBindings
  split
  · rename_i hcomponent
    rw [controlMarkup, hcomponent] at h
    obtain ⟨options, hgiven, rfl⟩ := map_eq_ok.1 h
    rw [requireOptions_eq_ok hgiven]
    exact standIn_radio place options
  · exact .nil _

/-- A bound field shows its name and then what its control shows. -/
theorem standIn_boundField {ls : List String} {control : String} (h : StandIn ls control.toList)
    (place : Place) (frame : Frame) :
    StandIn (place.nameAttribute :: ls) (boundField place frame control).toList := by
  have hpieces := StandAlong.around (.line "  " place.nameAttribute) (h.indent 6) ["<form.Field"]
    (["  children=\x7b(field) => (", "    <Field"] ++ (frameLines frame).map ("      " ++ ·) ++
      ["      " ++ codeAttribute "error" "field.state.meta.errors?.[0]", "    >"])
    ["    </Field>", "  )\x7d", "/>"]
  have hlines := hpieces.joined "\n"
  simpa only [boundField, lines, List.append_assoc, List.cons_append, List.nil_append] using hlines

/-- The choice of a variant shows its name. -/
theorem standIn_variantChoice (place : Place) (discriminator : String) (tags : List String) :
    StandIn [place.nameAttribute] (variantChoice place discriminator tags).toList :=
  ((((StandAlong.one (.line "  " place.nameAttribute)).behind ["<form.Field"]).before _).joined "\n")

/-- Rows of a single control show the name of a row and then what the control shows. -/
theorem standAlong_singleRows {ls : List String} {control : String}
    (h : StandIn ls control.toList) (path : String) :
    StandAlong ((Place.rows path).nameAttribute :: ls) (singleRows path control) :=
  .around (.line "              " (Place.rows path).nameAttribute) (h.indent 18) [_, _, _] [_, _]
    [_, _, _, _, _, _]

/-- A record shows the name of an entry and then what the control shows. -/
theorem standIn_recordCard {ls : List String} {control : String} (h : StandIn ls control.toList)
    (path title : String) :
    StandIn ((Place.entries path).nameAttribute :: ls) (recordCard path title control).toList :=
  (StandAlong.around (.line "              " (Place.entries path).nameAttribute) (h.indent 16)
    [_, _, _, _, _, _, _, _, _, _, _] [_] [_, _, _, _, _, _, _, _]).joined "\n"

theorem standIn_rowVariant {ls children : List String} (h : StandAlong ls children)
    (discriminator tag : String) : StandIn ls (rowVariant discriminator tag children).toList :=
  ((h.indent 4).spaced.between _ _).indent 14

theorem standIn_switchVariant {ls children : List String} (h : StandAlong ls children)
    (selected tag : String) : StandIn ls (switchVariant selected tag children).toList :=
  ((h.indent 6).spaced.between _ _).indent 4

/-- The lines stand along the markups of the fields of variants. -/
inductive StandAmong : List String → List (String × List String) → Prop
  | nil : StandAmong [] []
  | cons {ls ms children : List String} {variants : List (String × List String)} (tag : String) :
    StandAlong ls children → StandAmong ms variants →
      StandAmong (ls ++ ms) ((tag, children) :: variants)

/-- Lines that stand among the variants stand in their parts put together. -/
theorem StandAmong.parts {ls : List String} {variants : List (String × List String)}
    (h : StandAmong ls variants) {part : String × List String → String}
    (hpart : ∀ ls v, StandAlong ls v.2 → StandIn ls (part v).toList) :
    StandIn ls (Text.joined "\n\n" (variants.map part)).toList := by
  have halong : StandAlong ls (variants.map part) := by
    induction h with
    | nil => exact .nil
    | cons tag hchildren _ ih => exact .cons (hpart _ (tag, _) hchildren) ih
  exact halong.joined _

/-- An array of unions shows the choice of a row's variant and then what its variants show. -/
theorem standIn_unionArray {ls : List String} {variants : List (String × List String)}
    (h : StandAmong ls variants) (path : String) (c : Config) (discriminator : String) :
    StandIn (((Place.rows path).child discriminator).nameAttribute :: ls)
      (unionArray path c discriminator variants).toList := by
  have hparts := h.parts fun _ v hv => standIn_rowVariant hv discriminator v.1
  have hchoice := standIn_variantChoice ((Place.rows path).child discriminator) discriminator
    (variants.map Prod.fst)
  exact standIn_rowsCard (standAlong_rowCards (.cons (hchoice.indent 14) (.one hparts)) _ _) _ _ _

/-- A union shows the choice of its variant and then what its variants show. -/
theorem standIn_unionCard {ls : List String} {variants : List (String × List String)}
    (h : StandAmong ls variants) (path : String) (c : Config) (discriminator : String) :
    StandIn (((Place.path path).child discriminator).nameAttribute :: ls)
      (unionCard path c discriminator variants).toList := by
  have hparts := h.parts fun _ v hv => standIn_switchVariant hv (stateValue path discriminator) v.1
  have hchoice := standIn_variantChoice ((Place.path path).child discriminator) discriminator
    (variants.map Prod.fst)
  exact standIn_card (.cons (hchoice.indent 4) (.one hparts)) _

/-- The bindings of an array of single controls stand in its markup. -/
theorem standIn_singleArray {path markup : String} {c elementConfig : Config} {element : Field}
    (h : singleArray path c elementConfig element = .ok markup) :
    StandIn (bindingTexts (singleBindings (.rows path) elementConfig)) markup.toList := by
  obtain ⟨control, hcontrol, -, rfl⟩ := singleArray_eq_ok h
  exact standIn_rowsCard (standAlong_singleRows (standIn_control hcontrol) path) _ _ _

/-- An array of objects shows what the fields of a row show. -/
theorem standIn_objectArray {ls children : List String} (h : StandAlong ls children) (path : String)
    (c : Config) (element : Field) :
    StandIn ls (objectArray path c element children).toList :=
  standIn_rowsCard (standAlong_rowCards (h.indent 14).spaced _ _) _ _ _

/-- The bindings of a record stand in its markup. -/
theorem standIn_record {path markup : String} {c valueConfig : Config}
    (h : recordMarkup path c valueConfig = .ok markup) :
    StandIn (bindingTexts (recordBindings path valueConfig)) markup.toList := by
  unfold recordMarkup at h
  unfold recordBindings
  split at h
  · rename_i hcomposite
    cases h
    rw [if_pos hcomposite]
    exact standIn_recordCard (.nil _) path _
  · rename_i hsingle
    obtain ⟨control, hcontrol, rfl⟩ := map_eq_ok.1 h
    rw [if_neg hsingle]
    exact standIn_recordCard (standIn_control hcontrol) path _

/-! ## Fields -/

mutual

/-- The lines of the bindings of a field stand in its markup, in order. -/
theorem standIn_field {place : Place} {f : Field} {c : Config} {markup : String}
    (h : fieldMarkup place f c = .ok markup) :
    StandIn (bindingTexts (fieldBindings place f c)) markup.toList := by
  have hsingle (h : singleMarkup place f c = .ok markup) :
      StandIn (bindingTexts (singleBindings place c)) markup.toList := by
    obtain ⟨control, hcontrol, rfl⟩ := map_eq_ok.1 h
    exact standIn_boundField (standIn_control hcontrol) place c.frame
  unfold fieldMarkup at h
  unfold fieldBindings
  cases hcomponent : c.component with
  | fieldset =>
    rw [hcomponent] at h
    exact standIn_fieldset h
  | fieldArray =>
    rw [hcomponent] at h
    cases place with
    | path path => exact standIn_array h
    | row template => exact .nil _
  | unionSwitch =>
    rw [hcomponent] at h
    cases place with
    | path path => exact standIn_union h
    | row template => exact .nil _
  | _ =>
    rw [hcomponent] at h
    exact hsingle h
termination_by (sizeOf c, 1, 0)

/-- The bindings of a fieldset stand in its markup. -/
theorem standIn_fieldset {place : Place} {f : Field} {c : Config} {markup : String}
    (h : fieldsetMarkup place f c = .ok markup) :
    StandIn (bindingTexts (fieldsetBindings place c)) markup.toList := by
  rw [fieldsetBindings_eq]
  unfold fieldsetMarkup at h
  split at h <;> rename_i hc <;> rw [hc]
  · exact .nil _
  · rename_i fields configs
    have hsize : sizeOf configs < sizeOf c := Nat.lt_trans (children_size hc) (parts_size c)
    obtain ⟨children, hchildren, rfl⟩ := map_eq_ok.1 h
    exact standIn_card ((standAlong_children hchildren).indent 2).spaced _
termination_by (sizeOf c, 0, 0)
decreasing_by exact Prod.Lex.left _ _ hsize

/-- The bindings of an array stand in its markup, whatever it holds. -/
theorem standIn_array {path : String} {f : Field} {c : Config} {markup : String}
    (h : arrayMarkup path f c = .ok markup) :
    StandIn (bindingTexts (arrayBindings path f c)) markup.toList := by
  have hform := arrayForm_of_markup h
  generalize arrayBindings path f c = bindings at hform ⊢
  cases hform with
  | comment => exact .nil _
  | record _ hmarkup => exact standIn_record hmarkup
  | @objects element d fields configs children hc hchildren hmarkups heq =>
    have hsize : sizeOf configs < sizeOf c :=
      Nat.lt_trans (children_size hchildren) (element_parts_size hc)
    rw [heq]
    exact standIn_objectArray (standAlong_children hmarkups) path c element
  | @unions element d key variants parts hc _ hvariants hmarkups heq =>
    have hsize : sizeOf variants < sizeOf c :=
      Nat.lt_trans (union_size hvariants) (element_parts_size hc)
    rw [heq]
    exact standIn_unionArray (standAmong_variants hmarkups) path c key
  | single _ _ hmarkup => exact standIn_singleArray hmarkup
termination_by (sizeOf c, 0, 0)
decreasing_by all_goals exact Prod.Lex.left _ _ hsize

/-- The bindings of a union stand in its markup. -/
theorem standIn_union {path : String} {f : Field} {c : Config} {markup : String}
    (h : unionMarkup path f c = .ok markup) :
    StandIn (bindingTexts (unionBindings (.path path) c)) markup.toList := by
  rw [unionBindings_eq]
  unfold unionMarkup at h
  split at h <;> rename_i hc <;> rw [hc]
  · exact .nil _
  · rename_i key variants
    have hsize : sizeOf variants < sizeOf c := Nat.lt_trans (union_size hc) (parts_size c)
    obtain ⟨markups, hmarkups, rfl⟩ := map_eq_ok.1 h
    exact standIn_unionCard (standAmong_variants hmarkups) path c key
termination_by (sizeOf c, 0, 0)
decreasing_by exact Prod.Lex.left _ _ hsize

/-- The bindings of the children of an object stand along their markup. -/
theorem standAlong_children {place : Place} {configs : List (String × Config)}
    {fields : List Field} {markups : List String}
    (h : childrenMarkup place configs fields = .ok markups) :
    StandAlong (bindingTexts (childrenBindings place configs fields)) markups := by
  match fields with
  | [] =>
    rw [childrenMarkup] at h
    cases h
    rw [childrenBindings]
    exact .nil
  | f :: rest =>
    rw [childrenBindings_cons, bindingTexts, List.flatMap_append]
    unfold childrenMarkup at h
    split at h <;> rename_i hc <;> rw [hc]
    · exact standAlong_children h
    · rename_i c
      have hsize : sizeOf c < sizeOf configs := sizeOf_lookup_config_lt hc
      split at h
      · cases h
      · rename_i markup hmarkup
        obtain ⟨others, hothers, rfl⟩ := map_eq_ok.1 h
        exact .cons (standIn_field hmarkup) (standAlong_children hothers)
termination_by (sizeOf configs, 2, fields.length)
decreasing_by
  · exact Prod.Lex.right _ (Prod.Lex.right _ (by simp))
  · exact Prod.Lex.left _ _ hsize
  · exact Prod.Lex.right _ (Prod.Lex.right _ (by simp))

/-- The bindings of the variants of a union stand among their markup. -/
theorem standAmong_variants {place : Place} {discriminator : String}
    {variants : List VariantConfig} {markups : List (String × List String)}
    (h : variantsMarkup place discriminator variants = .ok markups) :
    StandAmong (bindingTexts (variantsBindings place discriminator variants)) markups := by
  match variants with
  | [] =>
    rw [variantsMarkup] at h
    cases h
    rw [variantsBindings]
    exact .nil
  | ⟨tag, fields, configs⟩ :: rest =>
    rw [variantsBindings, bindingTexts, List.flatMap_append]
    unfold variantsMarkup at h
    split at h
    · cases h
    · rename_i children hchildren
      obtain ⟨others, hothers, rfl⟩ := map_eq_ok.1 h
      exact .cons tag (standAlong_children hchildren) (standAmong_variants hothers)
termination_by (sizeOf variants, 2, 0)
decreasing_by
  · apply Prod.Lex.left
    simp only [List.cons.sizeOf_spec, VariantConfig.mk.sizeOf_spec]
    omega
  · apply Prod.Lex.left
    simp only [List.cons.sizeOf_spec]
    omega

end

end FormSchema.Markup
