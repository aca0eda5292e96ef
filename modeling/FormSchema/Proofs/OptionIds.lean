import FormSchema.Proofs.Exclusion
import FormSchema.Proofs.Selectors

/-!
# Identifiers of buttons

An enum with few values is shown as buttons. The identifier of a button is one text, the names on
the way to its field joined by dots, a dash, and the value; the label of the button refers to it.
The text does not tell where a name ends and where the value begins, so buttons of different fields
may have one identifier. `fieldsMarkup_buttons` says which buttons the fields of a form have, when
two of them have the same identifier, and what names and values keep all of them apart.
-/

namespace FormSchema

open Text (joined escapeAttribute escapeText optionLabel)

/-! ## Buttons -/

/-- A button, by the names on the way to its field, with that of the field last, and its value. -/
structure Button where
  names : List String
  value : String
deriving DecidableEq, Repr

namespace Button

/-- The path of the field that the button belongs to. -/
def path (b : Button) : String :=
  joined "." b.names

/-- The text that the identifier says. -/
def idText (b : Button) : String :=
  b.path ++ "-" ++ b.value

/-- The identifier as an attribute. -/
def id (b : Button) : String :=
  "\"" ++ escapeAttribute b.idText ++ "\""

/-- The lines of the button and its label. -/
def lines (b : Button) : List String :=
  ["<RadioGroup.Item " ++ Markup.textAttribute "value" b.value ++ " id=" ++ b.id ++ " />",
    "<Label htmlFor=" ++ b.id ++ ">" ++ escapeText (optionLabel b.value) ++ "</Label>"]

/-- The button seen from one field further up. -/
def below (name : String) (b : Button) : Button :=
  { b with names := name :: b.names }

end Button

/-- The values that are shown as buttons. -/
def Content.buttonValues : Content → List String
  | .enum first rest => if rest.length + 1 ≤ radioOptions then first :: rest else []
  | _ => []

mutual

/-- The buttons of a field, in pre-order. -/
def Field.buttons : Field → List Button
  | ⟨name, _, _, _, _, _, content, _⟩ => content.buttons.map (Button.below name)

/-- The buttons below the field with the content. -/
def Content.buttons : Content → List Button
  | .object fields => buttonsAll fields
  | .tuple elements => buttonsAll elements
  | content => content.buttonValues.map (Button.mk [])

def buttonsAll : List Field → List Button
  | [] => []
  | f :: rest => f.buttons ++ buttonsAll rest

end

theorem Field.buttons_eq (f : Field) : f.buttons = f.content.buttons.map (Button.below f.name) := by
  obtain ⟨_, _, _, _, _, _, _, _⟩ := f
  rw [Field.buttons]

theorem buttonsAll_eq (fields : List Field) : buttonsAll fields = fields.flatMap Field.buttons := by
  induction fields with
  | nil => rw [buttonsAll, List.flatMap_nil]
  | cons f rest ih => rw [buttonsAll, List.flatMap_cons, ih]

theorem Content.buttons_of_children {content : Content}
    (h : content.type = .object ∨ content.type = .tuple) :
    content.buttons = content.children.flatMap Field.buttons := by
  cases content with
  | object fields => rw [Content.buttons, buttonsAll_eq, Content.children]
  | tuple elements => rw [Content.buttons, buttonsAll_eq, Content.children]
  | _ => rcases h with h | h <;> cases h

theorem Content.buttons_of_values {content : Content}
    (h : ¬(content.type = .object ∨ content.type = .tuple)) :
    content.buttons = content.buttonValues.map (Button.mk []) := by
  cases content with
  | object | tuple => exact absurd (by simp [Content.type]) h
  | _ => rw [Content.buttons] <;> simp

/-! ## Buttons in the markup -/

namespace Markup

/-- The option of a field at a place that a binding is for. -/
def Binding.option? : Binding → Option (Place × String)
  | name _ => none
  | option place value => some (place, value)

/-- No rule but the one for small enums has buttons. -/
theorem isSmallEnum_of_radioGroup {f : Field} : ∀ rule ∈ defaultRules,
    rule.accepts f = .ok true → rule.component = .radioGroup → isSmallEnum f = true := by
  simp only [defaultRules, List.forall_mem_cons, List.not_mem_nil, false_implies, implies_true,
    and_true]
  refine ⟨?_, ?_, ?_, ?_, ?_, ?_, fun h _ => Except.ok.inj h, ?_, ?_, ?_, ?_, ?_, ?_, ?_, ?_⟩ <;>
    rintro - ⟨⟩

theorem buttonValues_of_isSmallEnum {f : Field} (h : isSmallEnum f = true) :
    ∃ first rest, f.content = .enum first rest ∧ f.content.buttonValues = first :: rest := by
  unfold isSmallEnum at h
  split at h
  · rename_i first rest hcontent
    refine ⟨first, rest, hcontent, ?_⟩
    rw [hcontent, Content.buttonValues, if_pos (of_decide_eq_true h)]
  · cases h

theorem buttonValues_of_not_isSmallEnum {f : Field} (h : isSmallEnum f = false) :
    f.content.buttonValues = [] := by
  unfold isSmallEnum at h
  cases hcontent : f.content with
  | enum first rest =>
    rw [hcontent] at h
    exact if_neg (of_decide_eq_false h)
  | _ => rfl

/-- The options of an enum with few values are its values. -/
theorem options_of_isSmallEnum {f : Field} {c : Config} {rule : Rule} {given : Entries}
    {own : OwnParts} (h : f.ResolvesTo defaultRules c rule given own) {first : String}
    {rest : List String} (hcontent : f.content = .enum first rest) (hsmall : isSmallEnum f = true) :
    c.component = .radioGroup ∧ c.props.options = some (first :: rest) := by
  have hrule := h.accepted
  rw [firstRule?_enum hcontent, if_pos hsmall] at hrule
  cases hrule
  refine ⟨h.component, ?_⟩
  have hgiven : given = [("options", .list ((first :: rest).map .text))] := by
    have hprops : Except.ok (optionsProp f) = (.ok given : Result Entries) := h.gives
    rw [← Except.ok.inj hprops, optionsProp, hcontent]
  have hread := h.props.options
  rw [hgiven] at hread
  cases hoptions : c.props.options with
  | none =>
    rw [hoptions] at hread
    cases hread
  | some options =>
    rw [hoptions] at hread
    have hsame : (first :: rest).map Datum.text = options.map Datum.text := Datum.list.inj hread
    rw [List.map_injective_iff.2 (fun _ _ => Datum.text.inj) hsame]

/-- By the default rules the control of a field has a button for each value that is shown as
one. -/
theorem controlBindings_of_resolve {f : Field} {c : Config}
    (hcovers : ∀ g : Field, g.Within f → Covers defaultRules g)
    (hc : f.resolve defaultRules = .ok c) (place : Place) :
    controlBindings place c = f.content.buttonValues.map (Binding.option place) := by
  obtain ⟨rule, given, own, hf⟩ := Field.resolvesTo hcovers hc
  cases hsmall : isSmallEnum f with
  | true =>
    obtain ⟨first, rest, hcontent, hvalues⟩ := buttonValues_of_isSmallEnum hsmall
    obtain ⟨hradio, hoptions⟩ := options_of_isSmallEnum hf hcontent hsmall
    rw [controlBindings, hradio, hoptions, hvalues]
    rfl
  | false =>
    rw [buttonValues_of_not_isSmallEnum hsmall, controlBindings]
    split
    · rename_i hradio
      obtain ⟨hrule, haccepts⟩ := firstRule?_eq_some hf.accepted
      have hsome := isSmallEnum_of_radioGroup rule hrule haccepts (hf.component ▸ hradio)
      rw [hsmall] at hsome
      cases hsome
    · rfl

/-- By the default rules the bindings of a field that are for options are those of its buttons. -/
theorem reads_buttons {f : Field} (hordinary : ∀ g : Field, g.Within f → g.IsOrdinary) :
    Reads Binding.option? (fun path content => content.buttons.map fun b =>
      (.path (pathBelow path b.names), b.value)) f := by
  refine reads hordinary ?_ ?_
  · intro path content hkind
    simp only [Content.buttons_of_children hkind, List.map_flatMap, Field.buttons_eq, List.map_map]
    rfl
  · intro f c hkind hcovers hc path
    have hsingle : ¬(f.content.type = .object ∨ f.content.type = .tuple) := by
      rintro (h | h) <;> rw [Field.type, h] at hkind <;> cases hkind
    have hoptions : (singleBindings (.path path) c).filterMap Binding.option? =
        f.content.buttonValues.map fun value => (.path path, value) := by
      show (controlBindings (.path path) c).filterMap Binding.option? = _
      rw [controlBindings_of_resolve hcovers hc, List.filterMap_map]
      show List.filterMap (some ∘ fun value => (Place.path path, value)) _ = _
      rw [List.filterMap_eq_map]
    dsimp only
    rw [hoptions, Content.buttons_of_values hsingle, List.map_map]
    rfl

/-! ## Lines of buttons -/

/-- Whether a line is that of a button or of its label. -/
def isButtonLine (line : String) : Bool :=
  "<RadioGroup.Item ".toList.isPrefixOf line.toList ||
    "<Label htmlFor=".toList.isPrefixOf line.toList

theorem filter_isButtonLine (markup : String) :
    (strippedLines markup).filter isButtonLine = (bindingLines markup).filter isButtonLine := by
  rw [bindingLines, List.filter_filter]
  refine List.filter_congr fun line _ => ?_
  cases hbutton : isButtonLine line with
  | false => rfl
  | true =>
    have hopens : opensBinding line.toList = true := by
      rcases Bool.or_eq_true_iff.1 hbutton with h | h
      · exact List.any_eq_true.2 ⟨_, by simp [openers], h⟩
      · exact List.any_eq_true.2 ⟨_, by simp [openers], h⟩
    rw [hopens]
    rfl

theorem filter_buttonLines (bindings : List Binding) :
    (bindings.flatMap Binding.lines).filter isButtonLine =
      (bindings.filterMap Binding.option?).flatMap fun (place, value) =>
        (Binding.option place value).lines := by
  induction bindings with
  | nil => rfl
  | cons b rest ih =>
    rw [List.flatMap_cons, List.filter_append, ih]
    cases b with
    | name place =>
      have hline : (Binding.name place).lines.filter isButtonLine = [] := by
        cases place <;>
          simp [Binding.lines, isButtonLine, Place.nameAttribute, textAttribute, List.isPrefixOf]
      rw [hline]
      rfl
    | option place value =>
      have hlines : (Binding.option place value).lines.filter isButtonLine =
          (Binding.option place value).lines := by
        simp [Binding.lines, isButtonLine]
      rw [hlines]
      rfl

/-- Where a field in a tree of names is rendered by the default rules, it is rendered with the lines
of its buttons. -/
theorem buttonLines_markup {f : Field} (h : ∀ g : Field, g.Within f → g.IsOrdinary) {c : Config}
    (hc : f.resolve defaultRules = .ok c) {markup : String}
    (hmarkup : fieldMarkup (.path f.name) f c = .ok markup) :
    (bindingLines markup).filter isButtonLine = f.buttons.flatMap Button.lines := by
  have hcovers : ∀ g : Field, g.Within f → Covers defaultRules g := fun g hg =>
    covers_defaultRules (h g hg).bounds
  have hflat := allFlat_of_resolve hcovers (fun g hg => (h g hg).isFlat) hc
  have hname : FormSchema.IsFlat f.name := (h f (.self f)).name
  have hplace : (Place.path f.name).IsFlat := hname
  rw [bindingLines_field hflat hplace hname hmarkup, filter_buttonLines,
    reads_buttons h c hc f.name, Field.buttons_eq, List.flatMap_map, List.flatMap_map]
  refine List.flatMap_congr fun b _ => ?_
  rw [Button.below, Button.lines, Button.id, Button.idText, Button.path, joined_cons]
  rfl

theorem buttonLines_rootMarkups {margin : Nat} : ∀ {fields : List Field} {markups : List String},
    (∀ root ∈ fields, ∀ g : Field, g.Within root → g.IsOrdinary) →
      FormFile.rootMarkups margin (chosenBy defaultRules fields) = .ok markups →
        (markups.flatMap bindingLines).filter isButtonLine =
          (buttonsAll fields).flatMap Button.lines
  | [], _, _, hmarkups => by
    cases hmarkups
    rfl
  | f :: rest, _, h, hmarkups => by
    obtain ⟨hfirst, hothers⟩ := List.forall_mem_cons.1 h
    obtain ⟨c, hc, -⟩ := f.resolve_succeeds fun g hg => covers_defaultRules (hfirst g hg).bounds
    have hchosen : chosenBy defaultRules (f :: rest) = (f, c) :: chosenBy defaultRules rest := by
      simp [chosenBy, hc]
    rw [hchosen, FormFile.rootMarkups] at hmarkups
    cases hmarkup : fieldMarkup (.path f.name) f c with
    | error e =>
      rw [hmarkup] at hmarkups
      cases hmarkups
    | ok markup =>
      rw [hmarkup] at hmarkups
      obtain ⟨others, hrest, rfl⟩ := map_eq_ok.1 hmarkups
      rw [List.flatMap_cons, List.filter_append, bindingLines_indent,
        buttonLines_markup hfirst hc hmarkup, buttonLines_rootMarkups hothers hrest, buttonsAll,
        List.flatMap_append]

end Markup

/-! ## Equal identifiers -/

namespace Button

/-- The path of the second button goes on behind that of the first one with a dash and what the
value of the first one begins with in front of a dash. -/
def Splits (b b' : Button) : Prop :=
  ∃ q, b'.path = b.path ++ "-" ++ q ∧ b.value = q ++ "-" ++ b'.value

theorem escapeAttribute_inj {s t : String} (h : escapeAttribute s = escapeAttribute t) : s = t := by
  have hs := Source.spelled_of_spells (Source.spells_escapeAttribute s) trivial
  have ht := Source.spelled_of_spells (Source.spells_escapeAttribute t) trivial
  rw [h, ht] at hs
  simpa using hs.symm

/-- One text says both identifiers if the dash is in the same place, or if one of the two has it
further on. -/
theorem idText_eq_iff {b b' : Button} : b.idText = b'.idText ↔
    (b.path = b'.path ∧ b.value = b'.value) ∨ b.Splits b' ∨ b'.Splits b := by
  have hlist (b : Button) : b.idText.toList = b.path.toList ++ '-' :: b.value.toList := by
    simp [idText]
  have hsplit {p p' v v' a : List Char} (hp : p' = p ++ a) (hv : '-' :: v = a ++ '-' :: v') :
      (p = p' ∧ v = v') ∨ ∃ q, p' = p ++ '-' :: q ∧ v = q ++ '-' :: v' := by
    cases a with
    | nil => exact .inl ⟨by simp [hp], (List.cons.inj hv).2⟩
    | cons c q =>
      obtain ⟨rfl, htail⟩ := List.cons.inj hv
      exact .inr ⟨q, hp, htail⟩
  have hSplits {b b' : Button} {q : List Char} (hp : b'.path.toList = b.path.toList ++ '-' :: q)
      (hv : b.value.toList = q ++ '-' :: b'.value.toList) : b.Splits b' :=
    ⟨String.ofList q, by simp [← String.toList_inj, hp], by simp [← String.toList_inj, hv]⟩
  constructor
  · intro h
    have hchars := congrArg String.toList h
    rw [hlist, hlist, List.append_eq_append_iff] at hchars
    rcases hchars with ⟨a, hp, hv⟩ | ⟨a, hp, hv⟩
    · rcases hsplit hp hv with ⟨hp, hv⟩ | ⟨q, hp, hv⟩
      · exact .inl ⟨String.toList_inj.1 hp, String.toList_inj.1 hv⟩
      · exact .inr (.inl (hSplits hp hv))
    · rcases hsplit hp hv with ⟨hp, hv⟩ | ⟨q, hp, hv⟩
      · exact .inl ⟨String.toList_inj.1 hp.symm, String.toList_inj.1 hv.symm⟩
      · exact .inr (.inr (hSplits hp hv))
  · rintro (⟨hp, hv⟩ | ⟨q, hp, hv⟩ | ⟨q, hp, hv⟩)
    · rw [idText, idText, hp, hv]
    · simp only [idText, hp, hv, String.append_assoc]
    · simp only [idText, hp, hv, String.append_assoc]

theorem id_eq_iff {b b' : Button} : b.id = b'.id ↔
    (b.path = b'.path ∧ b.value = b'.value) ∨ b.Splits b' ∨ b'.Splits b := by
  rw [← idText_eq_iff]
  constructor
  · intro h
    have hchars := congrArg String.toList h
    simp only [id, String.toList_append] at hchars
    have hattributes := List.append_cancel_left (List.append_cancel_right hchars)
    exact escapeAttribute_inj (String.toList_inj.1 hattributes)
  · intro h
    rw [id, id, h]

end Button

/-! ## Identifiers that are kept apart -/

/-- Names without dots are told by their path. -/
theorem splitOn_joined {names : List String} (hne : names ≠ [])
    (h : ∀ name ∈ names, '.' ∉ name.toList) : Text.splitOn '.' (joined "." names) = names := by
  obtain ⟨first, rest, rfl⟩ := List.exists_cons_of_ne_nil hne
  have hpieces : ∀ names : List String, (∀ name ∈ names, '.' ∉ name.toList) →
      piecesOf names = names := by
    intro names h
    induction names with
    | nil => rfl
    | cons name rest ih =>
      obtain ⟨hname, hrest⟩ := List.forall_mem_cons.1 h
      show Text.splitOn '.' name ++ piecesOf rest = _
      rw [splitOn_of_not_mem hname, ih hrest, List.singleton_append]
  rw [joined_cons, splitOn_pathBelow, hpieces _ h]

theorem not_mem_joined {c : Char} (hc : c ≠ '.') : ∀ {names : List String},
    (∀ name ∈ names, c ∉ name.toList) → c ∉ (joined "." names).toList
  | [], _ => by simp [joined]
  | [name], h => by simpa [joined] using h
  | name :: next :: rest, h => by
    obtain ⟨hname, hrest⟩ := List.forall_mem_cons.1 h
    have hothers := not_mem_joined hc hrest
    rw [joined, String.toList_append, String.toList_append, List.mem_append, List.mem_append]
    · rintro ((hmem | hmem) | hmem)
      · exact hname hmem
      · exact hc (List.mem_singleton.1 hmem)
      · exact hothers hmem
    · simp

/-- A button of a field has its name first, names of fields within it, and a value of one of
them. -/
structure Field.Has (f : Field) (b : Button) : Prop where
  first : ∃ rest, b.names = f.name :: rest
  names : ∀ name ∈ b.names, ∃ g : Field, g.Within f ∧ g.name = name
  value : ∃ g : Field, g.Within f ∧ b.value ∈ g.content.buttonValues

theorem Field.has_of_mem {f : Field} : ∀ b ∈ f.buttons, f.Has b := by
  suffices h : Ascends fun f => ∀ b ∈ f.buttons, f.Has b from Field.of_ascends h f
  intro f ih b hb
  rw [Field.buttons_eq] at hb
  obtain ⟨inner, hinner, rfl⟩ := List.mem_map.1 hb
  by_cases hkind : f.content.type = .object ∨ f.content.type = .tuple
  · rw [Content.buttons_of_children hkind] at hinner
    obtain ⟨g, hg, hinner⟩ := List.mem_flatMap.1 hinner
    have hhas := ih g hg inner hinner
    refine ⟨⟨_, rfl⟩, List.forall_mem_cons.2 ⟨⟨f, .self f, rfl⟩, fun name hname => ?_⟩, ?_⟩
    · obtain ⟨e, he, rfl⟩ := hhas.names name hname
      exact ⟨e, .deeper hg he, rfl⟩
    · obtain ⟨e, he, hvalue⟩ := hhas.value
      exact ⟨e, .deeper hg he, hvalue⟩
  · rw [Content.buttons_of_values hkind] at hinner
    obtain ⟨value, hvalue, rfl⟩ := List.mem_map.1 hinner
    exact ⟨⟨[], rfl⟩, List.forall_mem_singleton.2 ⟨f, .self f, rfl⟩, f, .self f, hvalue⟩

/-- Fields with different names have different buttons, if each field has. -/
theorem nodup_buttonsAll {fields : List Field} (hnames : (fields.map Field.name).Nodup)
    (h : ∀ f ∈ fields, f.buttons.Nodup) : (fields.flatMap Field.buttons).Nodup := by
  refine List.nodup_flatMap.2 ⟨h, (List.pairwise_map.1 hnames).imp fun {f g} hne => ?_⟩
  intro b hf hg
  obtain ⟨rest, hfirst⟩ := (Field.has_of_mem b hf).first
  obtain ⟨rest', hfirst'⟩ := (Field.has_of_mem b hg).first
  rw [hfirst] at hfirst'
  exact hne (List.cons.inj hfirst').1

/-- The buttons of a field are different, if the names right below each field and the values of
each field are. -/
theorem nodup_buttons {f : Field} (h : ∀ g : Field, g.Within f →
    g.content.HasDistinctNames ∧ g.content.buttonValues.Nodup) : f.buttons.Nodup := by
  refine Field.of_within f h fun f hself ih => ?_
  have hbelow : Function.Injective (Button.below f.name) := by
    rintro ⟨names, value⟩ ⟨names', value'⟩ hsame
    cases hsame
    rfl
  rw [Field.buttons_eq]
  refine List.Nodup.map hbelow ?_
  by_cases hkind : f.content.type = .object ∨ f.content.type = .tuple
  · rw [Content.buttons_of_children hkind]
    refine nodup_buttonsAll ?_ ih
    have hdistinct := hself.1
    generalize f.content = content at hkind hdistinct
    cases content with
    | object fields => exact hdistinct
    | tuple elements => exact hdistinct
    | _ => rcases hkind with h | h <;> cases h
  · rw [Content.buttons_of_values hkind]
    exact hself.2.map fun _ _ hsame => (Button.mk.inj hsame).2

/-- The names and values of fields keep identifiers apart: they are different where they stand side
by side, no name has a dot, and dashes are in names only or in values only. -/
structure KeepsApart (fields : List Field) : Prop where
  names : (fields.map Field.name).Nodup
  values : ∀ root ∈ fields, ∀ g : Field, g.Within root → g.content.buttonValues.Nodup
  dots : ∀ root ∈ fields, ∀ g : Field, g.Within root → '.' ∉ g.name.toList
  dashes : (∀ root ∈ fields, ∀ g : Field, g.Within root → '-' ∉ g.name.toList) ∨
    ∀ root ∈ fields, ∀ g : Field, g.Within root →
      ∀ value ∈ g.content.buttonValues, '-' ∉ value.toList

theorem KeepsApart.not_splits {fields : List Field} (h : KeepsApart fields) {b b' : Button}
    (hb : b ∈ buttonsAll fields) (hb' : b' ∈ buttonsAll fields) : ¬b.Splits b' := by
  rintro ⟨q, hpath, hvalue⟩
  rw [buttonsAll_eq, List.mem_flatMap] at hb hb'
  obtain ⟨f, hf, hb⟩ := hb
  obtain ⟨f', hf', hb'⟩ := hb'
  rcases h.dashes with hnames | hvalues
  · have hnone : '-' ∉ b'.path.toList := by
      refine not_mem_joined (by decide) fun name hname => ?_
      obtain ⟨g, hg, rfl⟩ := (Field.has_of_mem b' hb').names name hname
      exact hnames f' hf' g hg
    exact hnone (by simp [hpath])
  · obtain ⟨g, hg, hmem⟩ := (Field.has_of_mem b hb).value
    exact hvalues f hf g hg b.value hmem (by simp [hvalue])

theorem KeepsApart.nodup_ids {fields : List Field} (h : KeepsApart fields)
    (hdistinct : ∀ root ∈ fields, ∀ g : Field, g.Within root → g.content.HasDistinctNames) :
    ((buttonsAll fields).map Button.id).Nodup := by
  have hbuttons : (buttonsAll fields).Nodup := by
    rw [buttonsAll_eq]
    exact nodup_buttonsAll h.names fun f hf => nodup_buttons fun g hg =>
      ⟨hdistinct f hf g hg, h.values f hf g hg⟩
  have hnames : ∀ b ∈ buttonsAll fields, Text.splitOn '.' b.path = b.names := by
    intro b hb
    rw [buttonsAll_eq, List.mem_flatMap] at hb
    obtain ⟨f, hf, hb⟩ := hb
    obtain ⟨⟨rest, hfirst⟩, hwithin, -⟩ := Field.has_of_mem b hb
    refine splitOn_joined (by simp [hfirst]) fun name hname => ?_
    obtain ⟨g, hg, rfl⟩ := hwithin name hname
    exact h.dots f hf g hg
  refine (List.nodup_map_iff_inj_on hbuttons).2 fun b hb b' hb' hid => ?_
  rcases Button.id_eq_iff.1 hid with ⟨hpath, hvalue⟩ | hsplits | hsplits
  · have hsame : b.names = b'.names := by rw [← hnames b hb, ← hnames b' hb', hpath]
    cases b
    cases b'
    cases hsame
    cases hvalue
    rfl
  · exact absurd hsplits (h.not_splits hb hb')
  · exact absurd hsplits (h.not_splits hb' hb)

/-! ## The buttons of a form -/

/-- The fields of a form are rendered by the default rules, unless one of their constraints is too
long to be written, with the lines of their buttons. Two identifiers are equal if the paths and the
values are, or if the dash between them is in another place of the same text, and only then. If the
names and values keep identifiers apart, no two buttons of the form have the same one. -/
theorem fieldsMarkup_buttons {fields : List Field}
    (h : ∀ root ∈ fields, ∀ g : Field, g.Within root → g.IsOrdinary) (margin : Nat) :
    ((∃ content, FormFile.fieldsMarkup margin (chosenBy defaultRules fields) = .ok content) ∨
      FormFile.fieldsMarkup margin (chosenBy defaultRules fields) = .error .longInteger ∧
        ¬∀ root ∈ fields, root.AllShort) ∧
      (∀ content, FormFile.fieldsMarkup margin (chosenBy defaultRules fields) = .ok content →
        (Markup.strippedLines content).filter Markup.isButtonLine =
          (buttonsAll fields).flatMap Button.lines) ∧
      (∀ b b' : Button, b.id = b'.id ↔
        (b.path = b'.path ∧ b.value = b'.value) ∨ b.Splits b' ∨ b'.Splits b) ∧
      (KeepsApart fields → ((buttonsAll fields).map Button.id).Nodup) := by
  have hcovers : ∀ root ∈ fields, ∀ g : Field, g.Within root → Covers defaultRules g :=
    fun root hroot g hg => covers_defaultRules (h root hroot g hg).bounds
  obtain ⟨-, -, hoffer⟩ := chosenBy_of_covers hcovers
  have hshow : ∀ e ∈ chosenBy defaultRules fields,
      e.2.AllShow (∀ root ∈ fields, root.AllShort) := fun e he =>
    have ⟨hroot, hc⟩ := mem_chosenBy he
    (hoffer e he).allShow fun hshort => allShort_of_resolve (hcovers e.1 hroot) hc (hshort e.1 hroot)
  refine ⟨FormFile.fieldsMarkup_isWritten hshow margin, fun content hcontent => ?_,
    fun _ _ => Button.id_eq_iff, fun hapart => hapart.nodup_ids fun root hroot g hg =>
      (h root hroot g hg).distinct⟩
  obtain ⟨markups, hmarkups, rfl⟩ := map_eq_ok.1 hcontent
  rw [Markup.filter_isButtonLine, Markup.bindingLines_joined Markup.breaks_lines,
    Markup.buttonLines_rootMarkups h hmarkups]

/-- A choice whose value looks like the rest of the path to another one. -/
def dashedChoices : List Field :=
  [Markup.titledField "a" (.enum "b.c-x" []),
    Markup.titledField "a-b" (.object [Markup.titledField "c" (.enum "x" [])])]

theorem isOrdinary_dashedChoices {root : Field} (hroot : root ∈ dashedChoices) {g : Field}
    (h : g.Within root) : g.IsOrdinary := by
  have htree (name : String) (content : Content) :
      (Markup.titledField name content).preorder =
        Markup.titledField name content :: content.children.flatMap Field.preorder :=
    Field.preorder_eq _
  have hchoice {name value : String} (hname : FormSchema.IsFlat name)
      (hvalue : FormSchema.IsFlat value) :
      (Markup.titledField name (.enum value [])).IsOrdinary :=
    Markup.isOrdinary_titledField (by simp [Content.type]) trivial hname
      (by simpa only [Content.HasTexts, List.forall_mem_singleton] using hvalue)
  have hall : ∀ root ∈ dashedChoices, ∀ g ∈ root.preorder, g.IsOrdinary := by
    simp only [dashedChoices, htree, Content.children, List.flatMap_cons, List.flatMap_nil,
      List.append_nil, List.forall_mem_cons]
    refine ⟨⟨hchoice (by decide) (by decide), by simp⟩,
      ⟨?_, hchoice (by decide) (by decide), by simp⟩, by simp⟩
    exact Markup.isOrdinary_titledField (by decide) (by simp [Content.HasDistinctNames])
      (by decide) trivial
  exact hall root hroot g (Field.mem_preorder.2 h)

theorem allShort_dashedChoices : ∀ root ∈ dashedChoices, root.AllShort := by
  simp [dashedChoices, Markup.titledField, Field.allShort_of_unconstrained, Field.children,
    Content.children]

/-- The choices belong to fields in different objects, and have buttons with one identifier. -/
theorem fieldsMarkup_buttons_dashed :
    ∃ content, FormFile.fieldsMarkup 6 (chosenBy defaultRules dashedChoices) = .ok content ∧
      (Markup.strippedLines content).filter Markup.isButtonLine =
        ["<RadioGroup.Item value=\"b.c-x\" id=\"a-b.c-x\" />",
          "<Label htmlFor=\"a-b.c-x\">B.c-x</Label>",
          "<RadioGroup.Item value=\"x\" id=\"a-b.c-x\" />",
          "<Label htmlFor=\"a-b.c-x\">X</Label>"] := by
  obtain ⟨hwritten, hlines, -⟩ :=
    fieldsMarkup_buttons (fun _ hroot _ hg => isOrdinary_dashedChoices hroot hg) 6
  obtain ⟨content, hcontent⟩ := hwritten.resolve_right fun hlong => hlong.2 allShort_dashedChoices
  have hbuttons : buttonsAll dashedChoices = [⟨["a"], "b.c-x"⟩, ⟨["a-b", "c"], "x"⟩] := by
    have hfew : 0 + 1 ≤ radioOptions := by decide
    simp [dashedChoices, Markup.titledField, buttonsAll, Field.buttons, Content.buttons,
      Content.buttonValues, Button.below, hfew]
  refine ⟨content, hcontent, (hlines content hcontent).trans ?_⟩
  rw [hbuttons]
  decide

end FormSchema
