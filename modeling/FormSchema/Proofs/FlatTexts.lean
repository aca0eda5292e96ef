import FormSchema.Markup.Composite
import FormSchema.Proofs.PlainTexts

/-!
# Texts on one line

A flat text has no line break. Attributes and quoted texts are flat whatever they say
(`isFlat_textAttribute`, `isFlat_quoted`), and so are numbers and the ways to members. Text between
tags and in template literals is as flat as what it is made from, and so are labels, since no
character has the line break as its capital (`isFlat_label`).
-/

namespace FormSchema

/-- No line break is in the text. -/
def IsFlat (s : String) : Prop :=
  '\n' ∉ s.toList

instance (s : String) : Decidable (IsFlat s) :=
  inferInstanceAs (Decidable ('\n' ∉ s.toList))

/-! ## Pieces put together -/

theorem isFlat_ofList {cs : List Char} : IsFlat (String.ofList cs) ↔ '\n' ∉ cs := by
  rw [IsFlat, String.toList_ofList]

/-- A fixed text, by its characters. -/
theorem isFlat_fixed {s : String} {cs : List Char} (hs : s = String.ofList cs) (h : '\n' ∉ cs) :
    IsFlat s :=
  hs ▸ isFlat_ofList.2 h

/-- Two texts are flat together just if each one is. -/
@[simp]
theorem isFlat_append {s t : String} : IsFlat (s ++ t) ↔ IsFlat s ∧ IsFlat t := by
  simp [IsFlat]

/-! ## Escaped and quoted texts -/

/-- Escaping for an attribute leaves no line break. -/
theorem isFlat_escapeAttribute (s : String) : IsFlat (Text.escapeAttribute s) :=
  Text.lineFeed_not_mem_escapeAttribute s

/-- Escaping a flat text between tags brings in no line break. -/
theorem isFlat_escapeText {s : String} (h : IsFlat s) : IsFlat (Text.escapeText s) := by
  rw [IsFlat, Text.toList_escapeText, List.mem_flatMap]
  rintro ⟨c, hc, hmem⟩
  rcases Text.textChar_cases c with ⟨e, he, hchar, -⟩ | ⟨hchar, -⟩
  · rw [hchar] at hmem
    exact Text.not_mem_entity he (by decide) hmem
  · rw [hchar] at hmem
    obtain rfl := List.mem_singleton.1 hmem
    exact h hc

/-- Escaping a flat text for a template brings in no line break. -/
theorem isFlat_escapeTemplate {s : String} (h : IsFlat s) : IsFlat (Text.escapeTemplate s) := by
  rw [IsFlat, Text.toList_escapeTemplate]
  exact fun hmem => h (mem_of_mem_templateChars (by decide) hmem)

/-- A quoted text has no line break, whatever the text is. -/
theorem isFlat_quoted (s : String) : IsFlat (Text.quoted s) :=
  Source.lineFeed_not_mem_quoted s

/-- An identifier is flat. -/
theorem isFlat_of_isIdentifier {name : String} (h : Text.isIdentifier name.toList = true) :
    IsFlat name :=
  Source.lineFeed_not_mem_of_isWord (Source.isWord_of_isIdentifier h)

theorem isFlat_memberStep (name : String) : IsFlat (Text.memberStep name) := by
  unfold Text.memberStep
  split
  · rename_i h
    exact isFlat_append.2 ⟨by decide, isFlat_of_isIdentifier h⟩
  · exact isFlat_append.2 ⟨isFlat_append.2 ⟨by decide, isFlat_quoted name⟩, by decide⟩

/-- The access to members is flat, whatever their names are. -/
theorem isFlat_memberAccess : ∀ (names : List String) {base : String}, IsFlat base →
    IsFlat (Text.memberAccess base names)
  | [], _, hbase => hbase
  | name :: rest, base, hbase => by
    show IsFlat (Text.memberAccess (base ++ Text.memberStep name) rest)
    exact isFlat_memberAccess rest (isFlat_append.2 ⟨hbase, isFlat_memberStep name⟩)

/-! ## Labels and numbers -/

/-- The label of a flat name is flat. -/
theorem isFlat_label {name : String} (h : IsFlat name) : IsFlat (Text.label name) :=
  fun hmem => h (mem_of_mem_label isCaseless_break (by decide) hmem)

/-- The label of a flat option is flat. -/
theorem isFlat_optionLabel {value : String} (h : IsFlat value) :
    IsFlat (Text.optionLabel value) :=
  fun hmem => h (mem_of_mem_optionLabel isCaseless_break (by decide) hmem)

theorem isFlat_intText (n : Int) : IsFlat (intText n) :=
  fun hmem => absurd (List.all_eq_true.1 (intText_all n) _ hmem) (by decide)

/-- The literal of a number is flat. -/
theorem isFlat_literal (n : Number) : IsFlat n.literal :=
  fun hmem => absurd (List.all_eq_true.1 (literal_all n) _ hmem) (by decide)

namespace Markup

/-! ## Attributes and places -/

theorem isFlat_braced {s : String} (h : IsFlat s) : IsFlat (braced s) :=
  isFlat_append.2 ⟨isFlat_append.2 ⟨by decide, h⟩, by decide⟩

theorem isFlat_templated {s : String} (h : IsFlat s) : IsFlat (templated s) :=
  isFlat_braced (isFlat_append.2 ⟨isFlat_append.2 ⟨by decide, h⟩, by decide⟩)

/-- An attribute of text is flat, whatever the text is. -/
theorem isFlat_textAttribute {name : String} (hname : IsFlat name) (value : String) :
    IsFlat (textAttribute name value) := by
  simp only [textAttribute, isFlat_append]
  exact ⟨⟨⟨hname, by decide⟩, isFlat_escapeAttribute value⟩, by decide⟩

/-- An attribute of flat code is flat. -/
theorem isFlat_codeAttribute {name value : String} (hname : IsFlat name) (hvalue : IsFlat value) :
    IsFlat (codeAttribute name value) :=
  isFlat_append.2 ⟨isFlat_append.2 ⟨hname, by decide⟩, isFlat_braced hvalue⟩

/-- The text of a place is flat. -/
def Place.IsFlat : Place → Prop
  | path names => FormSchema.IsFlat names
  | row template => FormSchema.IsFlat template

namespace Place

/-- The place of a member is flat, if the place of the object and the name are. -/
theorem isFlat_child {place : Place} {name : String} (h : place.IsFlat)
    (hname : FormSchema.IsFlat name) : (place.child name).IsFlat := by
  cases place with
  | path names => exact isFlat_append.2 ⟨isFlat_append.2 ⟨h, by decide⟩, hname⟩
  | row template =>
    exact isFlat_append.2 ⟨isFlat_append.2 ⟨h, by decide⟩, isFlat_escapeTemplate hname⟩

theorem isFlat_rows {path : String} (h : FormSchema.IsFlat path) : (rows path).IsFlat := by
  show FormSchema.IsFlat _
  simp only [isFlat_append]
  exact ⟨⟨⟨isFlat_escapeTemplate h, by decide⟩, by decide⟩, by decide⟩

theorem isFlat_entries {path : String} (h : FormSchema.IsFlat path) : (entries path).IsFlat := by
  show FormSchema.IsFlat _
  simp only [isFlat_append]
  exact ⟨⟨isFlat_escapeTemplate h, by decide⟩, by decide⟩

/-- The name of a flat place is flat. -/
theorem isFlat_nameAttribute {place : Place} (h : place.IsFlat) :
    FormSchema.IsFlat place.nameAttribute := by
  cases place with
  | path names => exact isFlat_textAttribute (by decide) names
  | row template => exact isFlat_append.2 ⟨by decide, isFlat_templated h⟩

/-- The identifier of a flat option at a flat place is flat. -/
theorem isFlat_optionId {place : Place} {option : String} (h : place.IsFlat)
    (hoption : FormSchema.IsFlat option) : FormSchema.IsFlat (place.optionId option) := by
  cases place with
  | path names =>
    exact isFlat_append.2 ⟨isFlat_append.2 ⟨by decide, isFlat_escapeAttribute _⟩, by decide⟩
  | row template =>
    exact isFlat_templated
      (isFlat_append.2 ⟨isFlat_append.2 ⟨h, by decide⟩, isFlat_escapeTemplate hoption⟩)

end Place

end Markup

end FormSchema
