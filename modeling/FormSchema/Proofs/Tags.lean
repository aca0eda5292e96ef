import FormSchema.FormFile.Primitives
import FormSchema.Markup.Composite
import FormSchema.Proofs.PlainTexts

/-!
# Tags in markup

A component is rendered by a tag, an opening angle bracket and the name of the component. The tags
of a text are found by the brackets alone (`componentTags`). If a text is cut where no name goes on,
its tags are those of the parts (`componentTags_append`); so the tags of lines are those of each
line (`componentTags_lines`), and moving lines to the right changes none (`componentTags_indent`).

The pieces of markup are followed one by one: each has tags of its own, which are fixed, and the
tags of the markup that is put into it. All other texts in it are plain.
-/

namespace FormSchema

/-! ## Tags -/

/-- A letter that the name of a component starts with: any but the small letters of ASCII, which
elements of the page start with. -/
def opensName (c : Char) : Bool :=
  Unicode.isLetter c && !c.isLower

/-- The name of a component at the start of a text, up to the end of the letters. -/
def nameAtStart (cs : List Char) : List String :=
  match cs with
  | c :: _ => if opensName c then [String.ofList (cs.takeWhile Unicode.isLetter)] else []
  | [] => []

/-- The names of components right behind the opening angle brackets of a text. -/
def componentTags : List Char → List String
  | [] => []
  | c :: rest => (if c = '<' then nameAtStart rest else []) ++ componentTags rest

/-- All tags of the text have names among the given ones. -/
def Renders (names : List String) (s : String) : Prop :=
  ∀ tag ∈ componentTags s.toList, tag ∈ names

/-- All tags of the texts have names among the given ones. -/
def RenderAll (names ls : List String) : Prop :=
  ∀ l ∈ ls, Renders names l

/-- No name goes on with the text. -/
def endsName (cs : List Char) : Bool :=
  cs.head?.all fun c => !Unicode.isLetter c

/-- No name goes on behind the text, and no bracket is at its end. -/
def isShut (cs : List Char) : Bool :=
  cs.getLast?.all fun c => !Unicode.isLetter c && c != '<'

/-- A name that ends is the same with anything behind it. -/
theorem takeWhile_append_of_endsName {cs rest : List Char} (h : endsName rest = true) :
    (cs ++ rest).takeWhile Unicode.isLetter = cs.takeWhile Unicode.isLetter := by
  have hrest : rest.takeWhile Unicode.isLetter = [] := by
    cases rest with
    | nil => rfl
    | cons c rest => simpa [endsName] using h
  rw [List.takeWhile_append, hrest, List.append_nil]
  split
  · rename_i hall
    rw [List.IsPrefix.eq_of_length (List.takeWhile_prefix _) hall]
  · rfl

theorem nameAtStart_append {cs rest : List Char} (h : endsName rest = true) :
    nameAtStart (cs ++ rest) = nameAtStart cs := by
  cases cs with
  | nil =>
    cases rest with
    | nil => rfl
    | cons c rest =>
      have hletter : Unicode.isLetter c = false := by simpa [endsName] using h
      simp [nameAtStart, opensName, hletter]
  | cons c cs =>
    rw [List.cons_append, nameAtStart, nameAtStart, ← List.cons_append,
      takeWhile_append_of_endsName h]

/-- A text that is cut where no name goes on has the tags of both parts. -/
theorem componentTags_append {cs rest : List Char} (h : endsName rest = true) :
    componentTags (cs ++ rest) = componentTags cs ++ componentTags rest := by
  induction cs with
  | nil => rfl
  | cons c cs ih =>
    rw [List.cons_append, componentTags, componentTags, ih, nameAtStart_append h,
      List.append_assoc]

/-- Behind a text that is shut, the tags of both texts are found one after the other. -/
theorem componentTags_append_of_isShut {cs : List Char} (h : isShut cs = true) (rest : List Char) :
    componentTags (cs ++ rest) = componentTags cs ++ componentTags rest := by
  rcases List.eq_nil_or_concat cs with rfl | ⟨front, c, rfl⟩
  · rfl
  · rw [List.concat_eq_append] at h ⊢
    have hlast : Unicode.isLetter c = false ∧ c ≠ '<' := by simpa [isShut] using h
    have hends (more : List Char) : endsName (c :: more) = true := by simp [endsName, hlast.1]
    have htags (more : List Char) : componentTags (c :: more) = componentTags more := by
      simp [componentTags, hlast.2]
    rw [List.append_assoc, List.singleton_append, componentTags_append (hends rest),
      componentTags_append (hends []), htags, htags]
    simp [componentTags]

/-- A plain text has no tags. -/
theorem componentTags_of_isPlain {cs : List Char} (h : '<' ∉ cs) : componentTags cs = [] := by
  induction cs with
  | nil => rfl
  | cons c cs ih =>
    rw [List.mem_cons, not_or] at h
    rw [componentTags, if_neg fun hc => h.1 hc.symm, ih h.2]
    rfl

/-! ## Lines -/

/-- No name goes on with the separator, and it has no tags itself. -/
def Separates (sep : String) : Prop :=
  ∀ cs : List Char, endsName (sep.toList ++ cs) = true ∧
    componentTags (sep.toList ++ cs) = componentTags cs

theorem separates_break : Separates "\n" := by
  intro cs
  have hletter : Unicode.isLetter '\n' = false := by decide
  exact ⟨by simp [endsName, hletter], by simp [componentTags]⟩

theorem separates_breaks : Separates "\n\n" := by
  intro cs
  have hletter : Unicode.isLetter '\n' = false := by decide
  exact ⟨by simp [endsName, hletter], by simp [componentTags]⟩

/-- The tags of joined pieces are those of each piece, in order. -/
theorem componentTags_joined {sep : String} (hsep : Separates sep) : ∀ pieces : List String,
    componentTags (Text.joined sep pieces).toList =
      pieces.flatMap fun s => componentTags s.toList
  | [] => rfl
  | [s] => by simp [Text.joined]
  | s :: next :: rest => by
    have htail := componentTags_joined hsep (next :: rest)
    rw [Text.joined, String.toList_append, String.toList_append, List.append_assoc,
      componentTags_append (hsep _).1, (hsep _).2, htail]
    · rfl
    · simp

/-- The tags of lines are those of each line. -/
theorem componentTags_lines (ls : List String) :
    componentTags (Text.lines ls).toList = ls.flatMap fun l => componentTags l.toList :=
  componentTags_joined separates_break ls

/-- Joined pieces use imported names just if each piece does. -/
theorem renders_joined {names pieces : List String} {sep : String} (hsep : Separates sep) :
    Renders names (Text.joined sep pieces) ↔ RenderAll names pieces := by
  simp only [RenderAll, Renders, componentTags_joined hsep, List.mem_flatMap]
  exact ⟨fun h s hs tag htag => h tag ⟨s, hs, htag⟩, fun h tag ⟨s, hs, htag⟩ => h s hs tag htag⟩

/-- Lines use imported names just if each line does. -/
theorem renders_lines {names ls : List String} :
    Renders names (Text.lines ls) ↔ RenderAll names ls :=
  renders_joined separates_break

/-- There is always a piece, also of the empty text. -/
theorem splitChars_ne_nil (sep : Char) : ∀ cs : List Char, Text.splitChars sep cs ≠ []
  | [] => by simp [Text.splitChars]
  | c :: rest => by
    unfold Text.splitChars
    split
    · simp
    · split <;> simp

theorem toList_joined_cons (sep : String) (c : Char) (piece : List Char) (pieces : List String) :
    (Text.joined sep (String.ofList (c :: piece) :: pieces)).toList =
      c :: (Text.joined sep (String.ofList piece :: pieces)).toList := by
  cases pieces <;> simp [Text.joined]

/-- The pieces of a text between line breaks are its lines. -/
theorem lines_splitChars : ∀ cs : List Char,
    (Text.lines ((Text.splitChars '\n' cs).map String.ofList)).toList = cs
  | [] => rfl
  | c :: rest => by
    have hrest := lines_splitChars rest
    unfold Text.splitChars
    split
    · rename_i hc
      obtain rfl := eq_of_beq hc
      cases hsplit : Text.splitChars '\n' rest with
      | nil => exact absurd hsplit (splitChars_ne_nil _ _)
      | cons piece pieces =>
        rw [hsplit] at hrest
        simp only [List.map_cons, Text.lines, Text.joined] at hrest ⊢
        simpa using hrest
    · split
      · rename_i piece pieces hsplit
        rw [hsplit] at hrest
        rw [List.map_cons, Text.lines, toList_joined_cons]
        exact congrArg (c :: ·) hrest
      · rename_i hsplit
        exact absurd hsplit (splitChars_ne_nil _ _)

/-- Indenting a line changes no tag. -/
theorem componentTags_indentLine (n : Nat) (line : List Char) :
    componentTags (Text.indentLine n line) = componentTags line := by
  unfold Text.indentLine
  split
  · rfl
  · have hshut : isShut (List.replicate n ' ') = true := by
      cases n with
      | zero => rfl
      | succ n =>
        rw [List.replicate_succ', isShut, List.getLast?_append]
        rfl
    rw [componentTags_append_of_isShut hshut, componentTags_of_isPlain (by simp), List.nil_append]

/-- A text that is moved to the right has the same tags. -/
theorem componentTags_indent (n : Nat) (s : String) :
    componentTags (Text.indent n s).toList = componentTags s.toList := by
  conv_rhs => rw [← lines_splitChars s.toList]
  rw [Text.indent, componentTags_lines, componentTags_lines, List.flatMap_map, List.flatMap_map]
  simp only [String.toList_ofList, componentTags_indentLine]

/-- An indented text uses imported names just if the text does. -/
theorem renders_indent {names : List String} {n : Nat} {s : String} :
    Renders names (Text.indent n s) ↔ Renders names s := by
  rw [Renders, componentTags_indent]
  rfl

/-! ## Pieces -/

variable {names : List String}

/-- A plain text uses no names. -/
theorem renders_of_isPlain {s : String} (h : IsPlain s) : Renders names s := by
  rw [Renders, componentTags_of_isPlain h]
  simp

/-- Two texts side by side, where the first one leaves no name open. -/
theorem Renders.append_of_isShut {s t : String} (hs : Renders names s)
    (hshut : isShut s.toList = true) (ht : Renders names t) : Renders names (s ++ t) := by
  intro tag htag
  rw [String.toList_append, componentTags_append_of_isShut hshut] at htag
  exact (List.mem_append.1 htag).elim (hs tag) (ht tag)

/-- Two texts side by side, where no name goes on with the second one. -/
theorem Renders.append_of_endsName {s t : String} (hs : Renders names s)
    (hends : endsName t.toList = true) (ht : Renders names t) : Renders names (s ++ t) := by
  intro tag htag
  rw [String.toList_append, componentTags_append hends] at htag
  exact (List.mem_append.1 htag).elim (hs tag) (ht tag)

theorem isShut_append (s : String) {t : String} (hne : t.toList ≠ [])
    (h : isShut t.toList = true) : isShut (s ++ t).toList = true := by
  rw [String.toList_append, isShut, List.getLast?_append_of_ne_nil _ hne]
  exact h

/-- All tags of the characters are among the given ones. -/
def haveTags (tags : List String) (cs : List Char) : Bool :=
  (componentTags cs).all fun tag => tags.contains tag

/-- A fixed text, by its characters. -/
theorem renders_fixed {tags : List String} {s : String} {cs : List Char} (htags : tags ⊆ names)
    (hs : s = String.ofList cs) (h : haveTags tags cs = true) : Renders names s := by
  rw [Renders, hs, String.toList_ofList]
  exact fun tag htag => htags (List.contains_iff_mem.1 (List.all_eq_true.1 h tag htag))

/-- A fixed start, a plain text and a fixed end. -/
theorem renders_between {tags : List String} {start s stop : String} {a b : List Char}
    (htags : tags ⊆ names) (hstart : start = String.ofList a) (hstop : stop = String.ofList b)
    (ha : (haveTags tags a && isShut a) = true) (hb : (haveTags tags b && endsName b) = true)
    (hs : IsPlain s) : Renders names (start ++ s ++ stop) := by
  rw [Bool.and_eq_true] at ha hb
  have hshut : isShut start.toList = true := by rw [hstart, String.toList_ofList]; exact ha.2
  have hends : endsName stop.toList = true := by rw [hstop, String.toList_ofList]; exact hb.2
  exact ((renders_fixed htags hstart ha.1).append_of_isShut hshut
    (renders_of_isPlain hs)).append_of_endsName hends (renders_fixed htags hstop hb.1)

/-- A margin in front of a text. -/
theorem Renders.behind {margin s : String} {cs : List Char} (hs : Renders names s)
    (hmargin : margin = String.ofList cs) (h : (haveTags [] cs && isShut cs) = true) :
    Renders names (margin ++ s) := by
  rw [Bool.and_eq_true] at h
  have hshut : isShut margin.toList = true := by rw [hmargin, String.toList_ofList]; exact h.2
  exact (renders_fixed (List.nil_subset _) hmargin h.1).append_of_isShut hshut hs

/-! ## Several pieces -/

@[simp]
theorem renderAll_nil : RenderAll names [] := by
  simp [RenderAll]

@[simp]
theorem renderAll_cons {s : String} {ls : List String} :
    RenderAll names (s :: ls) ↔ Renders names s ∧ RenderAll names ls :=
  List.forall_mem_cons

@[simp]
theorem renderAll_append {a b : List String} :
    RenderAll names (a ++ b) ↔ RenderAll names a ∧ RenderAll names b :=
  List.forall_mem_append

theorem renderAll_of_isPlain {ls : List String} (h : ∀ l ∈ ls, IsPlain l) : RenderAll names ls :=
  fun l hl => renders_of_isPlain (h l hl)

/-- Indented texts use the names that the texts use. -/
theorem renderAll_indent (n : Nat) {ls : List String} (h : RenderAll names ls) :
    RenderAll names (ls.map (Text.indent n)) :=
  List.forall_mem_map.2 fun l hl => renders_indent.2 (h l hl)

theorem renderAll_spaced {pieces : List String} (h : RenderAll names pieces) :
    RenderAll names (Markup.spaced pieces) := by
  unfold Markup.spaced
  split
  · exact renderAll_nil
  · exact renderAll_cons.2 ⟨(renders_joined separates_breaks).2 h, renderAll_nil⟩

namespace Markup

/-! ## Attributes and places -/

theorem isPlain_braced {s : String} (h : IsPlain s) : IsPlain (braced s) :=
  isPlain_append.2 ⟨isPlain_append.2 ⟨by decide, h⟩, by decide⟩

theorem isPlain_templated {s : String} (h : IsPlain s) : IsPlain (templated s) :=
  isPlain_braced (isPlain_append.2 ⟨isPlain_append.2 ⟨by decide, h⟩, by decide⟩)

/-- An attribute of plain text is plain. -/
theorem isPlain_textAttribute {name value : String} (hname : IsPlain name)
    (hvalue : IsPlain value) : IsPlain (textAttribute name value) := by
  simp only [textAttribute, isPlain_append]
  exact ⟨⟨⟨hname, by decide⟩, isPlain_escapeAttribute hvalue⟩, by decide⟩

/-- An attribute of plain code is plain. -/
theorem isPlain_codeAttribute {name value : String} (hname : IsPlain name)
    (hvalue : IsPlain value) : IsPlain (codeAttribute name value) :=
  isPlain_append.2 ⟨isPlain_append.2 ⟨hname, by decide⟩, isPlain_braced hvalue⟩

theorem isPlain_comment {s : String} (h : IsPlain s) : IsPlain (comment s) :=
  isPlain_braced (isPlain_append.2 ⟨isPlain_append.2 ⟨by decide, h⟩, by decide⟩)

/-- The text of a place is plain. -/
def Place.IsPlain : Place → Prop
  | path names => FormSchema.IsPlain names
  | row template => FormSchema.IsPlain template

namespace Place

/-- The place of a member is plain, if the place of the object and the name are. -/
theorem isPlain_child {place : Place} {name : String} (h : place.IsPlain)
    (hname : FormSchema.IsPlain name) : (place.child name).IsPlain := by
  cases place with
  | path names => exact isPlain_append.2 ⟨isPlain_append.2 ⟨h, by decide⟩, hname⟩
  | row template =>
    exact isPlain_append.2 ⟨isPlain_append.2 ⟨h, by decide⟩, isPlain_escapeTemplate hname⟩

theorem isPlain_rows {path : String} (h : FormSchema.IsPlain path) : (rows path).IsPlain := by
  show FormSchema.IsPlain _
  simp only [isPlain_append]
  exact ⟨⟨⟨isPlain_escapeTemplate h, by decide⟩, by decide⟩, by decide⟩

theorem isPlain_entries {path : String} (h : FormSchema.IsPlain path) : (entries path).IsPlain := by
  show FormSchema.IsPlain _
  simp only [isPlain_append]
  exact ⟨⟨isPlain_escapeTemplate h, by decide⟩, by decide⟩

/-- The name of a plain place is plain. -/
theorem isPlain_nameAttribute {place : Place} (h : place.IsPlain) :
    FormSchema.IsPlain place.nameAttribute := by
  cases place with
  | path names => exact isPlain_textAttribute (by decide) h
  | row template => exact isPlain_append.2 ⟨by decide, isPlain_templated h⟩

/-- The identifier of a plain option at a plain place is plain. -/
theorem isPlain_optionId {place : Place} {option : String} (h : place.IsPlain)
    (hoption : FormSchema.IsPlain option) : FormSchema.IsPlain (place.optionId option) := by
  cases place with
  | path names =>
    have hid : FormSchema.IsPlain (names ++ "-" ++ option) :=
      isPlain_append.2 ⟨isPlain_append.2 ⟨h, by decide⟩, hoption⟩
    exact isPlain_append.2 ⟨isPlain_append.2 ⟨by decide, isPlain_escapeAttribute hid⟩, by decide⟩
  | row template =>
    exact isPlain_templated
      (isPlain_append.2 ⟨isPlain_append.2 ⟨h, by decide⟩, isPlain_escapeTemplate hoption⟩)

end Place

end Markup

end FormSchema
