import FormSchema.Control.Initial
import FormSchema.Proofs.Decimals
import FormSchema.Proofs.Escaping
import FormSchema.Proofs.Texts
import FormSchema.Proofs.TypeNames
import FormSchema.Text.Layout

/-!
# Texts without angle brackets

A plain text has no opening angle bracket. Quoting, escaping and laying out keep a text plain, and
so do labels, since no character has the bracket as its capital (`isPlain_label`). Between tags
every text becomes plain (`isPlain_escapeText`). Numbers are plain as they are, and the initial
value of a field is plain if the texts of the field are (`isPlain_initial`).
-/

namespace FormSchema

/-- No opening angle bracket is in the text. -/
def IsPlain (s : String) : Prop :=
  '<' ∉ s.toList

instance (s : String) : Decidable (IsPlain s) :=
  inferInstanceAs (Decidable ('<' ∉ s.toList))

/-! ## Pieces put together -/

theorem isPlain_ofList {cs : List Char} : IsPlain (String.ofList cs) ↔ '<' ∉ cs := by
  rw [IsPlain, String.toList_ofList]

/-- A fixed text, by its characters. -/
theorem isPlain_fixed {s : String} {cs : List Char} (hs : s = String.ofList cs) (h : '<' ∉ cs) :
    IsPlain s :=
  hs ▸ isPlain_ofList.2 h

/-- Two texts are plain together just if each one is. -/
@[simp]
theorem isPlain_append {s t : String} : IsPlain (s ++ t) ↔ IsPlain s ∧ IsPlain t := by
  simp [IsPlain]

/-- Plain pieces are joined to a plain text. -/
theorem isPlain_joined {sep : String} (hsep : IsPlain sep) : ∀ {pieces : List String},
    (∀ s ∈ pieces, IsPlain s) → IsPlain (Text.joined sep pieces)
  | [], _ => List.not_mem_nil
  | [s], h => h s List.mem_cons_self
  | s :: t :: rest, h => by
    obtain ⟨hs, hrest⟩ := List.forall_mem_cons.1 h
    exact isPlain_append.2 ⟨isPlain_append.2 ⟨hs, hsep⟩, isPlain_joined hsep hrest⟩

theorem isPlain_lines {ls : List String} (h : ∀ s ∈ ls, IsPlain s) : IsPlain (Text.lines ls) :=
  isPlain_joined (by decide) h

theorem isPlain_spaces (n : Nat) : IsPlain (Text.spaces n) := by
  rw [Text.spaces, isPlain_ofList, List.mem_replicate]
  exact fun h => absurd h.2 (by decide)

/-- The pieces hold no character that the text does not hold. -/
theorem mem_of_mem_splitChars {sep c : Char} : ∀ {cs piece : List Char},
    piece ∈ Text.splitChars sep cs → c ∈ piece → c ∈ cs
  | [], piece, hpiece, hc => by
    obtain rfl := List.mem_singleton.1 hpiece
    exact hc
  | d :: rest, piece, hpiece, hc => by
    unfold Text.splitChars at hpiece
    split at hpiece
    · rcases List.mem_cons.1 hpiece with rfl | hpiece
      · cases hc
      · exact List.mem_cons_of_mem d (mem_of_mem_splitChars hpiece hc)
    · split at hpiece
      · rename_i first others hsplit
        rcases List.mem_cons.1 hpiece with rfl | hpiece
        · rcases List.mem_cons.1 hc with rfl | hc
          · exact List.mem_cons_self
          · exact List.mem_cons_of_mem d (mem_of_mem_splitChars (hsplit ▸ List.mem_cons_self) hc)
        · exact List.mem_cons_of_mem d
            (mem_of_mem_splitChars (hsplit ▸ List.mem_cons_of_mem first hpiece) hc)
      · obtain rfl := List.mem_singleton.1 hpiece
        obtain rfl := List.mem_singleton.1 hc
        exact List.mem_cons_self

/-- The pieces of a plain text are plain. -/
theorem isPlain_splitOn {sep : Char} {s : String} (h : IsPlain s) :
    ∀ piece ∈ Text.splitOn sep s, IsPlain piece := by
  intro piece hpiece
  obtain ⟨cs, hcs, rfl⟩ := List.mem_map.1 hpiece
  exact isPlain_ofList.2 fun hmem => h (mem_of_mem_splitChars hcs hmem)

/-! ## Escaped and quoted texts -/

/-- Escaping for an attribute puts no bracket in. -/
theorem isPlain_escapeAttribute {s : String} (h : IsPlain s) :
    IsPlain (Text.escapeAttribute s) := by
  rw [Text.escapeAttribute, isPlain_ofList, List.mem_flatMap]
  rintro ⟨c, hc, hmem⟩
  unfold Text.attributeChar at hmem
  split at hmem
  · simp at hmem
  · simp at hmem
  · simp at hmem
  · obtain rfl := List.mem_singleton.1 hmem
    exact h hc

/-- Escaped text between tags is plain, whatever the text is. -/
theorem isPlain_escapeText (s : String) : IsPlain (Text.escapeText s) :=
  Text.not_mem_escapeText (by decide) s

/-- Escaping for a template puts in backslashes only. -/
theorem mem_of_mem_templateChars {x : Char} (hx : x ≠ '\\') {cs : List Char}
    (h : x ∈ Text.templateChars cs) : x ∈ cs := by
  fun_induction Text.templateChars cs with
  | case1 => exact h
  | case2 rest ih => exact List.mem_cons_of_mem _ (ih (by simpa [hx] using h))
  | case3 rest ih =>
    have h : x = '\x60' ∨ x ∈ Text.templateChars rest := by simpa [hx] using h
    exact List.mem_cons.2 (h.imp_right ih)
  | case4 rest ih =>
    have h : x = '$' ∨ x = '\x7b' ∨ x ∈ Text.templateChars rest := by simpa [hx] using h
    exact List.mem_cons.2 (h.imp_right fun h => List.mem_cons.2 (h.imp_right ih))
  | case5 c rest _ _ _ ih => exact List.mem_cons.2 ((List.mem_cons.1 h).imp_right ih)

theorem isPlain_escapeTemplate {s : String} (h : IsPlain s) : IsPlain (Text.escapeTemplate s) := by
  rw [Text.escapeTemplate, isPlain_ofList]
  exact fun hmem => h (mem_of_mem_templateChars (by decide) hmem)

theorem not_mem_hexDigits : ∀ width n : Nat, '<' ∉ Text.hexDigits width n
  | 0, _ => List.not_mem_nil
  | width + 1, n => by
    have hdigit : ∀ d < 16, Text.hexDigit d ≠ '<' := by decide
    rw [Text.hexDigits, List.mem_append, List.mem_singleton]
    rintro (hmem | hmem)
    · exact not_mem_hexDigits width (n / 16) hmem
    · exact hdigit (n % 16) (Nat.mod_lt n (by decide)) hmem.symm

/-- Quoting puts no bracket in. -/
theorem isPlain_quoted {s : String} (h : IsPlain s) : IsPlain (Text.quoted s) := by
  rw [Text.quoted, isPlain_ofList, Text.quotedChars, List.mem_cons, List.mem_append,
    List.mem_flatMap]
  rintro (hmem | ⟨c, hc, hmem⟩ | hmem)
  · cases hmem
  · unfold Text.quotedChar at hmem
    split at hmem
    · simp at hmem
    · simp at hmem
    · simp at hmem
    · simp at hmem
    · simp at hmem
    · simp at hmem
    · simp at hmem
    · split at hmem
      · obtain rfl := List.mem_singleton.1 hmem
        exact h hc
      · obtain ⟨unit, -, hunit⟩ := List.mem_flatMap.1 hmem
        simp [not_mem_hexDigits] at hunit
  · simp at hmem

/-- The key of a plain name is plain. -/
theorem isPlain_propertyKey {name : String} (h : IsPlain name) :
    IsPlain (Text.propertyKey name) := by
  unfold Text.propertyKey
  split
  · exact h
  · exact isPlain_quoted h

theorem isPlain_memberStep {name : String} (h : IsPlain name) : IsPlain (Text.memberStep name) := by
  unfold Text.memberStep
  split
  · exact isPlain_append.2 ⟨by decide, h⟩
  · exact isPlain_append.2 ⟨isPlain_append.2 ⟨by decide, isPlain_quoted h⟩, by decide⟩

/-- The access to members of plain names is plain. -/
theorem isPlain_memberAccess : ∀ {names : List String} {base : String}, IsPlain base →
    (∀ name ∈ names, IsPlain name) → IsPlain (Text.memberAccess base names)
  | [], _, hbase, _ => hbase
  | name :: rest, base, hbase, h => by
    obtain ⟨hname, hrest⟩ := List.forall_mem_cons.1 h
    have hreached : IsPlain (base ++ Text.memberStep name) :=
      isPlain_append.2 ⟨hbase, isPlain_memberStep hname⟩
    show IsPlain (Text.memberAccess (base ++ Text.memberStep name) rest)
    exact isPlain_memberAccess hreached hrest

/-! ## Labels -/

/-- The character is the capital of no other one. -/
def IsCaseless (x : Char) : Prop :=
  Unicode.isOrdinary x = false ∧ ∀ n < 128, (Char.ofNat n).toUpper = x → Char.ofNat n = x

theorem isCaseless_bracket : IsCaseless '<' := by
  constructor <;> decide

theorem isCaseless_break : IsCaseless '\n' := by
  constructor <;> decide

section Labels

variable {x : Char}

/-- A caseless character is in the capital of no other character. -/
theorem eq_of_mem_upper (hx : IsCaseless x) {c : Char} (h : x ∈ Unicode.upper c) : c = x := by
  rcases Unicode.upper_cases c with ⟨hascii, hupper⟩ | hupper | ⟨-, hordinary⟩
  · rw [hupper, List.mem_singleton] at h
    have hcode := hx.2 c.toNat hascii
    rw [Char.ofNat_toNat] at hcode
    exact hcode h.symm
  · rw [hupper, List.mem_singleton] at h
    exact h.symm
  · exact absurd (hordinary _ h) (by simp [hx.1])

/-- Inserting marks puts nothing else in. -/
theorem mem_of_mem_insertMark {test : Char → Char → Bool} {mark : Char} (hmark : x ≠ mark)
    {cs : List Char} (h : x ∈ Text.insertMark test mark cs) : x ∈ cs := by
  fun_induction Text.insertMark test mark cs with
  | case1 c d rest _ ih =>
    rcases List.mem_cons.1 h with rfl | h
    · exact List.mem_cons_self
    · rcases List.mem_cons.1 h with hsame | h
      · exact absurd hsame hmark
      · exact List.mem_cons_of_mem c (ih h)
  | case2 c d rest _ ih =>
    rcases List.mem_cons.1 h with rfl | h
    · exact List.mem_cons_self
    · exact List.mem_cons_of_mem c (ih h)
  | case3 => exact h

/-- Splitting acronyms puts in spaces only. -/
theorem mem_of_mem_splitAcronyms (hx : x ≠ ' ') {cs : List Char}
    (h : x ∈ Text.splitAcronyms cs) : x ∈ cs := by
  fun_induction Text.splitAcronyms cs with
  | case1 => exact h
  | case2 c rest hcapital run after goesOn ih =>
    have hcs : run ++ after = c :: rest := by
      simp only [run, after, List.cons_append, List.takeWhile_append_dropWhile]
    rw [← hcs, List.mem_append]
    rcases List.mem_append.1 h with h | h
    · left
      split at h
      · rcases List.mem_append.1 h with h | h
        · exact List.mem_of_mem_dropLast h
        · rcases List.mem_cons.1 h with h | h
          · exact absurd h hx
          · exact List.mem_of_mem_drop h
      · exact h
    · exact .inr (ih h)
  | case3 c rest _ ih =>
    rcases List.mem_cons.1 h with rfl | h
    · exact List.mem_cons_self
    · exact List.mem_cons_of_mem c (ih h)

/-- A capital at the front brings in no caseless character. -/
theorem mem_of_mem_capitalizeFirst (hx : IsCaseless x) {cs : List Char}
    (h : x ∈ Text.capitalizeFirst cs) : x ∈ cs := by
  unfold Text.capitalizeFirst at h
  split at h
  · exact h
  · rcases List.mem_append.1 h with h | h
    · exact eq_of_mem_upper hx h ▸ List.mem_cons_self
    · exact List.mem_cons_of_mem _ h

theorem mem_of_mem_trimBlanks {c : Char} {cs : List Char} (h : c ∈ Unicode.trimBlanks cs) :
    c ∈ cs := by
  rw [Unicode.trimBlanks, Unicode.trimBy, List.mem_reverse] at h
  have hreverse := (List.dropWhile_sublist _).subset h
  exact (List.dropWhile_sublist _).subset (List.mem_reverse.1 hreverse)

/-- A label has no characters but those of the name, their capitals and spaces. -/
theorem mem_of_mem_label (hx : IsCaseless x) (hspace : x ≠ ' ') {name : String}
    (h : x ∈ (Text.label name).toList) : x ∈ name.toList := by
  rw [Text.label, String.toList_ofList] at h
  exact mem_of_mem_insertMark hspace (mem_of_mem_splitAcronyms hspace
    (mem_of_mem_capitalizeFirst hx (mem_of_mem_trimBlanks h)))

/-- The label of an option holds no caseless character, spaces apart, that the option does not
hold. -/
theorem mem_of_mem_optionLabel (hx : IsCaseless x) (hspace : x ≠ ' ') {value : String}
    (h : x ∈ (Text.optionLabel value).toList) : x ∈ value.toList := by
  rw [Text.optionLabel, String.toList_ofList] at h
  obtain ⟨c, hc, hsame⟩ := List.mem_map.1 (mem_of_mem_capitalizeFirst hx h)
  split at hsame
  · exact absurd hsame.symm hspace
  · exact mem_of_mem_insertMark hspace (hsame ▸ hc)

end Labels

/-- The label of a plain name is plain. -/
theorem isPlain_label {name : String} (h : IsPlain name) : IsPlain (Text.label name) :=
  fun hmem => h (mem_of_mem_label isCaseless_bracket (by decide) hmem)

/-! ## Numbers -/

/-- A character that the literal of a number is made of. -/
def literalPart (c : Char) : Bool :=
  numeralPart c || c.isAlpha

theorem all_literalPart {cs : List Char} (h : cs.all numeralPart = true) :
    cs.all literalPart = true :=
  List.all_eq_true.2 fun c hc => by simp [literalPart, List.all_eq_true.1 h c hc]

/-- The literal of a number is made of the characters of literals. -/
theorem literal_all (n : Number) : n.literal.toList.all literalPart = true := by
  cases n with
  | int n => exact all_literalPart (intText_all n)
  | double x =>
    cases x with
    | finite negative rank =>
      have hsign : (if negative then ['-'] else []).all literalPart = true := by
        cases negative <;> rfl
      have hrank := all_literalPart (Double.rankText_all Number.literalLayout rank)
      simp only [Number.literal, Double.text, String.toList_ofList, List.all_append, hsign, hrank,
        Bool.and_self]
    | infinite negative => cases negative <;> decide
    | nan => decide

theorem isPlain_intText (n : Int) : IsPlain (intText n) :=
  fun hmem => absurd (List.all_eq_true.1 (intText_all n) _ hmem) (by decide)

/-- The literal of a number is plain. -/
theorem isPlain_literal (n : Number) : IsPlain n.literal :=
  fun hmem => absurd (List.all_eq_true.1 (literal_all n) _ hmem) (by decide)

/-! ## Initial values -/

/-- An object literal with plain members is plain. -/
theorem isPlain_objectLiteral (level : Int) {members : List String}
    (h : ∀ s ∈ members, IsPlain s) : IsPlain (objectLiteral level members) := by
  unfold objectLiteral
  split
  · decide
  · simp only [isPlain_append]
    exact ⟨⟨⟨⟨by decide, isPlain_lines h⟩, by decide⟩, isPlain_spaces _⟩, by decide⟩

theorem isPlain_memberLine (level : Int) {name value : String} (hname : IsPlain name)
    (hvalue : IsPlain value) : IsPlain (memberLine level name value) := by
  simp only [memberLine, isPlain_append]
  exact ⟨⟨⟨⟨isPlain_spaces _, isPlain_propertyKey hname⟩, by decide⟩, hvalue⟩, by decide⟩

mutual

/-- The initial value of a field is plain if the texts of the field are, at every depth. -/
theorem isPlain_initial (level : Int) : ∀ f : Field,
    (∀ g : Field, g.Within f → g.HasTexts IsPlain) → IsPlain (f.initial level)
  | ⟨_, _, _, _, _, constraints, content, _⟩, h =>
    isPlain_contentInitial level constraints content (h _ (.self _)).content
      (h _ (.self _)).names fun _ hd g hg => h g (.deeper hd hg)

/-- The initial value of a content is plain, if the names and the texts below it are. -/
theorem isPlain_contentInitial (level : Int) (constraints : Constraints) : ∀ content : Content,
    content.HasTexts IsPlain → (∀ d ∈ content.children, IsPlain d.name) →
      (∀ d ∈ content.children, ∀ g : Field, g.Within d → g.HasTexts IsPlain) →
        IsPlain (content.initial level constraints)
  | .string, _, _, _ => show IsPlain "\"\"" by decide
  | .boolean, _, _, _ => show IsPlain "false" by decide
  | .date, _, _, _ => show IsPlain "undefined" by decide
  | .array _, _, _, _ => show IsPlain "[]" by decide
  | .record _, _, _, _ => show IsPlain "\x7b\x7d" by decide
  | .union _ _, _, _, _ => show IsPlain "\x7b\x7d" by decide
  | .number, _, _, _ => by
    rw [Content.initial]
    split
    · exact isPlain_literal _
    · decide
  | .enum first _, htexts, _, _ => isPlain_quoted (htexts first List.mem_cons_self)
  | .object fields, _, hnames, h =>
    isPlain_objectLiteral level (isPlain_memberLines (level + 1) fields hnames h)
  | .tuple elements, _, _, h => by
    rw [Content.initial, isPlain_append, isPlain_append]
    exact ⟨⟨by decide, isPlain_joined (by decide) (isPlain_initials level elements h)⟩, by decide⟩

/-- The initial values of the members of an object are plain, if the names and the texts below
are. -/
theorem isPlain_memberLines (level : Int) : ∀ fields : List Field,
    (∀ f ∈ fields, IsPlain f.name) →
      (∀ f ∈ fields, ∀ g : Field, g.Within f → g.HasTexts IsPlain) →
        ∀ s ∈ memberLines level fields, IsPlain s
  | [], _, _ => fun _ hs => absurd hs List.not_mem_nil
  | f :: rest, hnames, h => by
    obtain ⟨hname, hnames⟩ := List.forall_mem_cons.1 hnames
    obtain ⟨hfirst, hrest⟩ := List.forall_mem_cons.1 h
    rw [memberLines]
    exact List.forall_mem_cons.2 ⟨isPlain_memberLine level hname (isPlain_initial level f hfirst),
      isPlain_memberLines level rest hnames hrest⟩

/-- The initial values of fields are plain, if the texts of the fields within them are. -/
theorem isPlain_initials (level : Int) : ∀ fields : List Field,
    (∀ f ∈ fields, ∀ g : Field, g.Within f → g.HasTexts IsPlain) →
      ∀ s ∈ initials level fields, IsPlain s
  | [], _ => fun _ hs => absurd hs List.not_mem_nil
  | f :: rest, h => by
    obtain ⟨hfirst, hrest⟩ := List.forall_mem_cons.1 h
    rw [initials]
    exact List.forall_mem_cons.2
      ⟨isPlain_initial level f hfirst, isPlain_initials level rest hrest⟩

end

/-! ## Words -/

/-- Texts of letters, digits and spaces are plain. -/
theorem holdsWords_isPlain : HoldsWords IsPlain := by
  intro s hs hmem
  exact absurd (List.all_eq_true.1 hs _ hmem) (by decide)

end FormSchema
