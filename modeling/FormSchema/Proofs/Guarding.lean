import FormSchema.Proofs.FlatFields
import FormSchema.Proofs.Misspelling
import FormSchema.Proofs.MovedLines
import FormSchema.Proofs.Resolution

/-!
# Template literals are guarded

In rows a field is bound by a template literal, whose body is put together from escaped names and
one substitution, the index of the row or the key of the entry. `substitutions?` reads a body by the
rules of the language; what is escaped adds nothing to it (`substitutions?_templateChars`), so a
step to a child leaves the substitutions of a place as they are (`Place.IsGuarded.child`). By
recursion every place that a field is bound to is made by such steps from its own (`reaches_field`),
and no name can end a literal or bring a substitution of its own (`templates_guarded`). That holds
of the literals as they stand in the markup, where a line break in a name may have spaces behind it
(`IsGuarded.moves`).
-/

namespace FormSchema

open Source (untilBrace? bracesNext)
open Text (templateChars escapeTemplate)

/-! ## Bodies of template literals -/

/-- The substitutions of a template literal with a body, in order. A backslash escapes what comes
next, and a dollar sign with a brace opens a substitution, up to the next closing brace. There are
none if a backtick ends the literal too early, or if the body ends in an escape or a
substitution. -/
def substitutions? : List Char → Option (List String)
  | [] => some []
  | ['\\'] => none
  | '\\' :: _ :: rest => substitutions? rest
  | '\x60' :: _ => none
  | '$' :: '\x7b' :: rest =>
    match _h : untilBrace? rest with
    | none => none
    | some (inner, after) => (substitutions? after).map (String.ofList inner :: ·)
  | _ :: rest => substitutions? rest
termination_by cs => cs.length
decreasing_by
  · simp only [List.length_cons]; omega
  · have := congrArg List.length (Source.eq_append_of_untilBrace? _h).1
    simp only [List.length_append, List.length_cons] at this ⊢
    omega
  · simp

theorem substitutions?_plain {c : Char} {rest : List Char} (hslash : c ≠ '\\') (htick : c ≠ '\x60')
    (hopen : c = '$' → bracesNext rest = false) :
    substitutions? (c :: rest) = substitutions? rest := by
  rw [substitutions?.eq_6]
  · exact fun h _ => hslash h
  · exact fun _ _ h _ => hslash h
  · exact htick
  · rintro more hc rfl
    cases hopen hc

/-- A text that is escaped has no substitutions, and what follows is read on its own. -/
theorem substitutions?_templateChars {rest : List Char} (hrest : bracesNext rest = false)
    (cs : List Char) : substitutions? (templateChars cs ++ rest) = substitutions? rest := by
  fun_induction templateChars cs with
  | case1 => rfl
  | case2 cs ih => rw [List.cons_append, List.cons_append, substitutions?, ih]
  | case3 cs ih => rw [List.cons_append, List.cons_append, substitutions?, ih]
  | case4 cs ih =>
    rw [List.cons_append, List.cons_append, List.cons_append, substitutions?,
      substitutions?_plain (by decide) (by decide) (fun h => absurd h (by decide)), ih]
  | case5 c cs hslash htick hopen ih =>
    have hnext := Source.bracesNext_of_not_opens hopen
    rw [List.cons_append, substitutions?_plain hslash htick
      (fun hc => Source.bracesNext_templateChars (hnext hc) hrest), ih]

/-- A body that goes on has the substitutions of both parts, unless the cut opens one. -/
theorem substitutions?_append {cs : List Char} {subs : List String}
    (h : substitutions? cs = some subs) {rest : List Char} (hrest : bracesNext rest = false) :
    substitutions? (cs ++ rest) = (substitutions? rest).map (subs ++ ·) := by
  fun_induction substitutions? cs generalizing subs with
  | case1 =>
    cases h
    simp
  | case2 => cases h
  | case3 c cs ih =>
    rw [List.cons_append, List.cons_append, substitutions?, ih h]
  | case4 => cases h
  | case5 => cases h
  | case6 cs inner after hu ih =>
    obtain ⟨others, hothers, rfl⟩ := Option.map_eq_some_iff.1 h
    obtain ⟨rfl, hnot⟩ := Source.eq_append_of_untilBrace? hu
    have hlong : untilBrace? (inner ++ '\x7d' :: after ++ rest) = some (inner, after ++ rest) := by
      rw [List.append_assoc, List.cons_append, Source.untilBrace?_append hnot]
    rw [List.cons_append, List.cons_append, substitutions?, hlong]
    dsimp only
    rw [ih hothers]
    cases substitutions? rest <;> rfl
  | case7 c cs hlast hslash htick hopen ih =>
    have hplain : c ≠ '\\' := by
      rintro rfl
      cases cs with
      | nil => exact hlast rfl rfl
      | cons d cs => exact hslash d cs rfl rfl
    have hnext := Source.bracesNext_of_not_opens hopen
    rw [List.cons_append, substitutions?_plain hplain htick
      (fun hc => (Source.bracesNext_append hrest cs).trans (hnext hc)), ih h]

namespace Markup

/-! ## Moved bodies -/

theorem substitutions?_spaces (n : Nat) (cs : List Char) :
    substitutions? (List.replicate n ' ' ++ cs) = substitutions? cs := by
  induction n with
  | zero => rfl
  | succ n ih =>
    rw [List.replicate_succ, List.cons_append,
      substitutions?_plain (by decide) (by decide) fun h => absurd h (by decide), ih]

theorem Moves.bracesNext_eq {cs ds : List Char} (h : Moves cs ds) :
    bracesNext ds = bracesNext cs := by
  cases h with
  | nil => rfl
  | char c => rw [Source.bracesNext_cons, Source.bracesNext_cons]
  | lineBreak n => rw [Source.bracesNext_cons, Source.bracesNext_cons]

/-- A body that is moved has the same substitutions, if there is no line break in them. -/
theorem Moves.substitutions? {cs ds : List Char} (h : Moves cs ds) {subs : List String}
    (hsubs : substitutions? cs = some subs) (hflat : ∀ sub ∈ subs, '\n' ∉ sub.toList) :
    substitutions? ds = some subs := by
  fun_induction FormSchema.substitutions? cs generalizing ds subs with
  | case1 =>
    cases h
    cases hsubs
    rw [FormSchema.substitutions?]
  | case2 => cases hsubs
  | case3 c cs ih =>
    cases h with
    | char _ h =>
      cases h with
      | char _ h => rw [FormSchema.substitutions?, ih h hsubs hflat]
      | lineBreak n h => rw [FormSchema.substitutions?, substitutions?_spaces, ih h hsubs hflat]
  | case4 => cases hsubs
  | case5 => cases hsubs
  | case6 cs inner after hu ih =>
    obtain ⟨others, hothers, rfl⟩ := Option.map_eq_some_iff.1 hsubs
    obtain ⟨rfl, hnot⟩ := Source.eq_append_of_untilBrace? hu
    obtain ⟨hinner, hothersFlat⟩ := List.forall_mem_cons.1 hflat
    have hsplit : Moves (('$' :: '\x7b' :: (inner ++ ['\x7d'])) ++ after) ds := by simpa using h
    obtain ⟨opened, moved, rfl, hopened, hmoved⟩ := hsplit.split
    have hsame : opened = '$' :: '\x7b' :: (inner ++ ['\x7d']) :=
      hopened.eq_of_isFlat (by simpa using hinner)
    have hlong : untilBrace? (inner ++ '\x7d' :: moved) = some (inner, moved) :=
      Source.untilBrace?_append hnot moved
    have hbody : opened ++ moved = '$' :: '\x7b' :: (inner ++ '\x7d' :: moved) := by simp [hsame]
    rw [hbody, FormSchema.substitutions?, hlong]
    dsimp only
    rw [ih hmoved hothers hothersFlat]
    rfl
  | case7 c cs hlast hslash htick hopen ih =>
    have hplain : c ≠ '\\' := by
      rintro rfl
      cases cs with
      | nil => exact hlast rfl rfl
      | cons d cs => exact hslash d cs rfl rfl
    cases h with
    | char _ h =>
      have hnext := Source.bracesNext_of_not_opens hopen
      rw [substitutions?_plain hplain htick fun hc => h.bracesNext_eq.trans (hnext hc),
        ih h hsubs hflat]
    | lineBreak n h =>
      rw [substitutions?_plain (by decide) (by decide) fun hc => absurd hc (by decide),
        substitutions?_spaces, ih h hsubs hflat]

/-! ## Places -/

/-- The body has one substitution, the index of a row or the key of an entry. -/
def IsGuarded (body : String) : Prop :=
  substitutions? body.toList = some ["i"] ∨ substitutions? body.toList = some ["key"]

theorem IsGuarded.append {body s : String} (h : IsGuarded body)
    (hnext : bracesNext s.toList = false) (hs : substitutions? s.toList = some []) :
    IsGuarded (body ++ s) := by
  have hsubs {sub : String} (h : substitutions? body.toList = some [sub]) :
      substitutions? (body ++ s).toList = some [sub] := by
    rw [String.toList_append, substitutions?_append h hnext, hs]
    rfl
  exact h.imp hsubs hsubs

/-- A body that is moved with the markup around it stays guarded. -/
theorem IsGuarded.moves {body : String} (h : IsGuarded body) {moved : List Char}
    (hmoves : Moves body.toList moved) : IsGuarded (String.ofList moved) := by
  rw [IsGuarded, String.toList_ofList]
  exact h.imp (fun hsubs => hmoves.substitutions? hsubs (by decide))
    fun hsubs => hmoves.substitutions? hsubs (by decide)

/-- A separator and a name that is escaped have no substitutions. -/
theorem substitutions?_separated {sep : Char} (hslash : sep ≠ '\\') (htick : sep ≠ '\x60')
    (hdollar : sep ≠ '$') (name : String) :
    substitutions? (sep :: (escapeTemplate name).toList) = some [] := by
  have hname : substitutions? (templateChars name.toList ++ []) = substitutions? [] :=
    substitutions?_templateChars rfl name.toList
  rw [List.append_nil] at hname
  rw [substitutions?_plain hslash htick fun h => absurd h hdollar, Text.toList_escapeTemplate,
    hname, substitutions?]

/-- The template of a place in rows is guarded. -/
def Place.IsGuarded : Place → Prop
  | path _ => True
  | row template => Markup.IsGuarded template

namespace Place

theorem IsGuarded.child {place : Place} (h : place.IsGuarded) (name : String) :
    (place.child name).IsGuarded := by
  cases place with
  | path names => trivial
  | row template =>
    show Markup.IsGuarded (template ++ "." ++ escapeTemplate name)
    rw [String.append_assoc]
    refine Markup.IsGuarded.append h ?_ ?_
    · simp [bracesNext]
    · rw [String.toList_append]
      exact substitutions?_separated (by decide) (by decide) (by decide) name

theorem isGuarded_rows (names : String) : (rows names).IsGuarded := by
  have hbody : (escapeTemplate names ++ "[$" ++ braced "i" ++ "]").toList =
      templateChars names.toList ++ ['[', '$', '\x7b', 'i', '\x7d', ']'] := by simp [braced]
  have hindex : substitutions? ['[', '$', '\x7b', 'i', '\x7d', ']'] = some ["i"] := by
    simp [substitutions?, untilBrace?]
  exact .inl (by rw [hbody, substitutions?_templateChars rfl, hindex])

theorem isGuarded_entries (names : String) : (entries names).IsGuarded := by
  have hbody : (escapeTemplate names ++ ".$" ++ braced "key").toList =
      templateChars names.toList ++ ['.', '$', '\x7b', 'k', 'e', 'y', '\x7d'] := by simp [braced]
  have hkey : substitutions? ['.', '$', '\x7b', 'k', 'e', 'y', '\x7d'] = some ["key"] := by
    simp [substitutions?, untilBrace?]
  exact .inr (by rw [hbody, substitutions?_templateChars rfl, hkey])

/-- The second place is made from the first one by steps to names, rows and entries. -/
inductive Reaches (start : Place) : Place → Prop
  | self : start.Reaches start
  | child {place : Place} (name : String) : start.Reaches place → start.Reaches (place.child name)
  | rows {names : String} : start.Reaches (.path names) → start.Reaches (rows names)
  | entries {names : String} : start.Reaches (.path names) → start.Reaches (entries names)

/-- Each step keeps places guarded. -/
theorem Reaches.isGuarded {start place : Place} (h : start.Reaches place)
    (hstart : start.IsGuarded) : place.IsGuarded := by
  induction h with
  | self => exact hstart
  | child name _ ih => exact ih.child name
  | rows => exact isGuarded_rows _
  | entries => exact isGuarded_entries _

end Place

/-! ## Bindings -/

namespace Binding

/-- The place that a binding is made for. -/
def place : Binding → Place
  | name place => place
  | option place _ => place

/-- The bodies at a guarded place are guarded, whatever the option is. -/
theorem isGuarded_template? {b : Binding} (h : b.place.IsGuarded) :
    ∀ body ∈ b.template?, IsGuarded body := by
  intro body hbody
  cases b with
  | name place =>
    cases place with
    | path names => cases hbody
    | row template =>
      cases hbody
      exact h
  | option place value =>
    cases place with
    | path names => cases hbody
    | row template =>
      cases hbody
      rw [String.append_assoc]
      refine IsGuarded.append h ?_ ?_
      · simp [bracesNext]
      · rw [String.toList_append]
        exact substitutions?_separated (by decide) (by decide) (by decide) value

/-- The body stands as a template literal in each line that makes the binding. -/
theorem line_of_template? {b : Binding} : ∀ body ∈ b.template?, ∀ line ∈ b.lines,
    ∃ before after, line = before ++ templated body ++ after := by
  intro body hbody
  cases b with
  | name place =>
    cases place with
    | path names => cases hbody
    | row template =>
      cases hbody
      refine List.forall_mem_singleton.2 ⟨"name=", "", ?_⟩
      rw [String.append_empty]
      rfl
  | option place value =>
    cases place with
    | path names => cases hbody
    | row template =>
      cases hbody
      refine List.forall_mem_cons.2 ⟨⟨"<RadioGroup.Item " ++ textAttribute "value" value ++ " id=",
        " />", rfl⟩, List.forall_mem_singleton.2 ⟨"<Label htmlFor=",
          ">" ++ Text.escapeText (Text.optionLabel value) ++ "</Label>", ?_⟩⟩
      simp only [Place.optionId, String.append_assoc]

end Binding

/-- The bindings are made for places that are reached from the given one. -/
def AllReached (start : Place) (bindings : List Binding) : Prop :=
  ∀ b ∈ bindings, start.Reaches b.place

section Reached

variable {start place : Place}

theorem reaches_control (h : start.Reaches place) (c : Config) :
    AllReached start (controlBindings place c) := by
  unfold controlBindings
  split
  · exact List.forall_mem_map.2 fun _ _ => h
  · simp [AllReached]

theorem reaches_single (h : start.Reaches place) (c : Config) :
    AllReached start (singleBindings place c) :=
  List.forall_mem_cons.2 ⟨h, reaches_control h c⟩

theorem reaches_record {path : String} (h : start.Reaches (.path path)) (c : Config) :
    AllReached start (recordBindings path c) := by
  unfold recordBindings
  split
  · exact List.forall_mem_singleton.2 h.entries
  · exact reaches_single h.entries c

mutual

/-- The bindings of a field are made for places that are reached from its own. -/
theorem reaches_field {place : Place} (h : start.Reaches place) (f : Field) (c : Config) :
    AllReached start (fieldBindings place f c) := by
  unfold fieldBindings
  split
  · exact reaches_fieldset h c
  · exact reaches_array h f c
  · exact reaches_union h c
  · simp [AllReached]
  · simp [AllReached]
  · exact reaches_single h c
termination_by (sizeOf c, 1, 0)

theorem reaches_fieldset {place : Place} (h : start.Reaches place) (c : Config) :
    AllReached start (fieldsetBindings place c) := by
  unfold fieldsetBindings
  split
  · simp [AllReached]
  · rename_i fields configs hc
    have hsize : sizeOf configs < sizeOf c := Nat.lt_trans (children_size hc) (parts_size c)
    exact reaches_children h configs fields
termination_by (sizeOf c, 0, 0)
decreasing_by exact Prod.Lex.left _ _ hsize

theorem reaches_array {path : String} (h : start.Reaches (.path path)) (f : Field) (c : Config) :
    AllReached start (arrayBindings path f c) := by
  unfold arrayBindings
  split
  · simp [AllReached]
  rename_i element elementConfig hc
  have hsize : sizeOf elementConfig < sizeOf c := Nat.lt_trans (element_size hc) (parts_size c)
  split
  · exact reaches_record h elementConfig
  split
  · exact reaches_fieldset h.rows elementConfig
  split
  · exact reaches_union h.rows elementConfig
  split
  · simp [AllReached]
  · exact reaches_single h.rows elementConfig
termination_by (sizeOf c, 0, 0)
decreasing_by all_goals exact Prod.Lex.left _ _ hsize

theorem reaches_union {place : Place} (h : start.Reaches place) (c : Config) :
    AllReached start (unionBindings place c) := by
  unfold unionBindings
  split
  · simp [AllReached]
  · rename_i key variants hc
    have hsize : sizeOf variants < sizeOf c := Nat.lt_trans (union_size hc) (parts_size c)
    exact List.forall_mem_cons.2 ⟨h.child key, reaches_variants h key variants⟩
termination_by (sizeOf c, 0, 0)
decreasing_by exact Prod.Lex.left _ _ hsize

theorem reaches_children {place : Place} (h : start.Reaches place)
    (configs : List (String × Config)) (fields : List Field) :
    AllReached start (childrenBindings place configs fields) := by
  match fields with
  | [] => simp [childrenBindings, AllReached]
  | f :: rest =>
    unfold childrenBindings
    split
    · exact reaches_children h configs rest
    · rename_i c hc
      have hsize : sizeOf c < sizeOf configs := sizeOf_lookup_config_lt hc
      exact List.forall_mem_append.2
        ⟨reaches_field (h.child f.name) f c, reaches_children h configs rest⟩
termination_by (sizeOf configs, 2, fields.length)
decreasing_by
  · exact Prod.Lex.right _ (Prod.Lex.right _ (by simp))
  · exact Prod.Lex.left _ _ hsize
  · exact Prod.Lex.right _ (Prod.Lex.right _ (by simp))

theorem reaches_variants {place : Place} (h : start.Reaches place) (discriminator : String)
    (variants : List VariantConfig) :
    AllReached start (variantsBindings place discriminator variants) := by
  match variants with
  | [] => simp [variantsBindings, AllReached]
  | ⟨tag, fields, configs⟩ :: rest =>
    rw [variantsBindings]
    exact List.forall_mem_append.2
      ⟨reaches_children h configs _, reaches_variants h discriminator rest⟩
termination_by (sizeOf variants, 2, 0)
decreasing_by
  · apply Prod.Lex.left
    simp only [List.cons.sizeOf_spec, VariantConfig.mk.sizeOf_spec]
    omega
  · apply Prod.Lex.left
    simp only [List.cons.sizeOf_spec]
    omega

end

end Reached

/-- A text that is escaped stands for itself between backticks. Whatever names the fields have, each
template literal that binds a field in rows, or an option of it, has one substitution, the index of
the row or the key of the entry, stands in the lines of the binding, and stays so when these are
moved. In the markup the lines of all bindings stand one behind the other, each of them moved; and
where the texts are flat, no other lines bind anything. -/
theorem templates_guarded :
    (∀ s : String, Source.spelled ("\x60" ++ escapeTemplate s ++ "\x60") = .ok [.string s]) ∧
      ∀ (path : String) (f : Field) (c : Config),
        (∀ b ∈ fieldBindings (.path path) f c, ∀ body ∈ b.template?, IsGuarded body ∧
            (∀ moved, Moves body.toList moved → IsGuarded (String.ofList moved)) ∧
              ∀ line ∈ b.lines, ∃ before after, line = before ++ templated body ++ after) ∧
          ∀ markup, fieldMarkup (.path path) f c = .ok markup →
            StandIn ((fieldBindings (.path path) f c).flatMap Binding.lines) markup.toList ∧
              (IsFlat path → IsFlat f.name → c.AllFlat →
                bindingLines markup = (fieldBindings (.path path) f c).flatMap Binding.lines) := by
  refine ⟨fun s => Source.spelled_of_spells (Source.spells_escapeTemplate s) trivial,
    fun path f c => ⟨fun b hb body hbody => ?_, fun markup hmarkup =>
      ⟨standIn_field hmarkup, fun hpath hname hflat => ?_⟩⟩⟩
  · have hreached : (Place.path path).Reaches b.place := reaches_field .self f c b hb
    have hguarded := Binding.isGuarded_template? (hreached.isGuarded trivial) body hbody
    exact ⟨hguarded, fun _ hmoves => hguarded.moves hmoves, Binding.line_of_template? body hbody⟩
  · have hplace : (Place.path path).IsFlat := hpath
    exact bindingLines_field hflat hplace hname hmarkup

/-- An element of a list with a name that would open a substitution and end the literal. -/
def riskyElement : Field :=
  bareField "item" (.object [bareField "$\x7b\x60" .boolean])

/-- A list of such elements. -/
def riskyField : Field :=
  bareField "list" (.array riskyElement)

/-- How the default rules render the list. -/
def riskyConfig : Config :=
  let box : Config := ⟨.checkbox, {}, Parts.none, [], ⟨"$\x7b\x60", none, true⟩⟩
  let row : Config :=
    ⟨.fieldset, {}, { Parts.none with
        childConfigs := some [("$\x7b\x60", box)]
        childFields := some [bareField "$\x7b\x60" .boolean] }, [], ⟨"item", none, true⟩⟩
  ⟨.fieldArray, {}, { Parts.none with
      elementConfig := some row
      elementField := some riskyElement }, [], ⟨"list", none, true⟩⟩

theorem resolve_riskyField : riskyField.resolve defaultRules = .ok riskyConfig := by
  cbv

theorem isFlat_riskyField {g : Field} (h : g.Within riskyField) : g.IsFlat := by
  have hall : ∀ g ∈ riskyField.preorder, g.IsFlat := by
    simp only [riskyField, riskyElement, bareField, Field.preorder_eq, Field.children,
      Content.children, List.flatMap_cons, List.flatMap_nil, List.append_nil, List.forall_mem_cons]
    exact ⟨⟨by decide, by decide, trivial⟩, ⟨by decide, by decide, trivial⟩,
      ⟨by decide, by decide, trivial⟩, by simp⟩
  exact hall g (Field.mem_preorder.2 h)

theorem covers_riskyField {g : Field} (h : g.Within riskyField) : Covers defaultRules g := by
  have hall : ∀ g ∈ riskyField.preorder, g.HasIntegerBounds := by
    simp [riskyField, riskyElement, bareField, Field.preorder_eq, Field.children,
      Content.children, Field.HasIntegerBounds]
  exact covers_defaultRules (hall g (Field.mem_preorder.2 h))

theorem allShort_riskyField : riskyField.AllShort := by
  simp [riskyField, riskyElement, bareField, Field.allShort_of_unconstrained, Field.children,
    Content.children]

/-- The name in the row is escaped, and the index is the only substitution. -/
theorem templates_guarded_risky :
    ∃ markup, fieldMarkup (.path "list") riskyField riskyConfig = .ok markup ∧
      bindingLines markup = ["name=\x7b\x60list[$\x7bi\x7d].\\$\x7b\\\x60\x60\x7d"] ∧
        IsGuarded "list[$\x7bi\x7d].\\$\x7b\\\x60" := by
  have hflat : riskyConfig.AllFlat :=
    allFlat_of_resolve (fun _ => covers_riskyField) (fun _ => isFlat_riskyField) resolve_riskyField
  obtain ⟨c, hc, hoffer⟩ := riskyField.resolve_succeeds fun _ => covers_riskyField
  obtain rfl : c = riskyConfig := Except.ok.inj (hc.symm.trans resolve_riskyField)
  have hwritten := fieldMarkup_isWritten
    (hoffer.allShow (allShort_of_resolve (fun _ => covers_riskyField) hc)) (.path "list") riskyField
  obtain ⟨markup, hmarkup⟩ := hwritten.succeeds allShort_riskyField
  have hbindings : fieldBindings (.path "list") riskyField riskyConfig =
      [.name ((Place.rows "list").child "$\x7b\x60")] := by
    simp [fieldBindings, arrayBindings_eq, fieldsetBindings_eq, childrenBindings_cons,
      childrenBindings, singleBindings, controlBindings, riskyConfig, riskyField, riskyElement,
      bareField, Parts.element?, Parts.children?, Parts.none, Field.type, Content.type]
  obtain ⟨hguarded, hlines⟩ := templates_guarded.2 "list" riskyField riskyConfig
  rw [hbindings] at hguarded hlines
  exact ⟨markup, hmarkup, (hlines markup hmarkup).2 (by decide) (by decide) hflat,
    (hguarded _ (List.mem_singleton_self _) _ rfl).1⟩

end Markup

end FormSchema
