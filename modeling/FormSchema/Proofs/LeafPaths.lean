import FormSchema.Proofs.FlatFields
import FormSchema.Proofs.Resolution

/-!
# Every leaf is bound at its path

A field made of objects, tuples and fields that hold one value is a tree of names. The markup of
such a field, by the default rules, has one line `name="…"` for each leaf, in pre-order, with the
names on the way to the leaf (`nameLines_markup`). The children of a field are found by their names,
so these have to be different.

The path of a leaf grows by one name with each step down, and so does the place of the field that is
rendered there. The step is that of one field and the ones right below it, whatever is read of the
bindings (`reads_of_children`).
-/

namespace FormSchema

open Text (joined)

/-! ## Leaves -/

mutual

/-- The names on the way to each leaf of a field, in pre-order, with its own. -/
def Field.leafPaths : Field → List (List String)
  | ⟨name, _, _, _, _, _, content, _⟩ => content.leafPaths.map (name :: ·)

/-- The names on the way to each leaf, below the field with the content. The elements of arrays, the
values of records and the fields of variants are no leaves, since they are not there on their
own. -/
def Content.leafPaths : Content → List (List String)
  | .object fields => leafPathsAll fields
  | .tuple elements => leafPathsAll elements
  | .array _ | .record _ | .union _ _ => []
  | .string | .number | .boolean | .date | .enum _ _ => [[]]

def leafPathsAll : List Field → List (List String)
  | [] => []
  | f :: rest => f.leafPaths ++ leafPathsAll rest

end

/-- The paths of a field begin with its name. -/
theorem Field.leafPaths_eq (f : Field) :
    f.leafPaths = f.content.leafPaths.map (f.name :: ·) := by
  obtain ⟨_, _, _, _, _, _, _, _⟩ := f
  rw [Field.leafPaths]

theorem leafPathsAll_eq (fields : List Field) :
    leafPathsAll fields = fields.flatMap Field.leafPaths := by
  induction fields with
  | nil => rw [leafPathsAll, List.flatMap_nil]
  | cons f rest ih => rw [leafPathsAll, List.flatMap_cons, ih]

/-- The path that names lead to from a path. -/
def pathBelow (path : String) (names : List String) : String :=
  names.foldl (fun reached name => reached ++ "." ++ name) path

/-- A path below another one is a path below the longer one. -/
theorem append_pathBelow (s path : String) (names : List String) :
    s ++ pathBelow path names = pathBelow (s ++ path) names := by
  induction names generalizing path with
  | nil => rfl
  | cons name rest ih =>
    show s ++ pathBelow (path ++ "." ++ name) rest = pathBelow (s ++ path ++ "." ++ name) rest
    rw [ih]
    simp only [String.append_assoc]

/-- Names are joined from the first one on. -/
theorem joined_cons (name : String) (names : List String) :
    joined "." (name :: names) = pathBelow name names := by
  induction names generalizing name with
  | nil => rfl
  | cons next rest ih =>
    show name ++ "." ++ joined "." (next :: rest) = pathBelow (name ++ "." ++ next) rest
    rw [ih, append_pathBelow]

/-! ## Trees of names -/

/-- A field in a tree of names: an object, a tuple, or a field that holds one value, with its label
read off its name, integer bounds, different names right below it, and no line breaks in its name
and its values. -/
structure Field.IsOrdinary (f : Field) : Prop where
  kind : f.type ≠ .array ∧ f.type ≠ .record ∧ f.type ≠ .union
  label : f.label = Text.label f.name
  bounds : f.HasIntegerBounds
  distinct : f.content.HasDistinctNames
  name : FormSchema.IsFlat f.name
  values : f.content.HasTexts FormSchema.IsFlat

theorem Field.IsOrdinary.isFlat {f : Field} (h : f.IsOrdinary) : f.IsFlat where
  name := h.name
  label := h.label ▸ isFlat_label h.name
  content := h.values

/-! ## Places that are bound -/

namespace Markup

/-- The place that a field is bound to. -/
def Binding.bound? : Binding → Option Place
  | name place => some place
  | option _ _ => none

/-- The places that fields are bound to, in order. -/
def placesBound (bindings : List Binding) : List Place :=
  bindings.filterMap Binding.bound?

theorem placesBound_single (place : Place) (c : Config) :
    placesBound (singleBindings place c) = [place] := by
  have hcontrol : placesBound (controlBindings place c) = [] := by
    unfold controlBindings
    split
    · rw [placesBound, List.filterMap_eq_nil_iff]
      exact List.forall_mem_map.2 fun _ _ => rfl
    · rfl
  show place :: placesBound (controlBindings place c) = [place]
  rw [hcontrol]

/-- A control that is not composite binds its place. -/
theorem fieldBindings_of_single {c : Config} (h : c.component.isComposite = false) (place : Place)
    (f : Field) : fieldBindings place f c = singleBindings place c := by
  unfold fieldBindings
  cases hcomponent : c.component with
  | fieldset | fieldArray | unionSwitch =>
    rw [hcomponent] at h
    cases h
  | _ => rfl

/-- A fieldset binds what its children bind. -/
theorem fieldBindings_of_fieldset {c : Config} (h : c.component = .fieldset)
    {fields : List Field} {configs : List (String × Config)}
    (hc : c.parts.children? = some (fields, configs)) (place : Place) (f : Field) :
    fieldBindings place f c = childrenBindings place configs fields := by
  unfold fieldBindings
  rw [h]
  dsimp only
  rw [fieldsetBindings_eq, hc]

/-- If each field has a configuration with its name, every field is rendered below the place, and
what is read of the bindings is read of those of each field. -/
theorem filterMap_childrenBindings {β : Type} {read : Binding → Option β} {place : Place}
    {configs : List (String × Config)} {below : Field → List β} : ∀ {fields : List Field},
    (∀ f ∈ fields, ∃ c, configs.lookup f.name = some c ∧
      (fieldBindings (place.child f.name) f c).filterMap read = below f) →
        (childrenBindings place configs fields).filterMap read = fields.flatMap below
  | [], _ => by
    rw [childrenBindings]
    rfl
  | f :: rest, h => by
    obtain ⟨⟨c, hlookup, hbelow⟩, hrest⟩ := List.forall_mem_cons.1 h
    rw [childrenBindings_cons, hlookup, List.filterMap_append, hbelow,
      filterMap_childrenBindings hrest, List.flatMap_cons]

end Markup

/-! ## Configurations of children -/

/-- The configuration of each field is found under its name. -/
theorem lookup_resolveAll {rules : List Rule} {fields : List Field}
    {configs : List (String × Config)} (hnames : (fields.map Field.name).Nodup)
    (h : resolveAll rules fields = .ok configs) :
    ∀ f ∈ fields, ∃ c, configs.lookup f.name = some c ∧ f.resolve rules = .ok c := by
  intro f hf
  obtain ⟨c, hc, hmem⟩ := mem_resolveAll h f hf
  exact ⟨c, lookup_of_mem (keys_resolveAll h ▸ hnames) hmem, hc⟩

/-- The configuration of an object or a tuple has its fields, and the configuration of each of them
under its name. -/
theorem children_of_resolve {rules : List Rule} {f : Field} {c : Config}
    (hcovers : ∀ g : Field, g.Within f → Covers rules g) (hc : f.resolve rules = .ok c)
    (hkind : f.type = .object ∨ f.type = .tuple) (hnames : f.content.HasDistinctNames) :
    ∃ configs, c.parts.children? = some (f.children, configs) ∧
      ∀ g ∈ f.children, ∃ d, configs.lookup g.name = some d ∧ g.resolve rules = .ok d := by
  obtain ⟨_, _, own, hf⟩ := Field.resolvesTo hcovers hc
  have hbrings := hf.brings
  have hfields {fields : List Field} (hnames : (fields.map Field.name).Nodup)
      (h : (resolveAll rules fields).map (OwnParts.children fields) = .ok own) :
      ∃ configs, c.parts.children? = some (fields, configs) ∧
        ∀ g ∈ fields, ∃ d, configs.lookup g.name = some d ∧ g.resolve rules = .ok d := by
    obtain ⟨configs, hconfigs, rfl⟩ := map_eq_ok.1 h
    rw [hf.parts, OwnParts.children, configsByName_resolveAll hnames hconfigs]
    exact ⟨configs, rfl, lookup_resolveAll hnames hconfigs⟩
  rw [Field.children]
  rw [Field.type] at hkind
  cases hcontent : f.content with
  | object fields =>
    rw [hcontent] at hnames hbrings
    exact hfields hnames hbrings
  | tuple elements =>
    rw [hcontent] at hnames hbrings
    exact hfields hnames hbrings
  | _ =>
    rw [hcontent] at hkind
    rcases hkind with h | h <;> cases h

/-! ## Bindings in order -/

namespace Markup

section Reads

variable {β : Type} {read : Binding → Option β} {below : String → Content → List β}

/-- By the default rules, what is read of the bindings of a field at a path is told by its content.
-/
def Reads (read : Binding → Option β) (below : String → Content → List β) (f : Field) : Prop :=
  ∀ c, f.resolve defaultRules = .ok c → ∀ path,
    (fieldBindings (.path path) f c).filterMap read = below path f.content

/-- What is told by the content of an object or a tuple is told by those of its fields, each a step
further down. -/
def Descends (below : String → Content → List β) : Prop :=
  ∀ (path : String) (content : Content), content.type = .object ∨ content.type = .tuple →
    below path content = content.children.flatMap fun g => below (path ++ "." ++ g.name) g.content

/-- What is read of a field that holds one value is told by its content. -/
def ReadsSingle (read : Binding → Option β) (below : String → Content → List β) : Prop :=
  ∀ (f : Field) (c : Config), f.type.isComposite = false →
    (∀ g : Field, g.Within f → Covers defaultRules g) → f.resolve defaultRules = .ok c →
      ∀ path, (singleBindings (.path path) c).filterMap read = below path f.content

/-- What is read of an object or a tuple is told by its content, if this holds of its children. -/
theorem reads_of_fieldset {f : Field} (hordinary : ∀ g : Field, g.Within f → g.IsOrdinary)
    (hkind : f.type = .object ∨ f.type = .tuple) (hbelow : Descends below)
    (ih : ∀ g ∈ f.children, Reads read below g) : Reads read below f := by
  intro c hc path
  have hcovers : ∀ g : Field, g.Within f → Covers defaultRules g := fun g hg =>
    covers_defaultRules (hordinary g hg).bounds
  have hfieldset := (Field.component_of_resolve hcovers hc).2.1 hkind
  obtain ⟨configs, hchildren, hlookup⟩ :=
    children_of_resolve hcovers hc hkind (hordinary f (.self f)).distinct
  have hfields : ∀ g ∈ f.children, ∃ d, configs.lookup g.name = some d ∧
      (fieldBindings ((Place.path path).child g.name) g d).filterMap read =
        below (path ++ "." ++ g.name) g.content := by
    intro g hg
    obtain ⟨d, hd, hresolve⟩ := hlookup g hg
    exact ⟨d, hd, ih g hg d hresolve (path ++ "." ++ g.name)⟩
  rw [fieldBindings_of_fieldset hfieldset hchildren, filterMap_childrenBindings hfields,
    hbelow path f.content hkind]
  rfl

/-- What is read of a leaf is told by its content. -/
theorem reads_of_single {f : Field} (hcovers : Covers defaultRules f)
    (hkind : f.type.isComposite = false) (hchildren : f.children = [])
    (hsingle : ReadsSingle read below) : Reads read below f := by
  intro c hc path
  have hall : ∀ g : Field, g.Within f → Covers defaultRules g := by
    intro g hg
    cases hg with
    | self => exact hcovers
    | deeper hmem _ => exact absurd hmem (by simp [hchildren])
  have hsuits := Field.component_of_resolve hall hc
  rw [fieldBindings_of_single (hsuits.1.trans hkind), hsingle f c hkind hall hc path]

/-- What is read is told of a field if it is told of the fields right below it. -/
theorem reads_of_children {f : Field} (hordinary : ∀ g : Field, g.Within f → g.IsOrdinary)
    (hbelow : Descends below) (hsingle : ReadsSingle read below)
    (ih : ∀ g ∈ f.children, Reads read below g) : Reads read below f := by
  have hself := hordinary f (.self f)
  have hcovers := covers_defaultRules hself.bounds
  obtain ⟨harray, hrecord, hunion⟩ := hself.kind
  obtain ⟨_, _, _, _, _, _, content, _⟩ := f
  cases content with
  | object fields => exact reads_of_fieldset hordinary (.inl rfl) hbelow ih
  | tuple elements => exact reads_of_fieldset hordinary (.inr rfl) hbelow ih
  | array => exact absurd rfl harray
  | record => exact absurd rfl hrecord
  | union => exact absurd rfl hunion
  | _ => exact reads_of_single hcovers rfl rfl hsingle

/-- What is read of an ordinary field is told by its content. -/
theorem reads {f : Field} (hordinary : ∀ g : Field, g.Within f → g.IsOrdinary)
    (hbelow : Descends below) (hsingle : ReadsSingle read below) : Reads read below f := by
  have hall : ∀ g : Field, g.Within f → ∀ e : Field, e.Within g → e.IsOrdinary :=
    fun g hg e he => hordinary e (he.trans hg)
  exact Field.of_within f hall fun g hg ih => reads_of_children hg hbelow hsingle ih

end Reads

/-! ## Leaves in order -/

/-- By the default rules a field at a path binds its leaves at the paths that their names lead to,
in pre-order. -/
def BindsLeaves (f : Field) : Prop :=
  ∀ c, f.resolve defaultRules = .ok c → ∀ path,
    placesBound (fieldBindings (.path path) f c) =
      f.content.leafPaths.map fun names => .path (pathBelow path names)

/-- An ordinary field binds its leaves, in order. -/
theorem bindsLeaves {f : Field} (hordinary : ∀ g : Field, g.Within f → g.IsOrdinary) :
    BindsLeaves f := by
  show Reads Binding.bound? (fun path content =>
    content.leafPaths.map fun names => .path (pathBelow path names)) f
  refine reads hordinary ?_ ?_
  · intro path content hkind
    have hleaves (fields : List Field) :
        (fields.flatMap Field.leafPaths).map (fun names => Place.path (pathBelow path names)) =
          fields.flatMap fun g => g.content.leafPaths.map fun names =>
            Place.path (pathBelow (path ++ "." ++ g.name) names) := by
      simp only [List.map_flatMap, Field.leafPaths_eq, List.map_map]
      rfl
    dsimp only
    cases content with
    | object fields =>
      rw [Content.leafPaths, leafPathsAll_eq]
      exact hleaves fields
    | tuple elements =>
      rw [Content.leafPaths, leafPathsAll_eq]
      exact hleaves elements
    | _ => rcases hkind with h | h <;> cases h
  · intro f c hkind _ _ path
    have hleaf : f.content.leafPaths = [[]] := by
      rw [Field.type] at hkind
      cases hcontent : f.content with
      | object | tuple | array | record | union =>
        rw [hcontent] at hkind
        cases hkind
      | _ => rw [Content.leafPaths]
    dsimp only
    rw [hleaf]
    exact placesBound_single (.path path) c

/-! ## Lines with names -/

/-- Whether a line binds a field. -/
def isNameLine (line : String) : Bool :=
  "name=".toList.isPrefixOf line.toList

/-- The lines that bind fields are among the lines that bind something. -/
theorem filter_isNameLine (markup : String) :
    (strippedLines markup).filter isNameLine = (bindingLines markup).filter isNameLine := by
  rw [bindingLines, List.filter_filter]
  refine List.filter_congr fun line _ => ?_
  cases hname : isNameLine line with
  | false => rfl
  | true =>
    have hopens : opensBinding line.toList = true :=
      List.any_eq_true.2 ⟨_, List.mem_cons_self, hname⟩
    rw [hopens]
    rfl

theorem isNameLine_nameAttribute (place : Place) : isNameLine place.nameAttribute = true := by
  cases place <;> simp [isNameLine, Place.nameAttribute, textAttribute]

/-- The lines of names among those of bindings are those of the bound places. -/
theorem filter_lines (bindings : List Binding) :
    (bindings.flatMap Binding.lines).filter isNameLine =
      (placesBound bindings).map Place.nameAttribute := by
  induction bindings with
  | nil => rfl
  | cons b rest ih =>
    rw [List.flatMap_cons, List.filter_append, ih]
    cases b with
    | name place =>
      have hline : (Binding.name place).lines.filter isNameLine = [place.nameAttribute] := by
        rw [Binding.lines, List.filter_singleton, isNameLine_nameAttribute]
        rfl
      rw [hline]
      rfl
    | option place value =>
      have hlines : (Binding.option place value).lines.filter isNameLine = [] := by
        simp [Binding.lines, isNameLine]
      rw [hlines]
      rfl

/-- A field in a tree of names is rendered by the default rules, unless one of its constraints is too
long to be written, with one line for each leaf, in pre-order, which binds the leaf at the names on
the way to it. -/
theorem nameLines_markup {f : Field} (h : ∀ g : Field, g.Within f → g.IsOrdinary) :
    ∃ c, f.resolve defaultRules = .ok c ∧
      ((∃ markup, fieldMarkup (.path f.name) f c = .ok markup) ∨
        fieldMarkup (.path f.name) f c = .error .longInteger ∧ ¬f.AllShort) ∧
      ∀ markup, fieldMarkup (.path f.name) f c = .ok markup →
        (strippedLines markup).filter isNameLine =
          f.leafPaths.map fun names => textAttribute "name" (joined "." names) := by
  have hcovers : ∀ g : Field, g.Within f → Covers defaultRules g := fun g hg =>
    covers_defaultRules (h g hg).bounds
  obtain ⟨c, hc, hoffer⟩ := f.resolve_succeeds hcovers
  have hwritten := fieldMarkup_isWritten (hoffer.allShow (allShort_of_resolve hcovers hc))
    (.path f.name) f
  have hflat := allFlat_of_resolve hcovers (fun g hg => (h g hg).isFlat) hc
  have hname : FormSchema.IsFlat f.name := (h f (.self f)).name
  have hplace : (Place.path f.name).IsFlat := hname
  refine ⟨c, hc, hwritten, fun markup hmarkup => ?_⟩
  rw [filter_isNameLine, bindingLines_field hflat hplace hname hmarkup, filter_lines,
    bindsLeaves h c hc f.name, Field.leafPaths_eq, List.map_map, List.map_map]
  refine List.map_congr_left fun names _ => ?_
  rw [Function.comp_apply, Function.comp_apply, joined_cons]
  rfl

/-- A field with nothing but a name and a content, and the label of the name. -/
def titledField (name : String) (content : Content) : Field :=
  ⟨name, Text.label name, none, false, false, {}, content, none⟩

theorem isOrdinary_titledField {name : String} {content : Content}
    (hkind : content.type ≠ .array ∧ content.type ≠ .record ∧ content.type ≠ .union)
    (hdistinct : content.HasDistinctNames) (hname : FormSchema.IsFlat name)
    (hvalues : content.HasTexts FormSchema.IsFlat) : (titledField name content).IsOrdinary where
  kind := hkind
  label := rfl
  bounds := by simp [titledField, Field.HasIntegerBounds]
  distinct := hdistinct
  name := hname
  values := hvalues

/-- A user with a home, which is at a position. -/
def userField : Field :=
  titledField "user" (.object [titledField "plan" (.enum "a" ["b"]),
    titledField "home" (.object [titledField "street" .string,
      titledField "position" (.tuple [titledField "0" .number, titledField "1" .number])])])

theorem isOrdinary_userField {g : Field} (h : g.Within userField) : g.IsOrdinary := by
  have htree (name : String) (content : Content) : (titledField name content).preorder =
      titledField name content :: content.children.flatMap Field.preorder :=
    Field.preorder_eq _
  have hall : ∀ g ∈ userField.preorder, g.IsOrdinary := by
    simp only [userField, htree, Content.children, List.flatMap_cons, List.flatMap_nil,
      List.append_nil, List.cons_append, List.nil_append, List.forall_mem_cons]
    refine ⟨?_, ?_, ?_, ?_, ?_, ?_, ?_, by simp⟩
    · exact isOrdinary_titledField (by decide) (by simp [Content.HasDistinctNames, titledField])
        (by decide) trivial
    · exact isOrdinary_titledField (by decide) trivial (by decide)
        (by simp only [Content.HasTexts]; decide)
    · exact isOrdinary_titledField (by decide) (by simp [Content.HasDistinctNames, titledField])
        (by decide) trivial
    · exact isOrdinary_titledField (by decide) trivial (by decide) trivial
    · exact isOrdinary_titledField (by decide) (by simp [Content.HasDistinctNames, titledField])
        (by decide) trivial
    · exact isOrdinary_titledField (by decide) trivial (by decide) trivial
    · exact isOrdinary_titledField (by decide) trivial (by decide) trivial
  exact hall g (Field.mem_preorder.2 h)

theorem allShort_userField : userField.AllShort := by
  simp [userField, titledField, Field.allShort_of_unconstrained, Field.children, Content.children]

/-- The four leaves of a user. -/
theorem nameLines_markup_user :
    ∃ c markup, userField.resolve defaultRules = .ok c ∧
      fieldMarkup (.path "user") userField c = .ok markup ∧
        (strippedLines markup).filter isNameLine =
          ["name=\"user.plan\"", "name=\"user.home.street\"", "name=\"user.home.position.0\"",
            "name=\"user.home.position.1\""] := by
  obtain ⟨c, hc, hwritten, hlines⟩ := nameLines_markup fun _ => isOrdinary_userField
  obtain ⟨markup, hmarkup⟩ := hwritten.resolve_right fun hlong => hlong.2 allShort_userField
  refine ⟨c, markup, hc, hmarkup, (hlines markup hmarkup).trans ?_⟩
  simp [userField, titledField, Field.leafPaths, Content.leafPaths, leafPathsAll, joined,
    textAttribute, Text.escapeAttribute, Text.attributeChar]

theorem isOrdinary_fieldFrom (k : Int) : (fieldFrom k).IsOrdinary where
  kind := ⟨nofun, nofun, nofun⟩
  label := by cbv
  bounds := hasIntegerBounds_fieldFrom k
  distinct := trivial
  name := show FormSchema.IsFlat "a" by decide
  values := trivial

/-- A number field with a long lower bound has no markup. -/
theorem fieldMarkup_fieldFrom {k : Int} (hlong : ¬(Number.int k).isShort = true) (path : String) :
    fieldMarkup (.path path) (fieldFrom k) (configFrom k) = .error .longInteger := by
  have hcontrol (place : Place) :
      controlMarkup (fieldFrom k).name (configFrom k) place = .error .longInteger :=
    writing_eq_error.2 ⟨fun hall => hlong (hall _ (List.mem_singleton_self _)), rfl⟩
  have hsingle : fieldMarkup (.path path) (fieldFrom k) (configFrom k) =
      singleMarkup (.path path) (fieldFrom k) (configFrom k) := by
    simp [fieldMarkup, configFrom]
  rw [hsingle, singleMarkup, hcontrol]
  rfl

/-- The number with a lower bound that is too long is one leaf, but there is no markup of it. -/
theorem not_fieldMarkup_longBound :
    (∀ g : Field, g.Within (fieldFrom leastLong) → g.IsOrdinary) ∧
      ∃ c, (fieldFrom leastLong).resolve defaultRules = .ok c ∧
        fieldMarkup (.path "a") (fieldFrom leastLong) c = .error .longInteger := by
  refine ⟨fun g hg => ?_, _, resolve_fieldFrom leastLong, ?_⟩
  · cases hg with
    | self => exact isOrdinary_fieldFrom leastLong
    | deeper hc => exact absurd hc List.not_mem_nil
  · exact fieldMarkup_fieldFrom leastLong_not_isShort "a"

end Markup

end FormSchema
