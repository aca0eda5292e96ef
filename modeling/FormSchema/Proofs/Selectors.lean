import FormSchema.Proofs.LeafPaths

/-!
# What a union switch selects by

The parts of a union are shown by the value of its discriminator, which the markup reads out of the
state of the form. The way there is one text, the names joined by dots, which is cut again for the
expression. So a name in which there is a dot is cut too, and the expression goes through its pieces
instead. It is the one through the names if and only if there is no dot in any of them
(`memberAccess_pieces_iff`), for a union below any chain of objects (`switch_selects`).
-/

namespace FormSchema

open Text (joined splitOn memberAccess memberStep)

/-! ## Names and their pieces -/

/-- The pieces of names between their dots. -/
def piecesOf (names : List String) : List String :=
  names.flatMap (splitOn '.')

theorem splitOn_of_not_mem {sep : Char} {s : String} (h : sep ∉ s.toList) :
    splitOn sep s = [s] := by
  rw [splitOn, Text.splitChars_of_not_mem h, List.map_singleton, String.ofList_toList]

/-- Joined names are cut into the pieces of each. -/
theorem splitOn_pathBelow (path : String) (names : List String) :
    splitOn '.' (pathBelow path names) = piecesOf (path :: names) := by
  induction names generalizing path with
  | nil => simp [piecesOf, pathBelow]
  | cons name rest ih =>
    have hlist : (path ++ "." ++ name).toList = path.toList ++ '.' :: name.toList := by simp
    have hcut : splitOn '.' (path ++ "." ++ name) = splitOn '.' path ++ splitOn '.' name := by
      rw [splitOn, hlist, Text.splitChars_append, List.map_append]
      rfl
    show splitOn '.' (pathBelow (path ++ "." ++ name) rest) = _
    rw [ih]
    simp only [piecesOf, List.flatMap_cons, hcut, List.append_assoc]

theorem memberAccess_cons (base name : String) (names : List String) :
    memberAccess base (name :: names) = memberAccess (base ++ memberStep name) names := rfl

theorem toList_memberAccess (base : String) (names : List String) :
    (memberAccess base names).toList =
      base.toList ++ names.flatMap fun name => (memberStep name).toList := by
  induction names generalizing base with
  | nil => simp [memberAccess]
  | cons name rest ih =>
    rw [memberAccess_cons, ih, String.toList_append, List.append_assoc, List.flatMap_cons]

/-- A name with a dot in it goes on behind the first piece. -/
theorem splitChars_of_mem {sep : Char} : ∀ {cs : List Char}, sep ∈ cs →
    ∃ piece pieces more, Text.splitChars sep cs = piece :: pieces ∧ cs = piece ++ sep :: more
  | [], h => absurd h List.not_mem_nil
  | c :: rest, h => by
    unfold Text.splitChars
    by_cases hc : c = sep
    · subst hc
      exact ⟨[], Text.splitChars c rest, rest, by simp, rfl⟩
    · have hrest : sep ∈ rest := (List.mem_cons.1 h).resolve_left (Ne.symm hc)
      obtain ⟨piece, pieces, more, hsplit, rfl⟩ := splitChars_of_mem hrest
      refine ⟨c :: piece, pieces, more, ?_, rfl⟩
      rw [if_neg (by simpa using hc), hsplit]

theorem not_isIdentifier_of_mem_dot {cs : List Char} (h : '.' ∈ cs) :
    Text.isIdentifier cs = false := by
  cases cs with
  | nil => rfl
  | cons c rest =>
    rw [Text.isIdentifier, Bool.and_eq_false_iff]
    rcases List.mem_cons.1 h with rfl | h
    · exact .inl (by decide)
    · exact .inr (List.all_eq_false.2 ⟨'.', h, by decide⟩)

/-- A name with a dot in it is reached by brackets, in which it goes on where its first piece is at
its end. -/
theorem memberStep_ne {name : String} {piece more : List Char}
    (hname : name.toList = piece ++ '.' :: more) (a b : List Char) :
    (memberStep (String.ofList piece)).toList ++ a ≠ (memberStep name).toList ++ b := by
  have hdot : Text.isIdentifier name.toList = false :=
    not_isIdentifier_of_mem_dot (by rw [hname]; simp)
  have hcharacter : Text.quotedChar '.' = ['.'] := by decide
  have hlong : (memberStep name).toList ++ b =
      '[' :: '"' :: (piece.flatMap Text.quotedChar ++
        '.' :: (more.flatMap Text.quotedChar ++ '"' :: ']' :: b)) := by
    rw [memberStep, hdot]
    simp [hname, Text.quoted, Text.quotedChars, hcharacter]
  rw [hlong]
  unfold memberStep
  split
  · simp
  · -- Behind what is written for the piece the one has the closing quote, the other the dot.
    intro hsame
    simp [Text.quoted, Text.quotedChars] at hsame

/-- The way through the pieces of names is the way through the names if no name has a dot in it, and
only then. -/
theorem memberAccess_pieces_iff (names : List String) (base last : String) :
    memberAccess base (piecesOf names ++ [last]) = memberAccess base (names ++ [last]) ↔
      ∀ name ∈ names, '.' ∉ name.toList := by
  induction names generalizing base with
  | nil => simp [piecesOf]
  | cons name rest ih =>
    have hpieces : piecesOf (name :: rest) = splitOn '.' name ++ piecesOf rest := rfl
    rw [hpieces, List.forall_mem_cons]
    by_cases hdot : '.' ∈ name.toList
    · refine iff_of_false (fun hsame => ?_) fun h => h.1 hdot
      obtain ⟨piece, pieces, more, hsplit, hname⟩ := splitChars_of_mem hdot
      have hchars := congrArg String.toList hsame
      rw [splitOn, hsplit] at hchars
      simp only [toList_memberAccess, List.map_cons, List.cons_append, List.flatMap_cons] at hchars
      exact memberStep_ne hname _ _ (List.append_cancel_left hchars)
    · rw [splitOn_of_not_mem hdot, List.singleton_append, List.cons_append, List.cons_append,
        memberAccess_cons, memberAccess_cons, ih, and_iff_right hdot]

/-! ## Chains of objects -/

/-- The names lead from the first field to the second one, through objects whose fields have
different names. -/
inductive Field.Leads : Field → List String → Field → Prop
  | here (f : Field) : f.Leads [] f
  | deeper {f g u : Field} {fields : List Field} {names : List String} :
    f.content = .object fields → (fields.map Field.name).Nodup → g ∈ fields → g.Leads names u →
      f.Leads (g.name :: names) u

theorem resolve_object {f : Field} {fields : List Field} (hf : f.content = .object fields) :
    f.resolve defaultRules = (resolveAll defaultRules fields).map fun configs =>
      ⟨.fieldset, {}, (OwnParts.children fields configs).into Parts.none, [], f.frame⟩ := by
  have hrule : (kindRule "object-fieldset" .object .fieldset).IsFirstFor defaultRules f := by
    obtain ⟨_, _, _, _, _, _, _, _⟩ := f
    obtain rfl := hf
    exact ⟨[], _, rfl, by simp, rfl⟩
  rw [Field.resolve_of_isFirstFor hrule rfl isIn_nil.isReadFrom, hf, Content.resolveParts]
  cases resolveAll defaultRules fields <;> rfl

theorem resolve_union {f : Field} {discriminator : Option String} {variants : List Variant}
    (hf : f.content = .union discriminator variants) :
    f.resolve defaultRules = (resolveVariants defaultRules variants).map fun configs =>
      ⟨.unionSwitch, {}, (OwnParts.union discriminator configs).into Parts.none, [], f.frame⟩ := by
  have hrule : (kindRule "union-switch" .union .unionSwitch).IsFirstFor defaultRules f := by
    obtain ⟨_, _, _, _, _, _, _, _⟩ := f
    obtain rfl := hf
    refine ⟨defaultRules.take 2, _, rfl, ?_, rfl⟩
    simp only [defaultRules, List.take_succ_cons, List.take_zero, List.forall_mem_cons,
      List.not_mem_nil, false_implies, implies_true, and_true]
    exact ⟨rfl, rfl⟩
  rw [Field.resolve_of_isFirstFor hrule rfl isIn_nil.isReadFrom, hf, Content.resolveParts]
  cases resolveVariants defaultRules variants <;> rfl

namespace Markup

/-! ## Markup in cards -/

/-- The second text is the first one, or a card in which it stands, at any depth. -/
inductive Shows (inner : String) : String → Prop
  | self : Shows inner inner
  | card {title piece : String} {pieces : List String} : piece ∈ pieces → Shows inner piece →
    Shows inner (card title (spaced (pieces.map (Text.indent 2))))

theorem fieldMarkup_of_fieldset {c : Config} (h : c.component = .fieldset) {fields : List Field}
    {configs : List (String × Config)} (hc : c.parts.children? = some (fields, configs))
    (place : Place) (f : Field) :
    fieldMarkup place f c = (childrenMarkup place configs fields).map fun children =>
      card c.frame.label (spaced (children.map (Text.indent 2))) := by
  unfold fieldMarkup
  rw [h]
  dsimp only
  unfold fieldsetMarkup
  split
  · rename_i hnone
    rw [hc] at hnone
    cases hnone
  · rename_i hsome
    rw [hc] at hsome
    cases hsome
    rfl

theorem fieldMarkup_of_union {c : Config} (h : c.component = .unionSwitch) {key : String}
    {variants : List VariantConfig} (hc : c.parts.union? = some (key, variants)) (path : String)
    (f : Field) :
    fieldMarkup (.path path) f c =
      (variantsMarkup (.path path) key variants).map (unionCard path c key) := by
  unfold fieldMarkup
  rw [h]
  dsimp only
  unfold unionMarkup
  split
  · rename_i hnone
    rw [hc] at hnone
    cases hnone
  · rename_i hsome
    rw [hc] at hsome
    cases hsome
    rfl

theorem mem_childrenMarkup {place : Place} {configs : List (String × Config)} {g : Field}
    {d : Config} (hd : configs.lookup g.name = some d) : ∀ {fields : List Field}
    {markups : List String}, g ∈ fields → childrenMarkup place configs fields = .ok markups →
      ∃ markup ∈ markups, fieldMarkup (place.child g.name) g d = .ok markup
  | [], _, hg, _ => absurd hg List.not_mem_nil
  | f :: rest, _, hg, h => by
    unfold childrenMarkup at h
    split at h
    · rename_i hnone
      rcases List.mem_cons.1 hg with rfl | hg
      · rw [hd] at hnone
        cases hnone
      · exact mem_childrenMarkup hd hg h
    · rename_i c hc
      split at h
      · cases h
      · rename_i markup hmarkup
        obtain ⟨others, hothers, rfl⟩ := map_eq_ok.1 h
        rcases List.mem_cons.1 hg with rfl | hg
        · obtain rfl : d = c := Option.some.inj (hd.symm.trans hc)
          exact ⟨markup, List.mem_cons_self, hmarkup⟩
        · obtain ⟨found, hfound, hmarkup⟩ := mem_childrenMarkup hd hg hothers
          exact ⟨found, List.mem_cons_of_mem _ hfound, hmarkup⟩

/-- The markup of a field holds that of each field that names lead to, at the path of the names. -/
theorem shows_of_leads {f u : Field} {names : List String} (h : f.Leads names u) :
    ∀ {c : Config} {path markup : String}, f.resolve defaultRules = .ok c →
      fieldMarkup (.path path) f c = .ok markup →
        ∃ e inner, u.resolve defaultRules = .ok e ∧
          fieldMarkup (.path (pathBelow path names)) u e = .ok inner ∧ Shows inner markup := by
  induction h with
  | here f => exact fun hc hmarkup => ⟨_, _, hc, hmarkup, .self⟩
  | @deeper f g u fields names hcontent hnames hg _ ih =>
    intro c path markup hc hmarkup
    rw [resolve_object hcontent] at hc
    obtain ⟨configs, hconfigs, rfl⟩ := map_eq_ok.1 hc
    obtain ⟨d, hd, hresolve⟩ := lookup_resolveAll hnames hconfigs g hg
    rw [OwnParts.children, configsByName_resolveAll hnames hconfigs,
      fieldMarkup_of_fieldset rfl rfl] at hmarkup
    obtain ⟨children, hchildren, rfl⟩ := map_eq_ok.1 hmarkup
    obtain ⟨piece, hpiece, hbelow⟩ := mem_childrenMarkup hd hg hchildren
    obtain ⟨e, inner, he, hinner, hshows⟩ := ih hresolve hbelow
    exact ⟨e, inner, he, hinner, .card hpiece hshows⟩

/-! ## Switches -/

theorem tags_resolveVariants : ∀ {variants : List Variant} {configs : List VariantConfig},
    resolveVariants defaultRules variants = .ok configs →
      configs.map VariantConfig.tag = variants.map Variant.tag
  | [], _, h => by
    cases h
    rfl
  | ⟨tag, fields⟩ :: rest, _, h => by
    rw [resolveVariants] at h
    split at h
    · cases h
    · obtain ⟨others, hothers, rfl⟩ := map_eq_ok.1 h
      rw [List.map_cons, List.map_cons, tags_resolveVariants hothers]

/-- The card of a union with a choice of tags, and a part for each. -/
def switchCard (title path key : String) (parts : List (String × String)) : String :=
  card title [
    Text.indent 4 (variantChoice (.path (path ++ "." ++ key)) key (parts.map Prod.fst)),
    joined "\n\n" (parts.map Prod.snd)]

/-- The lines behind the test of a part, which show the fields of the variant. -/
def switchBody (children : List String) : List String :=
  "    <div className=\"flex flex-col gap-3\">" ::
    (spaced (children.map (Text.indent 6)) ++ ["    </div>", "  )\x7d"])

theorem switchVariant_eq (selected tag : String) (children : List String) :
    switchVariant selected tag children =
      Text.indent 4 (Text.lines (
        ("<form.Subscribe selector=\x7b(state) => " ++ selected ++ "\x7d>") ::
          ("  \x7b(value) => value === " ++ Text.quoted tag ++ " && (") ::
            (switchBody children ++ ["</form.Subscribe>"]))) := by
  have hselector : "<form.Subscribe " ++ codeAttribute "selector" ("(state) => " ++ selected) ++
      ">" = "<form.Subscribe selector=\x7b(state) => " ++ selected ++ "\x7d>" := by
    rw [← String.toList_inj]
    simp [codeAttribute, braced]
  rw [switchVariant, hselector]
  simp only [switchBody, List.cons_append, List.nil_append, List.append_assoc]

theorem unionCard_eq (path : String) (c : Config) (key : String)
    (parts : List (String × List String)) :
    unionCard path c key parts = switchCard c.frame.label path key
      (parts.map fun (tag, children) => (tag, switchVariant (stateValue path key) tag children)) := by
  unfold unionCard switchCard
  simp only [List.map_map, Function.comp_def, Place.child]

/-- A union that names lead to through objects is rendered in the cards of these, with a part for
each variant. Every part subscribes to the expression through the pieces of the names, and is shown
where its value is the tag of the variant. The expression is the one through the names themselves if
and only if none of them has a dot in it. -/
theorem switch_selects {f u : Field} {names : List String} {key : String} {variants : List Variant}
    {c : Config} {markup : String} (hleads : f.Leads names u)
    (hunion : u.content = .union (some key) variants) (hkey : key ≠ "") (hvariants : variants ≠ [])
    (hc : f.resolve defaultRules = .ok c) (hmarkup : fieldMarkup (.path f.name) f c = .ok markup) :
    ∃ bodies : List (String × List String), bodies.map Prod.fst = variants.map Variant.tag ∧
      Shows (switchCard u.label (joined "." (f.name :: names)) key
        (bodies.map fun (tag, body) => (tag, Text.indent 4 (Text.lines (
          ("<form.Subscribe selector=\x7b(state) => " ++
            memberAccess "state.values" (piecesOf (f.name :: names) ++ [key]) ++ "\x7d>") ::
            ("  \x7b(value) => value === " ++ Text.quoted tag ++ " && (") ::
              (body ++ ["</form.Subscribe>"])))))) markup ∧
      (memberAccess "state.values" (piecesOf (f.name :: names) ++ [key]) =
          memberAccess "state.values" (f.name :: names ++ [key]) ↔
        ∀ name ∈ f.name :: names, '.' ∉ name.toList) := by
  obtain ⟨e, inner, he, hinner, hshows⟩ := shows_of_leads hleads hc hmarkup
  rw [resolve_union hunion] at he
  obtain ⟨configs, hconfigs, rfl⟩ := map_eq_ok.1 he
  have htags := tags_resolveVariants hconfigs
  have hparts : ((OwnParts.union (some key) configs).into Parts.none).union? =
      some (key, configs) := by
    have hsome : configs ≠ [] := by
      rintro rfl
      exact hvariants (List.map_eq_nil_iff.1 htags.symm)
    simp [OwnParts.union, Parts.union?, hkey, hsome]
  rw [fieldMarkup_of_union rfl hparts] at hinner
  obtain ⟨parts, hmarkups, rfl⟩ := map_eq_ok.1 hinner
  refine ⟨parts.map fun (tag, children) => (tag, switchBody children), ?_, ?_,
    memberAccess_pieces_iff _ _ _⟩
  · rw [List.map_map]
    exact (tags_variantsMarkup hmarkups).trans htags
  · rw [unionCard_eq, stateValue, splitOn_pathBelow] at hshows
    rw [joined_cons, List.map_map]
    simp only [switchVariant_eq] at hshows
    exact hshows

/-- An object whose name has a dot in it, with a union of one variant. -/
def dottedField : Field :=
  bareField "a.b" (.object
    [bareField "u" (.union (some "k") [⟨"x", [bareField "k" (.enum "x" [])]⟩])])

theorem hasIntegerBounds_dottedField {g : Field} (h : g.Within dottedField) :
    g.HasIntegerBounds := by
  have hall : ∀ g ∈ dottedField.preorder, g.HasIntegerBounds := by
    simp [dottedField, bareField, Field.preorder_eq, Field.children, Content.children,
      Field.HasIntegerBounds]
  exact hall g (Field.mem_preorder.2 h)

theorem allShort_dottedField : dottedField.AllShort := by
  simp [dottedField, bareField, Field.allShort_of_unconstrained, Field.children, Content.children]

/-- The name of the object is cut at its dot. -/
theorem switch_selects_dotted :
    ∃ c markup body, dottedField.resolve defaultRules = .ok c ∧
      fieldMarkup (.path "a.b") dottedField c = .ok markup ∧
        Shows (switchCard "u" "a.b.u" "k" [("x", Text.indent 4 (Text.lines (
          "<form.Subscribe selector=\x7b(state) => state.values.a.b.u.k\x7d>" ::
            "  \x7b(value) => value === \"x\" && (" :: (body ++ ["</form.Subscribe>"]))))])
          markup ∧
          memberAccess "state.values" ["a.b", "u", "k"] = "state.values[\"a.b\"].u.k" := by
  have hcovers : ∀ g : Field, g.Within dottedField → Covers defaultRules g := fun g hg =>
    covers_defaultRules (hasIntegerBounds_dottedField hg)
  obtain ⟨c, hc, hoffer⟩ := dottedField.resolve_succeeds hcovers
  have hwritten := fieldMarkup_isWritten (hoffer.allShow (allShort_of_resolve hcovers hc))
    (.path "a.b") dottedField
  obtain ⟨markup, hmarkup⟩ := hwritten.succeeds allShort_dottedField
  obtain ⟨bodies, htags, hshows, -⟩ := switch_selects
    (.deeper rfl (by simp) (List.mem_singleton_self _) (.here _)) rfl (by decide) (by simp) hc
    hmarkup
  obtain ⟨⟨tag, body⟩, rfl, rfl⟩ := List.map_eq_singleton_iff.1 htags
  have hselector : "<form.Subscribe selector=\x7b(state) => " ++
      memberAccess "state.values" (piecesOf ["a.b", "u"] ++ ["k"]) ++ "\x7d>" =
        "<form.Subscribe selector=\x7b(state) => state.values.a.b.u.k\x7d>" := by decide
  have htest : "  \x7b(value) => value === " ++ Text.quoted "x" ++ " && (" =
      "  \x7b(value) => value === \"x\" && (" := by decide
  refine ⟨c, markup, body, hc, hmarkup, ?_, by decide⟩
  rw [← hselector, ← htest]
  exact hshows

end Markup

end FormSchema
