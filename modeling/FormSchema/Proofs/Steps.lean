import FormSchema.Proofs.Exclusion
import FormSchema.Proofs.Initials

/-!
# Steps and what they show

A form with steps writes them twice: as the constant `STEPS`, from which the code takes labels and
the fields to check, and as one part of the markup for each step. `generate_shows_steps` says that
the two agree. The constant is read back as the records of the steps without the excluded fields
(`declarations_stepsConstant`), and the part at an index is the markup of the fields that the record
at that index lists, in their order (`forall₂_of_stepBlocks`).

A name may stand in several steps, or twice in one, and a step may have lost all its fields; its
part is then empty.
-/

namespace FormSchema

open Text (joined lines indent quoted isBasic)

/-! ## The record of a step -/

/-- The texts of a step under their keys. A description is one of them if it is not empty. -/
def Step.texts (s : Step) : List (String × String) :=
  [("id", s.id), ("label", s.label)] ++
    match s.description with
    | some text => if text.isEmpty then [] else [("description", text)]
    | none => []

/-- What a step is in the constant that lists the steps. -/
def Step.value (s : Step) : Value :=
  .record (s.texts.map (fun (key, text) => (key, .text text)) ++
    [("fields", .list (s.fields.map .text))])

/-- The texts of a step can be read back. -/
def Step.IsBasic (s : Step) : Prop :=
  (∀ entry ∈ s.texts, isBasic entry.2 = true) ∧ ∀ name ∈ s.fields, isBasic name = true

/-- The members of a step as the constant writes them. -/
def Step.memberTexts (s : Step) : List (String × String) :=
  s.texts.map (fun (key, text) => (key, quoted text)) ++
    [("fields", bracketed (s.fields.map quoted))]

/-- There are not many keys. -/
theorem Step.keys_cases (s : Step) : s.texts.map Prod.fst = ["id", "label"] ∨
    s.texts.map Prod.fst = ["id", "label", "description"] := by
  unfold Step.texts
  split
  · split <;> simp
  · simp

theorem Step.nodup_keys (s : Step) : (s.texts.map Prod.fst ++ ["fields"]).Nodup := by
  rcases s.keys_cases with hkeys | hkeys <;> rw [hkeys] <;> decide

theorem Step.isBasic_keys (s : Step) : ∀ key ∈ s.texts.map Prod.fst, isBasic key = true := by
  rcases s.keys_cases with hkeys | hkeys <;> rw [hkeys] <;> decide

namespace Source

theorem memberText_of_isIdentifier (key : String) (h : Text.isIdentifier key.toList = true)
    (e : String) : memberText (key, e) = key ++ ": " ++ e := by
  rw [memberText, Text.propertyKey, if_pos h]

/-- A step in braces. -/
def stepText (s : Step) : String :=
  "\x7b " ++ joined ", " (s.memberTexts.map memberText) ++ " \x7d"

theorem stepLine_eq (s : Step) : FormFile.stepLine s = "  " ++ stepText s ++ "," := by
  have hid (e : String) := memberText_of_isIdentifier "id" (by decide) e
  have hlabel (e : String) := memberText_of_isIdentifier "label" (by decide) e
  have hdescription (e : String) := memberText_of_isIdentifier "description" (by decide) e
  have hfields (e : String) := memberText_of_isIdentifier "fields" (by decide) e
  obtain ⟨id, label, description, fields⟩ := s
  rw [← String.toList_inj]
  unfold FormFile.stepLine
  cases description with
  | none =>
    simp [stepText, Step.memberTexts, Step.texts, joined, hid, hlabel, hfields, bracketed]
  | some text =>
    by_cases htext : text.isEmpty = true
    · simp [stepText, Step.memberTexts, Step.texts, htext, joined, hid, hlabel, hfields,
        bracketed]
    · simp [stepText, Step.memberTexts, Step.texts, htext, joined, hid, hlabel, hdescription,
        hfields, bracketed]

variable {scope : Scope}

theorem means_quoted_of_isBasic {s : String} (h : isBasic s = true) :
    Means scope Anything (quoted s) (.text s) := by
  have hmeans := @means_quoted scope s
  rwa [Text.reread_eq h] at hmeans

/-- What is written for a step means its record. -/
theorem means_step {s : Step} (h : s.IsBasic) : Means scope Anything (stepText s) s.value := by
  obtain ⟨htexts, hnames⟩ := h
  have hlist : Means scope Anything (bracketed (s.fields.map quoted))
      (.list (s.fields.map .text)) := by
    refine means_bracketed (forall₂_of_maps ?_)
    exact fun name hname => (means_quoted_of_isBasic (hnames name hname)).anywhere
  have hmembers : List.Forall₂ (MeansMember scope) s.memberTexts
      (s.texts.map (fun (key, text) => (key, Value.text text)) ++
        [("fields", .list (s.fields.map .text))]) := by
    have hfields : MeansMember scope ("fields", bracketed (s.fields.map quoted))
        ("fields", .list (s.fields.map .text)) :=
      ⟨(Text.reread_eq (s := "fields") (by decide)).symm, hlist.mono fun _ _ => trivial⟩
    refine List.rel_append (forall₂_of_maps ?_) (.cons hfields .nil)
    rintro ⟨key, text⟩ hentry
    exact ⟨(Text.reread_eq (s.isBasic_keys key (List.mem_map_of_mem hentry))).symm,
      (means_quoted_of_isBasic (htexts _ hentry)).mono fun _ _ => trivial⟩
  have hrecord := means_record hmembers (by simp [Step.memberTexts])
  rwa [putEntries_nil (by simpa [Function.comp_def] using s.nodup_keys)] at hrecord

/-! ## The constant -/

/-- Expressions on lines of their own, each with a comma behind it, up to the closing bracket. -/
theorem lists_of_lines : ∀ {texts : List String} {vs : List Value},
    List.Forall₂ (Means scope Closes) texts vs →
      ∃ us, Spells Anything (texts.flatMap (fun text =>
        '\n' :: ' ' :: ' ' :: (text.toList ++ [','])) ++ ['\n', ']']) us ∧ Lists scope ']' us vs
  | _, _, .nil => ⟨_, spells_lineFeed.then (spells_punct (c := ']') (by decide)), lists_close⟩
  | text :: texts, _, .cons h hrest => by
    obtain ⟨ts, hspells, hdenotes⟩ := h
    obtain ⟨us, hus, hlist⟩ := lists_of_lines hrest
    have hcomma := (spells_punct (c := ',') (by decide)).then hus
    have hline := (spells_lineFeed.then (spells_space.then spells_space)).then
      (hspells.append hcomma fun rest _ => closes_cons (by decide) (by decide) _)
    exact ⟨_, by simpa using hline, hdenotes.cons (.inr rfl) hlist⟩

/-- A constant that is not exported is declared, too. -/
theorem runs_plainConst {name : String} {cs : List Char} {ts : List Token} {v : Value}
    (hname : isWord name.toList = true) (hcs : Spells Stops cs ts) (h : Denotes scope ts v) :
    Runs scope ("const ".toList ++ (name.toList ++ (" = ".toList ++ (cs ++ [';']))))
      (scope.declare name v) := by
  have hspells : Spells Anything
      ("const ".toList ++ (name.toList ++ (" = ".toList ++ (cs ++ [';']))))
      (.word "const" :: .word name :: .punct '=' :: (ts ++ [.punct ';'])) := by
    have hwords := (spells_wordSpace "const" (by decide)).then
      ((spells_wordSpace name hname).then ((spells_punct (c := '=') (by decide)).then
      (spells_space.then (spells_end hcs))))
    simpa using hwords
  refine hspells.runs fun placed after hmap => ?_
  obtain ⟨⟨keyword, p⟩, placed, rfl, hkeyword, hmap⟩ := List.map_eq_cons_iff.1 hmap
  obtain ⟨⟨named, q⟩, placed, rfl, hnamed, hmap⟩ := List.map_eq_cons_iff.1 hmap
  obtain ⟨⟨equals, r⟩, placed, rfl, hequals, hvalue⟩ := List.map_eq_cons_iff.1 hmap
  cases hkeyword
  cases hnamed
  cases hequals
  obtain ⟨hlt, hinitializer⟩ := initializer_of_denotes after hvalue h
  simp only [List.cons_append]
  refine statements_cons (h := by simp only [List.length_cons]; omega) ?_
  simp [statement, declaration_const, hinitializer]

theorem stepsConstant_toList {s : Step} {steps : List Step} :
    (FormFile.stepsConstant (s :: steps)).toList =
      "const ".toList ++ ("STEPS".toList ++ (" = ".toList ++ ('[' ::
        (((s :: steps).map stepText).flatMap (fun text =>
          '\n' :: ' ' :: ' ' :: (text.toList ++ [','])) ++ ['\n', ']']) ++ [';']))) := by
  unfold FormFile.stepsConstant
  simp [lines_toList, stepLine_eq, List.flatMap_map]

/-- The constant of steps is read back as the list of their records. -/
theorem declarations_stepsConstant {steps : List Step} (hne : steps ≠ [])
    (h : ∀ s ∈ steps, s.IsBasic) :
    declarations (FormFile.stepsConstant steps) =
      .ok [("STEPS", .list (steps.map Step.value))] := by
  obtain ⟨first, rest, rfl⟩ := List.exists_cons_of_ne_nil hne
  refine declarations_of_runs fun finish => ?_
  rw [stepsConstant_toList]
  have hsteps : List.Forall₂ (Means ⟨[], finish⟩ Closes)
      ((first :: rest).map stepText) ((first :: rest).map Step.value) :=
    forall₂_of_maps fun s hs => (means_step (h s hs)).anywhere
  obtain ⟨us, hus, hlist⟩ := lists_of_lines hsteps
  exact runs_plainConst (by decide) ((spells_punct (c := '[') (by decide)).then hus).stops
    hlist.denotes

end Source

/-! ## The parts of the markup -/

namespace FormFile

variable {chosen : Chosen}

/-- What holds along two lists and along the second and a third is put together. -/
theorem forall₂_trans {α β γ : Type} {R : α → β → Prop} {S : β → γ → Prop} {T : α → γ → Prop}
    (hT : ∀ a b c, R a b → S b c → T a c) {as : List α} {bs : List β} {cs : List γ}
    (hR : List.Forall₂ R as bs) (hS : List.Forall₂ S bs cs) : List.Forall₂ T as cs := by
  induction hR generalizing cs with
  | nil =>
    cases hS
    exact .nil
  | cons hab _ ih =>
    cases hS with
    | cons hbc hrest => exact .cons (hT _ _ _ hab hbc) (ih hrest)

/-- The markup of fields at the root of the state, one after the other. -/
theorem forall₂_of_rootMarkups {margin : Nat} : ∀ {chosen : Chosen} {markups : List String},
    rootMarkups margin chosen = .ok markups →
      List.Forall₂ (fun (f, c) markup => ∃ m, Markup.fieldMarkup (.path f.name) f c = .ok m ∧
        markup = indent margin m) chosen markups
  | [], _, h => by
    cases h
    exact .nil
  | (f, c) :: rest, markups, h => by
    rw [rootMarkups] at h
    cases hfirst : Markup.fieldMarkup (.path f.name) f c with
    | error e =>
      rw [hfirst] at h
      cases h
    | ok m =>
      rw [hfirst] at h
      obtain ⟨others, hothers, rfl⟩ := map_eq_ok.1 h
      exact .cons ⟨m, hfirst, rfl⟩ (forall₂_of_rootMarkups hothers)

/-- The parts of the steps, from an index on: each has its index and the markup of the fields that
its step names. -/
theorem forall₂_of_stepBlocks : ∀ {index : Nat} {steps : List Step} {blocks : List String},
    stepBlocks chosen index steps = .ok blocks →
      ∃ contents, blocks = contents.mapIdx (fun i content => stepBlock (index + i) content) ∧
        List.Forall₂ (fun (s : Step) content =>
          fieldsMarkup 12 (s.fields.filterMap (chosenNamed chosen)) = .ok content) steps contents
  | _, [], _, h => by
    cases h
    exact ⟨[], rfl, .nil⟩
  | index, s :: rest, blocks, h => by
    rw [stepBlocks] at h
    cases hfirst : fieldsMarkup 12 (s.fields.filterMap (chosenNamed chosen)) with
    | error e =>
      rw [hfirst] at h
      cases h
    | ok content =>
      rw [hfirst] at h
      obtain ⟨others, hothers, rfl⟩ := map_eq_ok.1 h
      obtain ⟨contents, rfl, hcontents⟩ := forall₂_of_stepBlocks hothers
      refine ⟨content :: contents, ?_, .cons hfirst hcontents⟩
      simp [List.mapIdx_cons, Nat.add_assoc, Nat.add_comm 1]

/-- The part at each index tests that the step is the current one. -/
theorem stepBlocks_text {steps : List Step} {blocks : List String}
    (h : stepBlocks chosen 0 steps = .ok blocks) :
    ∃ contents : List String,
      (blocks = contents.mapIdx fun k content =>
        "          \x7bcurrentStep === " ++ natText k ++ " && (<>\n" ++ content ++
          "\n          </>)\x7d") ∧
      List.Forall₂ (fun (s : Step) content =>
        fieldsMarkup 12 (s.fields.filterMap (chosenNamed chosen)) = .ok content) steps contents := by
  obtain ⟨contents, rfl, hcontents⟩ := forall₂_of_stepBlocks h
  refine ⟨contents, ?_, hcontents⟩
  congr 1
  funext k content
  rw [Nat.zero_add]
  rfl

/-- Each of the names is the one of a chosen field, so the fields that are looked up are one for
each name. -/
theorem forall₂_chosenNamed {names : List String}
    (h : ∀ name ∈ names, name ∈ chosen.map fun (f, _) => f.name) :
    List.Forall₂ (fun name (e : Field × Config) => e ∈ chosen ∧ e.1.name = name)
      names (names.filterMap (chosenNamed chosen)) := by
  induction names with
  | nil => exact .nil
  | cons name rest ih =>
    obtain ⟨hname, hrest⟩ := List.forall_mem_cons.1 h
    obtain ⟨e, he, heq⟩ := List.mem_map.1 hname
    obtain ⟨found, hfound⟩ : ∃ found, chosenNamed chosen name = some found := by
      rw [← Option.isSome_iff_exists, chosenNamed, List.find?_isSome]
      exact ⟨e, he, by simpa using heq⟩
    rw [List.filterMap_cons, hfound]
    exact .cons ⟨List.mem_of_find?_eq_some hfound, by simpa using List.find?_some hfound⟩ (ih hrest)

/-- The code of a form with steps: the constant behind its head, and the parts in their card. -/
theorem text_eq_ok {h : Head} {steps : List Step} {code : String} (hne : steps ≠ [])
    (hcode : text h chosen steps = .ok code) :
    ∃ blocks, stepBlocks chosen 0 steps = .ok blocks ∧
      code = lines (headLines h true ++ [stepsConstant steps] ++
        stepsOpening h (formState h (chosen.map Prod.fst)) ++ [lines blocks] ++ stepsClosing) := by
  rw [text, if_neg (by simpa using hne), steppedFile] at hcode
  split at hcode
  · cases hcode
  · rename_i state hstate
    obtain ⟨-, rfl⟩ := writing_eq_ok.1 hstate
    obtain ⟨blocks, hblocks, rfl⟩ := map_eq_ok.1 hcode
    exact ⟨blocks, hblocks, rfl⟩

end FormFile

/-! ## Both together -/

/-- A step that names fields of the form keeps those that are rendered, which are the ones that are
not excluded. -/
theorem Form.restrict_eq_without {form : Form} (hn : (form.fields.map Field.name).Nodup)
    (rules : List Rule) {s : Step} (hs : s.fields ⊆ form.fields.map Field.name) :
    s.restrict ((chosenBy rules form.fields).map fun (f, _) => f.name) =
      s.without (form.excluded rules) := by
  simp only [Step.restrict, Step.without]
  congr 1
  refine List.filter_congr fun name hname => ?_
  obtain ⟨f, hf, rfl⟩ := List.mem_map.1 (hs hname)
  rw [chosenBy_names, ← Form.not_fails_iff hn rules hf, Bool.eq_iff_iff, List.contains_iff_mem,
    List.mem_map]
  constructor
  · rintro ⟨g, hg, heq⟩
    rw [List.mem_filter] at hg
    exact List.inj_on_of_nodup_map hn hg.1 hf heq ▸ hg.2
  · exact fun hkept => ⟨f, List.mem_filter.2 ⟨hf, hkept⟩, rfl⟩

/-- The steps of a form are shown without the excluded fields, and its names are those given. -/
theorem shown_of_introspect {schema : Value} {naming : Naming} {steps : Datum} {shape : Shape}
    {form : Form} {kept : List Step} (hshape : rootShape schema = .ok shape)
    (hkeys : (shape.map Prod.fst).Nodup) (hform : introspect schema naming steps = .ok form)
    (hsteps : form.steps = some kept) (rules : List Rule) :
    form.naming = naming ∧ (form.steps.getD []).map
        (Step.restrict ((chosenBy rules form.fields).map fun e => e.1.name)) =
      kept.map (Step.without (form.excluded rules)) := by
  obtain ⟨fields, warnings, read, hfields, hread, hparts⟩ := (introspect_eq_ok hshape).1 hform
  have hn : (form.fields.map Field.name).Nodup := by
    rw [hparts, fieldsOf_names hfields]
    exact hkeys
  have hknown : ∀ s ∈ kept, s.fields ⊆ form.fields.map Field.name := by
    rw [hparts] at hsteps ⊢
    obtain rfl : read = some kept := hsteps
    exact fields_subset_of_readFormSteps hread
  refine ⟨by rw [hparts], ?_⟩
  rw [hsteps]
  exact List.map_congr_left fun s hs => Form.restrict_eq_without hn rules (hknown s hs)

/-- A step that is restricted to some names has no others. -/
theorem fields_of_restrict {names : List String} {steps : List Step} :
    ∀ s ∈ steps.map (Step.restrict names), ∀ name ∈ s.fields, name ∈ names := by
  intro s hs name hname
  obtain ⟨t, -, rfl⟩ := List.mem_map.1 hs
  exact List.contains_iff_mem.1 (List.mem_filter.1 hname).2

theorem Step.IsBasic.without {s : Step} (h : s.IsBasic) (names : List String) :
    (s.without names).IsBasic :=
  ⟨h.1, fun name hname => h.2 name (List.mem_of_mem_filter hname)⟩

/-- The markup is that of the field of the form with the name, as the rules resolve it, moved to its
place in a step. -/
def Form.Shows (form : Form) (rules : List Rule) (name markup : String) : Prop :=
  ∃ f ∈ form.fields, f.name = name ∧ ∃ c m, f.resolve rules = .ok c ∧
    Markup.fieldMarkup (.path name) f c = .ok m ∧ markup = indent 12 m

/-- The part of a step shows the fields that the step names. -/
theorem Form.shows_of_fieldsMarkup {form : Form} {rules : List Rule} {names : List String}
    {content : String}
    (hnames : ∀ name ∈ names, name ∈ (chosenBy rules form.fields).map fun (f, _) => f.name)
    (h : FormFile.fieldsMarkup 12
      (names.filterMap (FormFile.chosenNamed (chosenBy rules form.fields))) = .ok content) :
    ∃ markups, content = joined "\n\n" markups ∧
      List.Forall₂ (form.Shows rules) names markups := by
  obtain ⟨markups, hmarkups, rfl⟩ := map_eq_ok.1 h
  refine ⟨markups, rfl, ?_⟩
  refine FormFile.forall₂_trans ?_ (FormFile.forall₂_chosenNamed hnames)
    (FormFile.forall₂_of_rootMarkups hmarkups)
  rintro name ⟨f, c⟩ markup ⟨hmem, rfl⟩ ⟨m, hm, rfl⟩
  obtain ⟨hf, hc⟩ := mem_chosenBy hmem
  exact ⟨f, hf, rfl, c, m, hc, hm, rfl⟩

/-- A form with steps lists them in a constant, behind the head of its code, and shows them one by
one. The constant is read back as one record for each step, without the excluded fields. The part at
an index tests that the step is the current one, and what it shows is the markup of the fields that
the step at this index still names, in their order. -/
theorem generate_shows_steps {schema : Value} {naming : Naming} {steps : Datum} {rules : List Rule}
    {settings : Settings} {shape : Shape} {form : Form} {kept : List Step} {out : Generated}
    (hshape : rootShape schema = .ok shape) (hkeys : (shape.map Prod.fst).Nodup)
    (hform : introspect schema naming steps = .ok form) (hsteps : form.steps = some kept)
    (hne : kept ≠ []) (hbasic : ∀ s ∈ kept, s.IsBasic)
    (hout : generate schema naming steps rules settings = .ok out) :
    Source.declarations (FormFile.stepsConstant (kept.map (Step.without (form.excluded rules)))) =
        .ok [("STEPS", .list ((kept.map (Step.without (form.excluded rules))).map Step.value))] ∧
      ∃ contents : List String,
        out.code = lines (FormFile.headLines ⟨naming, settings, out.primitives⟩ true ++
          [FormFile.stepsConstant (kept.map (Step.without (form.excluded rules)))] ++
          FormFile.stepsOpening ⟨naming, settings, out.primitives⟩
            (FormFile.formState ⟨naming, settings, out.primitives⟩
              ((chosenBy rules form.fields).map Prod.fst)) ++
          [lines (contents.mapIdx fun k content =>
            "          \x7bcurrentStep === " ++ natText k ++ " && (<>\n" ++ content ++
              "\n          </>)\x7d")] ++
          FormFile.stepsClosing) ∧
        List.Forall₂ (fun (s : Step) content => ∃ markups, content = joined "\n\n" markups ∧
            List.Forall₂ (form.Shows rules) s.fields markups)
          (kept.map (Step.without (form.excluded rules))) contents := by
  obtain ⟨hnaming, hshown⟩ := shown_of_introspect hshape hkeys hform hsteps rules
  -- What a step still names is rendered.
  have hrendered : ∀ s ∈ kept.map (Step.without (form.excluded rules)), ∀ name ∈ s.fields,
      name ∈ (chosenBy rules form.fields).map fun e => e.1.name := hshown ▸ fields_of_restrict
  have hshownBasic : ∀ s ∈ kept.map (Step.without (form.excluded rules)), s.IsBasic :=
    List.forall_mem_map.2 fun s hs => (hbasic s hs).without _
  have hshownNe : kept.map (Step.without (form.excluded rules)) ≠ [] := by simpa using hne
  refine ⟨Source.declarations_stepsConstant hshownNe hshownBasic, ?_⟩
  rw [generate, hform] at hout
  simp only [Form.generate, hshown, hnaming] at hout
  obtain ⟨code, hcode, rfl⟩ := map_eq_ok.1 hout
  obtain ⟨blocks, hblocks, rfl⟩ := FormFile.text_eq_ok hshownNe hcode
  obtain ⟨contents, hparts, hcontents⟩ := FormFile.stepBlocks_text hblocks
  refine ⟨contents, by rw [← hparts], ?_⟩
  have hall := (List.forall₂_and_left _ _).2 ⟨hrendered, hcontents⟩
  exact hall.imp fun s content h => Form.shows_of_fieldsMarkup h.1 h.2

/-- Of a text and a flag only the text is shown, in a step that named both. -/
theorem generate_shows_steps_flag : ∃ (form : Form) (out : Generated),
    introspect (.node (.plain (.object textAndFlag))) ⟨"F", "./s", "s"⟩
      (.list [Step.toDatum ⟨"s", "S", none, ["b", "a"]⟩]) = .ok form ∧
    generate (.node (.plain (.object textAndFlag))) ⟨"F", "./s", "s"⟩
      (.list [Step.toDatum ⟨"s", "S", none, ["b", "a"]⟩]) textRules {} = .ok out ∧
    Source.declarations (FormFile.stepsConstant [⟨"s", "S", none, ["a"]⟩]) =
      .ok [("STEPS", .list [.record [("id", .text "s"), ("label", .text "S"),
        ("fields", .list [.text "a"])]])] ∧
    ∃ content, form.Shows textRules "a" content ∧
      out.code = lines (FormFile.headLines ⟨⟨"F", "./s", "s"⟩, {}, out.primitives⟩ true ++
        [FormFile.stepsConstant [⟨"s", "S", none, ["a"]⟩]] ++
        FormFile.stepsOpening ⟨⟨"F", "./s", "s"⟩, {}, out.primitives⟩
          (FormFile.formState ⟨⟨"F", "./s", "s"⟩, {}, out.primitives⟩ [textField]) ++
        ["          \x7bcurrentStep === 0 && (<>\n" ++ content ++ "\n          </>)\x7d"] ++
        FormFile.stepsClosing) := by
  obtain ⟨out, hout, -⟩ := generate_textAndFlag
  have hread : readFormSteps ["a", "b"] (.list [Step.toDatum ⟨"s", "S", none, ["b", "a"]⟩]) =
      .ok (some [⟨"s", "S", none, ["b", "a"]⟩]) := by cbv
  have hform : introspect _ ⟨"F", "./s", "s"⟩ _ = .ok _ :=
    (introspect_eq_ok rootShape_textAndFlag).2 ⟨_, _, _, fieldsOf_textAndFlag, hread, rfl⟩
  have hbasic : ∀ s ∈ [Step.mk "s" "S" none ["b", "a"]], s.IsBasic := by
    simp only [List.forall_mem_singleton, Step.IsBasic]
    decide
  obtain ⟨hconstant, contents, hcode, hcontents⟩ :=
    generate_shows_steps rootShape_textAndFlag (by decide) hform rfl (by simp) hbasic hout
  have hshown : Step.without (Form.excluded textRules ⟨⟨"F", "./s", "s"⟩,
      [textField, ⟨"b", "B", none, false, false, {}, .boolean, none⟩], [],
      some [⟨"s", "S", none, ["b", "a"]⟩]⟩) ⟨"s", "S", none, ["b", "a"]⟩ =
        ⟨"s", "S", none, ["a"]⟩ := by
    cbv
  rw [List.map_singleton, hshown] at hconstant hcode hcontents
  -- There is one part, with one field.
  obtain ⟨content, _, ⟨markups, rfl, hmarkups⟩, hnone, rfl⟩ := List.forall₂_cons_left_iff.1 hcontents
  obtain rfl := List.forall₂_nil_left_iff.1 hnone
  obtain ⟨markup, _, hmarkup, hlast, rfl⟩ := List.forall₂_cons_left_iff.1 hmarkups
  obtain rfl := List.forall₂_nil_left_iff.1 hlast
  have hpart : lines ([joined "\n\n" [markup]].mapIdx fun k content =>
      "          \x7bcurrentStep === " ++ natText k ++ " && (<>\n" ++ content ++
        "\n          </>)\x7d") =
      "          \x7bcurrentStep === 0 && (<>\n" ++ markup ++ "\n          </>)\x7d" := by
    have hzero : natText 0 = "0" := by decide
    simp only [List.mapIdx_cons, List.mapIdx_nil, lines, joined, hzero]
    rfl
  rw [chosenBy_textAndFlag, hpart] at hcode
  exact ⟨_, out, hform, hout, hconstant, markup, hmarkup, hcode⟩

end FormSchema
