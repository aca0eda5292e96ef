import FormSchema.Proofs.SchemaOrder
import FormSchema.SchemaFile.Module

/-!
# Schemas are declared before they are used

A module declares the embedded schemas in their order and the schema of the form last
(`schemaFile_eq_ok_iff`). So a name that a declaration writes is that of a schema declared strictly
before it (`schemaFile_declared_before`), and a circle of embedded schemas keeps the module from
being written.

Two kinds of references are not looked at when schemas are put in order: those of a schema to
itself, and those of an embedded schema to the schema of the form. A module with such references is
written, and their names stand there before they are declared
(`schemaFile_not_declared_before`).
-/

namespace FormSchema

open Relation

/-! ## Ordered schemas -/

/-- Schemas that are ordered have different names, and the rounds leave none of them waiting. -/
theorem placeAll_of_ordered {schemas sorted : List Form} (h : ordered schemas = .ok sorted) :
    (schemaNames schemas).Nodup ∧
      placeAll (schemaNames schemas) [] (schemas.partition (Form.isReady (schemaNames schemas) [])).1
        (schemas.partition (Form.isReady (schemaNames schemas) [])).2 = (sorted, []) := by
  simp only [ordered] at h
  split at h
  · cases h
  · rename_i hshared
    refine ⟨sharedNames_eq_nil_iff.1 hshared, ?_⟩
    split at h
    · rename_i placed hrounds
      cases h
      exact hrounds
    · cases h

/-- Schemas that are ordered have different names and have all been placed. -/
theorem ordered_eq_ok {schemas sorted : List Form} (h : ordered schemas = .ok sorted) :
    (schemaNames schemas).Nodup ∧ Placing schemas sorted [] [] := by
  obtain ⟨hn, hrounds⟩ := placeAll_of_ordered h
  have hplace := (Placing.start schemas).run
  rw [hrounds] at hplace
  exact ⟨hn, hplace⟩

/-- Schemas with different names are ordered, unless there is a circle among them. -/
theorem ordered_eq_error {schemas : List Form} {e : Failure} (h : ordered schemas = .error e)
    (hn : (schemaNames schemas).Nodup) :
    (∃ stuck, e = .circular stuck) ∧ ∃ f, OnCircle schemas f := by
  have hplace := (Placing.start schemas).run
  simp only [ordered, sharedNames_eq_nil_iff.2 hn] at h
  split at h
  · cases h
  · rename_i placed waiting hnil hrounds
    cases h
    rw [hrounds] at hplace
    obtain ⟨f, hf⟩ := List.exists_mem_of_ne_nil waiting hnil
    refine ⟨⟨_, rfl⟩, (exists_meetsCircle_iff schemas).1 ⟨f, ?_, hplace.meetsCircle hf⟩⟩
    exact hplace.mem_iff.2 (.inr hf)

theorem not_onCircle_of_ordered {schemas sorted : List Form} (h : ordered schemas = .ok sorted) :
    ¬∃ f, OnCircle schemas f := by
  obtain ⟨hn, hplace⟩ := ordered_eq_ok h
  rw [← exists_meetsCircle_iff]
  rintro ⟨f, hf, hmeets⟩
  have hmem : f ∈ sorted := by simpa using hplace.mem_iff.1 hf
  exact hplace.not_meetsCircle hn hmem hmeets

theorem perm_of_ordered {schemas sorted : List Form} (h : ordered schemas = .ok sorted) :
    sorted.Perm schemas := by
  simpa using (ordered_eq_ok h).2.perm

/-- A schema alone is ordered, since it needs no other one. -/
theorem ordered_singleton (f : Form) : ordered [f] = .ok [f] := by
  cases h : ordered [f] with
  | ok sorted => rw [List.perm_singleton.1 (perm_of_ordered h)]
  | error e =>
    obtain ⟨-, g, hg⟩ := ordered_eq_error h (by simp)
    obtain ⟨a, ⟨ha, hne, -⟩, -⟩ := TransGen.head'_iff.1 hg
    obtain ⟨_, -, hg', -, -⟩ := TransGen.tail'_iff.1 hg
    rw [List.mem_singleton.1 ha, List.mem_singleton.1 hg'] at hne
    exact absurd rfl hne

/-- Embedded schemas that are ordered and do not take the name of the form have names that differ
from each other and from that of the form. -/
theorem nodup_of_ordered {form : Form} {embedded sorted : List Form}
    (h : ordered embedded = .ok sorted) (hname : form.schemaName ∉ schemaNames sorted) :
    (schemaNames (sorted ++ [form])).Nodup := by
  have hsorted : (schemaNames sorted).Nodup :=
    ((perm_of_ordered h).map _).nodup_iff.2 (ordered_eq_ok h).1
  rw [schemaNames, List.map_append, List.nodup_append]
  refine ⟨hsorted, by simp, ?_⟩
  rintro _ ha _ hb rfl
  exact hname ((List.mem_singleton.1 hb) ▸ ha)

/-- A form with others before it in a list with a last form is this last one, or has a place among
those before it. -/
theorem split_concat {sorted before after : List Form} {form f : Form}
    (h : sorted ++ [form] = before ++ f :: after) :
    (before = sorted ∧ f = form) ∨ ∃ after', sorted = before ++ f :: after' := by
  rcases List.eq_nil_or_concat after with rfl | ⟨after', last, rfl⟩
  · obtain ⟨rfl, hf⟩ := List.append_inj' h rfl
    exact .inl ⟨rfl, (List.singleton_inj.1 hf).symm⟩
  · rw [List.concat_eq_append, ← List.cons_append, ← List.append_assoc] at h
    exact .inr ⟨after', (List.append_inj' h rfl).1⟩

/-! ## Modules -/

/-- The text of a module that declares forms in their order. -/
def moduleText (settings : Settings) (forms : List Form) : String :=
  Text.lines ([constructorImport settings, ""] ++
    forms.flatMap fun f => f.declaration ++ [""])

/-- A module is written if the embedded schemas are ordered, none takes the name of the form, and
no number in them is too long. It declares them in this order, and the schema of the form last. -/
theorem schemaFile_eq_ok_iff {form : Form} {embedded : List Form} {settings : Settings}
    {file : String} :
    schemaFile form embedded settings = .ok file ↔
      ∃ sorted, ordered embedded = .ok sorted ∧ form.schemaName ∉ schemaNames sorted ∧
        (∀ f ∈ sorted ++ [form], ∀ n ∈ f.numbers, n.isShort = true) ∧
        file = moduleText settings (sorted ++ [form]) := by
  unfold schemaFile
  cases ordered embedded with
  | error e => simp
  | ok sorted =>
    have hany : (sorted.any fun other => other.schemaName == form.schemaName) = true ↔
        form.schemaName ∈ schemaNames sorted := by
      simp [schemaNames]
    have hshort : (∀ n ∈ (sorted ++ [form]).flatMap Form.numbers, n.isShort = true) ↔
        ∀ f ∈ sorted ++ [form], ∀ n ∈ f.numbers, n.isShort = true :=
      List.forall_mem_flatMap
    dsimp only
    constructor
    · intro h
      split at h
      · cases h
      · rename_i hname
        obtain ⟨hnumbers, rfl⟩ := writing_eq_ok.1 h
        exact ⟨sorted, rfl, mt hany.2 hname, hshort.1 hnumbers, rfl⟩
    · rintro ⟨_, heq, hname, hforms, rfl⟩
      cases heq
      rw [if_neg (mt hany.1 hname)]
      exact writing_eq_ok.2 ⟨hshort.2 hforms, rfl⟩

/-- Whenever a module is written, its declarations are those of the embedded schemas and of the
form, under different names, and every name of a schema of the module that a declaration writes is
that of a schema declared strictly before it; left aside are the name of the declaration itself
and, in the declaration of an embedded schema, that of the form. A circle of embedded schemas keeps
the module from being written. -/
theorem schemaFile_declared_before (form : Form) (embedded : List Form) (settings : Settings) :
    (∀ file, schemaFile form embedded settings = .ok file →
      ∃ sorted, sorted.Perm embedded ∧ (schemaNames (sorted ++ [form])).Nodup ∧
        file = moduleText settings (sorted ++ [form]) ∧
        ∀ before f after, sorted ++ [form] = before ++ f :: after →
          ∀ g ∈ sorted ++ [form], g.schemaName ∈ f.written →
            g ∈ before ∨ g = f ∨ (g = form ∧ f ∈ embedded)) ∧
    ∀ f, OnCircle embedded f → ∃ e, schemaFile form embedded settings = .error e ∧
      ((schemaNames embedded).Nodup → ∃ stuck, e = .circular stuck) := by
  constructor
  · intro file h
    obtain ⟨sorted, hsorted, hname, -, rfl⟩ := schemaFile_eq_ok_iff.1 h
    obtain ⟨hn, hplace⟩ := ordered_eq_ok hsorted
    have hperm := perm_of_ordered hsorted
    have hnodup := nodup_of_ordered hsorted hname
    refine ⟨sorted, hperm, hnodup, rfl, fun before f after heq g hg hwritten => ?_⟩
    have hfmem : f ∈ sorted ++ [form] := heq ▸ by simp
    by_cases hgf : g.schemaName = f.schemaName
    · exact .inr (.inl (List.inj_on_of_nodup_map hnodup hg hfmem hgf))
    rcases split_concat heq with ⟨rfl, rfl⟩ | ⟨after', rfl⟩
    -- The declaration is the last one: all others are before it.
    · exact (List.mem_append.1 hg).imp id fun hg => .inl (List.mem_singleton.1 hg)
    -- It is that of an embedded schema, placed after all that it needs.
    · have hf : f ∈ embedded := hperm.mem_iff.1 (by simp)
      rcases List.mem_append.1 hg with hg | hg
      · exact .inl (hplace.needs_before hn rfl
          ⟨hperm.mem_iff.1 hg, hgf, Form.refersTo_of_mem_written hwritten⟩)
      · exact .inr (.inr ⟨List.mem_singleton.1 hg, hf⟩)
  · intro f hf
    cases he : ordered embedded with
    | ok sorted => exact absurd ⟨f, hf⟩ (not_onCircle_of_ordered he)
    | error e => exact ⟨e, by rw [schemaFile, he], fun hn => (ordered_eq_error he hn).1⟩

/-! ## References that are left aside -/

/-- A field that stands for the schema with a name. -/
def referenceField (name schemaName : String) : Field :=
  ⟨name, name, none, false, false, {}, .object [], some schemaName⟩

/-- A form that refers to itself and to the form of a module. -/
def treeForm : Form :=
  ⟨⟨"Tree", "./s", "treeSchema"⟩,
    [referenceField "child" "treeSchema", referenceField "owner" "formSchema"], [], none⟩

/-- A form that refers to the one before. -/
def ownerForm : Form :=
  ⟨⟨"F", "./s", "formSchema"⟩, [referenceField "tree" "treeSchema"], [], none⟩

/-- The module of the two forms is written, though the first declaration writes its own name and
that of the second one, which writes the name of the first: neither is declared before. -/
theorem schemaFile_not_declared_before :
    schemaFile ownerForm [treeForm] {} = .ok (moduleText {} [treeForm, ownerForm]) ∧
      (treeForm.schemaName ∈ treeForm.written ∧ ownerForm.schemaName ∈ treeForm.written ∧
        treeForm.schemaName ∈ ownerForm.written) ∧
      ¬∀ before f after, [treeForm, ownerForm] = before ++ f :: after →
        ∀ g ∈ [treeForm, ownerForm], g.schemaName ∈ f.written → g ∈ before := by
  have hself : treeForm.schemaName ∈ treeForm.written := by decide
  refine ⟨schemaFile_eq_ok_iff.2 ⟨[treeForm], ordered_singleton treeForm, by decide, by decide, rfl⟩,
    ⟨hself, by decide, by decide⟩, fun h => ?_⟩
  exact List.not_mem_nil (h [] treeForm [ownerForm] rfl treeForm List.mem_cons_self hself)

end FormSchema
