import FormSchema.SchemaFile.Module

/-!
# References of fields

`Field.Within` says which fields lie at any depth below a field. The names that `Form.references`
collects are those of the schemas that such fields stand for (`Form.mem_references`), and the
collected names are sorted and each there once (`pairwise_sortedNames`).

Not every reference is written. A field that stands for a schema hides the fields below it, and
the member of a variant at the discriminator is written as a literal. `Field.written` lists the
names that the expression of a field writes; all of them are references (`Field.written_subset`).
-/

namespace FormSchema

/-! ## Sorted names -/

/-- Sorting loses no name and adds none. -/
theorem mem_sortedNames {names : List String} {name : String} :
    name ∈ sortedNames names ↔ name ∈ names := by
  rw [sortedNames, List.mem_eraseDups, List.mem_mergeSort]

/-- Sorted names increase once those that repeat are left out. -/
theorem pairwise_eraseDups : ∀ {names : List String}, names.Pairwise (· ≤ ·) →
    names.eraseDups.Pairwise (· < ·)
  | [], _ => by simp
  | a :: rest, h => by
    rw [List.pairwise_cons] at h
    rw [List.eraseDups_cons, List.pairwise_cons]
    refine ⟨fun b hb => ?_, pairwise_eraseDups (h.2.filter _)⟩
    rw [List.mem_eraseDups, List.mem_filter] at hb
    exact Std.lt_of_le_of_ne (h.1 b hb.1) (by simpa using Ne.symm (by simpa using hb.2))
termination_by names => names.length
decreasing_by exact Nat.lt_succ_of_le (List.length_filter_le _ _)

/-- Sorted names increase from each to the next. -/
theorem pairwise_sortedNames (names : List String) : (sortedNames names).Pairwise (· < ·) := by
  refine pairwise_eraseDups ?_
  have h : (names.mergeSort fun a b => decide (a ≤ b)).Pairwise fun a b => decide (a ≤ b) :=
    List.pairwise_mergeSort (fun a b c => by simpa using fun h h' => Std.le_trans h h')
      (fun a b => by simpa using Std.le_total) names
  exact h.imp fun h => by simpa using h

/-! ## Fields below a field -/

/-- The first field lies below the second one at some depth, or is the second one itself. -/
inductive Field.Within : Field → Field → Prop
  | self (f : Field) : f.Within f
  | deeper {d c f : Field} : c ∈ f.children → d.Within c → d.Within f

/-- What lies within an inner field lies within the outer one. -/
theorem Field.Within.trans {d g f : Field} (h : d.Within g) (hg : g.Within f) : d.Within f := by
  induction hg with
  | self => exact h
  | deeper hc _ ih => exact .deeper hc ih

/-- The property holds of a field as soon as it holds of those right below it. -/
def Ascends (P : Field → Prop) : Prop :=
  ∀ f : Field, (∀ c ∈ f.children, P c) → P f

mutual

/-- What holds of a field as soon as it holds of those right below it holds of every field. -/
theorem Field.of_ascends {P : Field → Prop} (h : Ascends P) : ∀ f : Field, P f
  | ⟨_, _, _, _, _, _, content, _⟩ => h _ (Content.of_ascends h content)

/-- What holds of a field once it holds of its children holds of the children of every content. -/
theorem Content.of_ascends {P : Field → Prop} (h : Ascends P) :
    ∀ content : Content, ∀ c ∈ content.children, P c
  | .object fields => fields_of_ascends h fields
  | .array element => by simpa [Content.children] using Field.of_ascends h element
  | .tuple elements => fields_of_ascends h elements
  | .record value => by simpa [Content.children] using Field.of_ascends h value
  | .union _ variants => fun c hc =>
    have ⟨v, hv, hmem⟩ := List.mem_flatMap.1 hc
    variants_of_ascends h variants v hv c hmem
  | .string | .number | .boolean | .date | .enum _ _ => fun _ hc => absurd hc List.not_mem_nil

theorem fields_of_ascends {P : Field → Prop} (h : Ascends P) : ∀ fields : List Field,
    ∀ f ∈ fields, P f
  | [] => by simp
  | f :: rest => List.forall_mem_cons.2 ⟨Field.of_ascends h f, fields_of_ascends h rest⟩

theorem variants_of_ascends {P : Field → Prop} (h : Ascends P) : ∀ variants : List Variant,
    ∀ v ∈ variants, ∀ f ∈ v.fields, P f
  | [] => by simp
  | ⟨_, fields⟩ :: rest =>
    List.forall_mem_cons.2 ⟨fields_of_ascends h fields, variants_of_ascends h rest⟩

end

/-- What a field with a property has as soon as those right below it have it, a field has if all
fields within it have the property. -/
@[elab_as_elim]
theorem Field.of_within {P Q : Field → Prop} (f : Field) (hf : ∀ g : Field, g.Within f → P g)
    (h : ∀ f : Field, P f → (∀ c ∈ f.children, Q c) → Q f) : Q f := by
  have hascends : Ascends fun f => (∀ g : Field, g.Within f → P g) → Q f := fun f ih hf =>
    h f (hf f (.self f)) fun c hc => ih c hc fun g hg => hf g (.deeper hc hg)
  exact Field.of_ascends hascends f hf

/-- A field at some depth of the form stands for the schema with the name. -/
def Form.RefersTo (f : Form) (name : String) : Prop :=
  ∃ root ∈ f.fields, ∃ d : Field, d.Within root ∧ givenName? d.reference = some name

/-- A field at some depth below one of the fields stands for the schema with the name. -/
def ReferredBelow (fields : List Field) (name : String) : Prop :=
  ∃ c ∈ fields, ∃ d : Field, d.Within c ∧ givenName? d.reference = some name

theorem referredBelow_nil (name : String) : ¬ReferredBelow [] name := by
  simp [ReferredBelow]

theorem referredBelow_append (a b : List Field) (name : String) :
    ReferredBelow (a ++ b) name ↔ ReferredBelow a name ∨ ReferredBelow b name := by
  simp [ReferredBelow, or_and_right, exists_or]

/-- A name is referred to below fields just if the first one or what is below it refers to it, or
the rest does. -/
theorem referredBelow_cons (f : Field) (rest : List Field) (name : String) :
    ReferredBelow (f :: rest) name ↔
      (givenName? f.reference = some name ∨ ReferredBelow f.children name) ∨
        ReferredBelow rest name := by
  refine (referredBelow_append [f] rest name).trans (or_congr_left ?_)
  constructor
  · rintro ⟨c, hc, d, hd, hr⟩
    rw [List.mem_singleton] at hc
    subst hc
    cases hd with
    | self => exact Or.inl hr
    | deeper hc hd => exact Or.inr ⟨_, hc, d, hd, hr⟩
  · rintro (hr | ⟨c, hc, d, hd, hr⟩)
    · exact ⟨f, List.mem_singleton_self f, f, .self f, hr⟩
    · exact ⟨f, List.mem_singleton_self f, d, .deeper hc hd, hr⟩

mutual

/-- The references of a field are the names that it or a field below it refers to. -/
theorem Field.mem_references (name : String) : ∀ f : Field,
    name ∈ f.references ↔
      givenName? f.reference = some name ∨ ReferredBelow f.children name
  | ⟨_, _, _, _, _, _, content, reference⟩ => by
    rw [Field.references, List.mem_append, Content.mem_references name content,
      Option.mem_toList]
    exact Iff.rfl

/-- The references of a content are the names that are referred to below it. -/
theorem Content.mem_references (name : String) : ∀ c : Content,
    name ∈ c.references ↔ ReferredBelow c.children name
  | .object fields => mem_allReferences name fields
  | .array element => by
    rw [Content.references, Field.mem_references name element]
    simp [Content.children, referredBelow_cons, referredBelow_nil]
  | .tuple elements => mem_allReferences name elements
  | .record value => by
    rw [Content.references, Field.mem_references name value]
    simp [Content.children, referredBelow_cons, referredBelow_nil]
  | .union _ variants => mem_variantReferences name variants
  | .string | .number | .boolean | .date | .enum _ _ => by
    simp [Content.references, Content.children, referredBelow_nil]

/-- The references of fields are the names that are referred to in or below them. -/
theorem mem_allReferences (name : String) : ∀ fields : List Field,
    name ∈ allReferences fields ↔ ReferredBelow fields name
  | [] => by simp [allReferences, referredBelow_nil]
  | f :: rest => by
    rw [allReferences, List.mem_append, Field.mem_references name f,
      mem_allReferences name rest, referredBelow_cons]

/-- The references of variants are the names that are referred to in or below their fields. -/
theorem mem_variantReferences (name : String) : ∀ variants : List Variant,
    name ∈ variantReferences variants ↔ ReferredBelow (variants.flatMap Variant.fields) name
  | [] => by simp [variantReferences, referredBelow_nil]
  | ⟨_, fields⟩ :: rest => by
    rw [variantReferences, List.mem_append, mem_allReferences name fields,
      mem_variantReferences name rest, List.flatMap_cons, referredBelow_append]

end

/-- The collected references of a form are those of its fields at every depth. -/
theorem Form.mem_references (f : Form) (name : String) :
    name ∈ f.references ↔ f.RefersTo name := by
  rw [Form.references, mem_sortedNames, mem_allReferences]
  rfl

/-! ## References that are written -/

mutual

/-- The names of schemas that the expression of a field writes. -/
def Field.written : Field → List String
  | ⟨_, _, _, _, _, _, content, reference⟩ =>
    match givenName? reference with
    | some name => [name]
    | none => content.written

/-- The names that the expression of a content writes. -/
def Content.written : Content → List String
  | .object fields => membersWritten fields
  | .array element => element.written
  | .tuple elements => membersWritten elements
  | .record value => value.written
  | .union (some key) variants => taggedWritten key variants
  | .union none variants => optionsWritten variants
  | _ => []

/-- The names that the expressions of fields write. -/
def membersWritten : List Field → List String
  | [] => []
  | f :: rest => f.written ++ membersWritten rest

/-- The names that the members of a variant write, the one at the discriminator apart. -/
def othersWritten (discriminator : String) : List Field → List String
  | [] => []
  | f :: rest =>
    (if f.name == discriminator then [] else f.written) ++ othersWritten discriminator rest

/-- The names that variants with a discriminator write. -/
def taggedWritten (discriminator : String) : List Variant → List String
  | [] => []
  | ⟨_, fields⟩ :: rest => othersWritten discriminator fields ++ taggedWritten discriminator rest

/-- The names that variants without a discriminator write. -/
def optionsWritten : List Variant → List String
  | [] => []
  | ⟨_, fields⟩ :: rest => membersWritten fields ++ optionsWritten rest

end

theorem append_subset_append {a b c d : List String} (h : a ⊆ c) (h' : b ⊆ d) :
    a ++ b ⊆ c ++ d :=
  List.append_subset.2
    ⟨List.subset_append_of_subset_left _ h, List.subset_append_of_subset_right _ h'⟩

mutual

/-- A field writes no name that it does not refer to. -/
theorem Field.written_subset : ∀ f : Field, f.written ⊆ f.references
  | ⟨_, _, _, _, _, _, content, reference⟩ => by
    rw [Field.written, Field.references]
    cases givenName? reference with
    | some name => exact List.subset_append_left [name] _
    | none => simpa using Content.written_subset content

/-- Only names that are referred to are written. -/
theorem Content.written_subset : ∀ c : Content, c.written ⊆ c.references
  | .object fields => membersWritten_subset fields
  | .array element => Field.written_subset element
  | .tuple elements => membersWritten_subset elements
  | .record value => Field.written_subset value
  | .union (some key) variants => taggedWritten_subset key variants
  | .union none variants => optionsWritten_subset variants
  | .string | .number | .boolean | .date | .enum _ _ => List.nil_subset _

/-- Members write only names that are referred to. -/
theorem membersWritten_subset : ∀ fields : List Field,
    membersWritten fields ⊆ allReferences fields
  | [] => List.nil_subset _
  | f :: rest => by
    rw [membersWritten, allReferences]
    exact append_subset_append (Field.written_subset f) (membersWritten_subset rest)

theorem othersWritten_subset (discriminator : String) : ∀ fields : List Field,
    othersWritten discriminator fields ⊆ allReferences fields
  | [] => List.nil_subset _
  | f :: rest => by
    rw [othersWritten, allReferences]
    refine append_subset_append ?_ (othersWritten_subset discriminator rest)
    split
    · exact List.nil_subset _
    · exact Field.written_subset f

/-- Tagged variants write only names that are referred to. -/
theorem taggedWritten_subset (discriminator : String) : ∀ variants : List Variant,
    taggedWritten discriminator variants ⊆ variantReferences variants
  | [] => List.nil_subset _
  | ⟨_, fields⟩ :: rest => by
    rw [taggedWritten, variantReferences]
    exact append_subset_append (othersWritten_subset discriminator fields)
      (taggedWritten_subset discriminator rest)

/-- Options write only names that are referred to. -/
theorem optionsWritten_subset : ∀ variants : List Variant,
    optionsWritten variants ⊆ variantReferences variants
  | [] => List.nil_subset _
  | ⟨_, fields⟩ :: rest => by
    rw [optionsWritten, variantReferences]
    exact append_subset_append (membersWritten_subset fields) (optionsWritten_subset rest)

end

/-- The names of schemas that the declaration of a form writes. -/
def Form.written (f : Form) : List String :=
  membersWritten f.fields

/-- A declaration writes no name that the form does not refer to. -/
theorem Form.refersTo_of_mem_written {f : Form} {name : String} (h : name ∈ f.written) :
    f.RefersTo name :=
  (mem_allReferences name f.fields).1 (membersWritten_subset f.fields h)

end FormSchema
