import FormSchema.Proofs.ModuleOrder
import FormSchema.Proofs.RoundTrip

/-!
# Modules are read with their references

A module declares several schemas, and a field that stands for one of them is written as its name.
Since schemas are declared before they are used, every name is known where it is read: the module
is run declaration by declaration, and each constant is the node of its form in which the names
are bound to the nodes declared before (`runs_declarations`).

So a module of linked forms is read as it was written (`schemas_schemaFile`): its names are those
of the embedded schemas in their order, followed by that of the form, and wherever a field stands
for a schema, the node declared under this name is read.
-/

namespace FormSchema

/-! ## Linked forms -/

mutual

/-- The field without the names that it and the fields below it stand for. -/
def Field.unlinked : Field → Field
  | ⟨name, label, description, isOptional, isNullable, constraints, content, _⟩ =>
    ⟨name, label, description, isOptional, isNullable, constraints, content.unlinked, none⟩

/-- The content without the names that the fields below it stand for. -/
def Content.unlinked : Content → Content
  | .object fields => .object (unlinkedFields fields)
  | .array element => .array element.unlinked
  | .tuple elements => .tuple (unlinkedFields elements)
  | .record value => .record value.unlinked
  | .union discriminator variants => .union discriminator (unlinkedVariants variants)
  | content => content

/-- The fields without the names that they stand for. -/
def unlinkedFields : List Field → List Field
  | [] => []
  | f :: rest => f.unlinked :: unlinkedFields rest

/-- The variants without the names that the fields of them stand for. -/
def unlinkedVariants : List Variant → List Variant
  | [] => []
  | ⟨tag, fields⟩ :: rest => ⟨tag, unlinkedFields fields⟩ :: unlinkedVariants rest

end

theorem mem_unlinkedFields {f : Field} : ∀ {fields : List Field}, f ∈ fields →
    f.unlinked ∈ unlinkedFields fields
  | g :: rest, h => by
    rw [unlinkedFields, List.mem_cons]
    exact (List.mem_cons.1 h).imp (congrArg Field.unlinked) mem_unlinkedFields

theorem mem_unlinkedVariants {f : Field} : ∀ {variants : List Variant},
    f ∈ variants.flatMap Variant.fields →
      f.unlinked ∈ (unlinkedVariants variants).flatMap Variant.fields
  | ⟨tag, fields⟩ :: rest, h => by
    rw [unlinkedVariants, List.flatMap_cons, List.mem_append]
    rw [List.flatMap_cons, List.mem_append] at h
    exact h.imp mem_unlinkedFields mem_unlinkedVariants

theorem Content.mem_children_unlinked {f : Field} {content : Content} (h : f ∈ content.children) :
    f.unlinked ∈ content.unlinked.children := by
  cases content with
  | object fields => exact mem_unlinkedFields h
  | array element =>
    obtain rfl := List.mem_singleton.1 h
    exact List.mem_singleton_self _
  | tuple elements => exact mem_unlinkedFields h
  | record value =>
    obtain rfl := List.mem_singleton.1 h
    exact List.mem_singleton_self _
  | union discriminator variants => exact mem_unlinkedVariants h
  | string | number | boolean | date | enum => cases h

theorem Field.unlinked_content (f : Field) : f.unlinked.content = f.content.unlinked := by
  obtain ⟨_, _, _, _, _, _, content, _⟩ := f
  rfl

theorem Field.unlinked_constraints (f : Field) : f.unlinked.constraints = f.constraints := by
  obtain ⟨_, _, _, _, _, constraints, _, _⟩ := f
  rfl

theorem Field.Within.unlinked {g f : Field} (h : g.Within f) : g.unlinked.Within f.unlinked := by
  induction h with
  | self => exact .self _
  | @deeper c f hc _ ih =>
    have hchild : c.unlinked ∈ f.unlinked.children := by
      rw [Field.children, Field.unlinked_content]
      exact Content.mem_children_unlinked hc
    exact .deeper hchild ih

/-- The literals of a field are the same without names. -/
theorem Field.hasReadableLiterals_of_unlinked {f : Field} (h : f.unlinked.HasReadableLiterals) :
    f.HasReadableLiterals := by
  have hnumbers (content : Content) (c : Constraints) :
      content.unlinked.numbers c = content.numbers c := by cases content <;> rfl
  have hpattern (content : Content) (c : Constraints) :
      content.unlinked.pattern? c = content.pattern? c := by cases content <;> rfl
  constructor
  · simpa [Field.unlinked_content, Field.unlinked_constraints, hnumbers] using h.numbers
  · simpa [Field.unlinked_content, Field.unlinked_constraints, hpattern] using h.pattern

/-- Without its names the form is that of a restorable schema. -/
def Form.IsRestorable (f : Form) : Prop :=
  ∃ (schema : Value) (steps : Datum) (bare : Form), BuiltFrom (fun _ => True) schema ∧
    schema.AllRestorable ∧ introspect schema f.naming steps = .ok bare ∧
      unlinkedFields f.fields = bare.fields

/-- The fields of the form stand for none but the named schemas, and not for that of the form. -/
def Form.LinksTo (names : List String) (f : Form) : Prop :=
  ∀ name, f.RefersTo name → name ∈ names ∧ name ≠ f.schemaName

/-- The words that stand for a value of their own. -/
def reservedWords : List String :=
  ["z", "true", "false", "null", "undefined"]

/-- The name is an ASCII identifier that is not reserved. -/
structure IsFreeName (name : String) : Prop where
  isIdentifier : Text.isIdentifier name.toList = true
  notReserved : name ∉ reservedWords

theorem Form.IsRestorable.hasReadableLiterals {f : Form} (h : f.IsRestorable) {root g : Field}
    (hroot : root ∈ f.fields) (hg : g.Within root) : g.HasReadableLiterals := by
  obtain ⟨schema, steps, bare, hbuilt, hnodes, hbare, hfields⟩ := h
  obtain ⟨-, hregular⟩ := introspect_isRegular hbuilt hnodes hbare
  have hreadable := (hregular _ (hfields ▸ mem_unlinkedFields hroot) _ hg.unlinked).isReadable
  exact Field.hasReadableLiterals_of_unlinked ⟨hreadable.numbers, hreadable.pattern⟩

/-! ## Forms that refer back -/

/-- Each form refers to schemas before it only. -/
def ReferBack (forms : List Form) : Prop :=
  ∀ before f after, forms = before ++ f :: after →
    ∀ name, f.RefersTo name → name ∈ schemaNames before

theorem ReferBack.of_append {forms more : List Form} (h : ReferBack (forms ++ more)) :
    ReferBack forms := by
  rintro before f after rfl
  exact h before f (after ++ more) (by simp)

/-- The schemas of a module refer back, if they refer to embedded schemas only. -/
theorem referBack_of_ordered {form : Form} {embedded sorted : List Form}
    (h : ordered embedded = .ok sorted)
    (hlinks : ∀ f ∈ sorted ++ [form], f.LinksTo (schemaNames embedded)) :
    ReferBack (sorted ++ [form]) := by
  obtain ⟨hn, hplace⟩ := ordered_eq_ok h
  intro before f after heq name hname
  obtain ⟨hmem, hne⟩ := hlinks f (heq ▸ by simp) name hname
  obtain ⟨g, hg, rfl⟩ := List.mem_map.1 hmem
  rcases split_concat heq with ⟨rfl, -⟩ | ⟨after', hsplit⟩
  · exact List.mem_map_of_mem ((perm_of_ordered h).mem_iff.2 hg)
  · exact List.mem_map_of_mem (hplace.needs_before hn hsplit ⟨hg, hne, hname⟩)

/-! ## Declared nodes -/

/-- The node of a form depends on the names that its fields stand for only. -/
theorem Form.nodeIn_congr {named named' : String → Option Node} {f : Form}
    (h : ∀ name, f.RefersTo name → named name = named' name) : f.nodeIn named = f.nodeIn named' := by
  rw [Form.nodeIn, Form.nodeIn, membersIn_congr f.fields fun root hroot g hg name hname =>
    h name ⟨root, hroot, g, hg.within, hname⟩]

namespace Source

/-- What a text declares that declares these nodes. -/
def nodeEntries (declared : List (String × Node)) : List (String × Value) :=
  declared.map fun (name, n) => (name, .node n)

theorem nodesOf_nodeEntries (declared : List (String × Node)) :
    nodesOf (nodeEntries declared) = declared := by
  simp [nodesOf, nodeEntries, List.filterMap_map, Value.node?]

theorem lookup_nodeEntries (declared : List (String × Node)) (name : String) :
    (nodeEntries declared).lookup name = (declared.lookup name).map .node := by
  induction declared with
  | nil => rfl
  | cons entry rest ih =>
    obtain ⟨key, n⟩ := entry
    rw [nodeEntries] at ih
    rw [nodeEntries, List.map_cons, lookup_entry, lookup_entry, ih]
    split <;> rfl

variable {finish : Position} {declared : List (String × Node)} {name : String}

/-- A free name means the node that is declared under it. -/
theorem means_declared {n : Node} (hname : IsFreeName name) (h : declared.lookup name = some n) :
    Means ⟨nodeEntries declared, finish⟩ Stops name (.node n) := by
  have hlookup : Scope.lookup ⟨nodeEntries declared, finish⟩ name = some (.node n) := by
    rw [Scope.lookup, lookup_nodeEntries, h]
    rfl
  refine means_word (isWord_of_isIdentifier hname.isIdentifier) ?_
  have hreserved := hname.notReserved
  simp only [reservedWords, List.mem_cons, not_or] at hreserved
  unfold wordValue?
  split <;> simp_all

/-- What is declared later does not change the node of a form. -/
theorem nodeIn_append {f : Form} (h : ∀ name, f.RefersTo name → name ∈ declared.map Prod.fst)
    (more : List (String × Node)) :
    f.nodeIn ((declared ++ more).lookup ·) = f.nodeIn (declared.lookup ·) :=
  Form.nodeIn_congr fun name hname => lookup_append_of_mem (h name hname) more

/-- The constructors are known as long as no declaration takes their name. -/
theorem lookup_constructors (h : "z" ∉ declared.map Prod.fst) :
    Scope.lookup ⟨nodeEntries declared, finish⟩ "z" = some .constructors := by
  rw [Scope.lookup, lookup_nodeEntries, lookup_eq_none h]
  rfl

/-- A declaration with a new name comes behind the others. -/
theorem declare_nodeEntries (h : name ∉ declared.map Prod.fst) (n : Node) :
    Scope.declare ⟨nodeEntries declared, finish⟩ name (.node n) =
      ⟨nodeEntries (declared ++ [(name, n)]), finish⟩ := by
  have hkeys : (nodeEntries declared).map Prod.fst = declared.map Prod.fst := by
    simp [nodeEntries, Function.comp_def]
  rw [Scope.declare, putEntry_of_not_mem (by rwa [hkeys]), nodeEntries, nodeEntries, List.map_append]
  rfl

/-! ## Declarations -/

/-- The declaration of a form that refers to declared nodes declares the node of the form. -/
theorem runs_declarationText {f : Form} (hdeclared : ∀ name ∈ declared.map Prod.fst, IsFreeName name)
    (hnew : f.schemaName ∉ declared.map Prod.fst) (hfree : IsFreeName f.schemaName)
    (hform : f.IsRestorable) (hknown : ∀ name, f.RefersTo name → name ∈ declared.map Prod.fst) :
    Runs ⟨nodeEntries declared, finish⟩ (declarationText f)
      ⟨nodeEntries (declared ++ [(f.schemaName, f.nodeIn (declared.lookup ·))]), finish⟩ := by
  have hz : "z" ∉ declared.map Prod.fst := fun hmem =>
    (hdeclared "z" hmem).notReserved List.mem_cons_self
  have hmeans : Means ⟨nodeEntries declared, finish⟩ Stops (constantText f)
      (.node (f.nodeIn (declared.lookup ·))) := by
    refine means_constantTextIn (lookup_constructors hz) fun root hroot g hg => ⟨?_, ?_⟩
    · intro name hname
      have hmem := hknown name ⟨root, hroot, g, hg.within, hname⟩
      obtain ⟨n, hn⟩ := exists_lookup hmem
      exact ⟨n, hn, means_declared (hdeclared name hmem) hn⟩
    · exact hform.hasReadableLiterals hroot hg.within
  rw [← declare_nodeEntries hnew]
  exact runs_declaration (isWord_of_isIdentifier hfree.isIdentifier)
    (isWord_of_isIdentifier (isIdentifier_typeName hfree.isIdentifier)) hmeans

variable {forms : List Form}

/-- The declarations of forms that refer back are run one after the other. Each declares the node
of its form, in which the names are bound to the nodes that are declared. -/
theorem runs_declarations (hnodup : (schemaNames forms).Nodup)
    (hfree : ∀ f ∈ forms, IsFreeName f.schemaName) (hforms : ∀ f ∈ forms, f.IsRestorable)
    (hback : ReferBack forms) :
    ∃ declared : List (String × Node), declared.map Prod.fst = schemaNames forms ∧
      (∀ f ∈ forms, declared.lookup f.schemaName = some (f.nodeIn (declared.lookup ·))) ∧
        ∀ finish, Runs ⟨[], finish⟩ (forms.flatMap declarationText)
          ⟨nodeEntries declared, finish⟩ := by
  induction forms using List.reverseRecOn with
  | nil => exact ⟨[], rfl, by simp, fun _ => runs_nil⟩
  | append_singleton before f ih =>
    simp only [schemaNames, List.map_append, List.map_cons, List.map_nil, List.nodup_append,
      List.forall_mem_append, List.forall_mem_singleton] at hnodup hfree hforms
    obtain ⟨declared, hkeys, hnodes, hruns⟩ := ih hnodup.1 hfree.1 hforms.1 hback.of_append
    have hnew : f.schemaName ∉ declared.map Prod.fst := by
      rw [hkeys]
      exact fun hmem => hnodup.2.2 _ hmem rfl
    have hdeclared : ∀ name ∈ declared.map Prod.fst, IsFreeName name := by
      rw [hkeys]
      exact List.forall_mem_map.2 hfree.1
    have hlast : ∀ name, f.RefersTo name → name ∈ declared.map Prod.fst := by
      rw [hkeys]
      exact hback before f [] rfl
    let more := [(f.schemaName, f.nodeIn (declared.lookup ·))]
    refine ⟨declared ++ more, by simp [hkeys, more], ?_, ?_⟩
    -- The nodes that are declared stay what they are, since they refer to those before them.
    · rw [List.forall_mem_append, List.forall_mem_singleton]
      constructor
      · intro g hg
        obtain ⟨front, back, hsplit⟩ := List.append_of_mem hg
        have hrefers : ∀ name, g.RefersTo name → name ∈ declared.map Prod.fst := by
          rw [hkeys, hsplit]
          exact fun name hname => List.map_subset _ (List.subset_append_left front _)
            (hback.of_append front g back hsplit name hname)
        rw [nodeIn_append hrefers, lookup_append_of_mem (hkeys ▸ List.mem_map_of_mem hg),
          hnodes g hg]
      · rw [nodeIn_append hlast, List.lookup_append, lookup_eq_none hnew]
        simp [more]
    · intro finish
      rw [List.flatMap_append, List.flatMap_singleton]
      exact (hruns finish).append (runs_declarationText hdeclared hnew hfree.2 hforms.2 hlast)

/-! ## Modules -/

theorem moduleText_toList {settings : Settings} (h : settings.HasPlainImport) (forms : List Form) :
    (moduleText settings forms).toList = ("import \x7b z \x7d from ".toList ++
      ((Text.quoted settings.schemaImportPath).toList ++ [';'])) ++
        '\n' :: forms.flatMap declarationText := by
  have hdeclarations : (forms.flatMap fun f => f.declaration ++ [""]).flatMap
      (fun line => '\n' :: line.toList) = forms.flatMap declarationText := by
    rw [List.flatMap_assoc]
    exact List.flatMap_congr fun f _ => declaration_toList f
  rw [moduleText, List.cons_append, List.cons_append, List.nil_append, lines_toList,
    constructorImport_toList h, List.flatMap_cons, hdeclarations]
  rfl

/-- A module of forms that refer back is read as the nodes of the forms, under their names. -/
theorem schemas_moduleText {settings : Settings} (hsettings : settings.HasPlainImport)
    (hnodup : (schemaNames forms).Nodup) (hfree : ∀ f ∈ forms, IsFreeName f.schemaName)
    (hforms : ∀ f ∈ forms, f.IsRestorable) (hback : ReferBack forms) :
    ∃ declared : List (String × Node), schemas (moduleText settings forms) = .ok declared ∧
      declared.map Prod.fst = schemaNames forms ∧
        ∀ f ∈ forms, declared.lookup f.schemaName = some (f.nodeIn (declared.lookup ·)) := by
  obtain ⟨declared, hkeys, hnodes, hruns⟩ := runs_declarations hnodup hfree hforms hback
  refine ⟨declared, ?_, hkeys, hnodes⟩
  have hdeclarations : declarations (moduleText settings forms) = .ok (nodeEntries declared) := by
    refine declarations_of_runs fun finish => ?_
    rw [moduleText_toList hsettings]
    exact (runs_import _).append (runs_lineFeed.append (hruns finish))
  rw [schemas, hdeclarations]
  exact congrArg Except.ok (nodesOf_nodeEntries declared)

end Source

/-- A module of linked forms that is written is read. Declared are the embedded schemas in their
order and then that of the form, each under its name as the node of its form, and every field that
stands for a schema is read as the node declared under that name. -/
theorem schemas_schemaFile {form : Form} {embedded : List Form} {settings : Settings}
    {file : String} (hfree : ∀ f ∈ embedded ++ [form], IsFreeName f.schemaName)
    (hforms : ∀ f ∈ embedded ++ [form], f.IsRestorable)
    (hlinks : ∀ f ∈ embedded ++ [form], f.LinksTo (schemaNames embedded))
    (hsettings : settings.HasPlainImport) (hfile : schemaFile form embedded settings = .ok file) :
    ∃ sorted declared, ordered embedded = .ok sorted ∧ Source.schemas file = .ok declared ∧
      declared.map Prod.fst = schemaNames sorted ++ [form.schemaName] ∧
      ∀ f ∈ sorted ++ [form],
        declared.lookup f.schemaName = some (f.nodeIn (declared.lookup ·)) ∧
        ∀ root ∈ f.fields, ∀ g : Field, g.Within root → ∀ name ∈ givenName? g.reference,
          declared.lookup name = some (g.nodeIn (declared.lookup ·)) := by
  obtain ⟨sorted, hsorted, hname, -, rfl⟩ := schemaFile_eq_ok_iff.1 hfile
  have hmem : ∀ f ∈ sorted ++ [form], f ∈ embedded ++ [form] := fun f hf =>
    ((perm_of_ordered hsorted).append_right [form]).mem_iff.1 hf
  have hback : ReferBack (sorted ++ [form]) :=
    referBack_of_ordered hsorted fun f hf => hlinks f (hmem f hf)
  obtain ⟨declared, hread, hkeys, hnodes⟩ := Source.schemas_moduleText hsettings
    (nodup_of_ordered hsorted hname) (fun f hf => hfree f (hmem f hf))
    (fun f hf => hforms f (hmem f hf)) hback
  refine ⟨sorted, declared, hsorted, hread, by simpa using hkeys, fun f hf => ?_⟩
  refine ⟨hnodes f hf, fun root hroot g hg name hgiven => ?_⟩
  have hlink := hlinks f (hmem f hf) name ⟨root, hroot, g, hg, hgiven⟩
  have hkey : name ∈ declared.map Prod.fst := by
    rw [hkeys]
    exact List.map_subset _ (List.subset_append_left sorted [form])
      (((perm_of_ordered hsorted).map _).mem_iff.2 hlink.1)
  obtain ⟨n, hn⟩ := exists_lookup hkey
  rw [Field.nodeIn_of_known hgiven hn, hn]

/-! ## A person with an address -/

/-- The object of a person with an address. -/
def personObject : Value :=
  .node (.plain (.object [("home", longTextObject)]))

/-- The field of the address. -/
def homeField (reference : Option String) : Field :=
  ⟨"home", "Home", none, false, false, {}, .object (longTextForm "").fields, reference⟩

/-- The form of a person whose address stands for a schema of its own. -/
def personForm (reference : Option String) : Form :=
  ⟨⟨"Person", "./s", "personSchema"⟩, [homeField reference], [], none⟩

theorem introspect_personObject :
    introspect personObject ⟨"Person", "./s", "personSchema"⟩ .null = .ok (personForm none) := by
  obtain ⟨hkeys, hregular⟩ := introspect_isRegular builtFrom_longTextObject
    allRestorable_longTextObject (introspect_longTextObject "")
  have hhome : (homeField none).IsRegular :=
    ⟨rfl, by cbv, by rintro _ ⟨⟩, rfl, by rintro _ ⟨⟩, by rintro _ ⟨⟩, hkeys⟩
  have hall : ∀ root ∈ [homeField none], ∀ g : Field, g.Within root → g.IsRegular := by
    rw [List.forall_mem_singleton]
    intro g hg
    obtain - | ⟨hc, hg⟩ := hg
    · exact hhome
    · exact hregular _ hc g hg
  exact introspect_objectNode ⟨by simp [homeField], by simp [homeField]; decide⟩ hall _

/-- The module of the two forms is read: the address of a person is the node of addresses. -/
theorem schemas_schemaFile_person : ∃ file declared n,
    schemaFile (personForm (some "addressSchema")) [longTextForm "addressSchema"] {} = .ok file ∧
      Source.schemas file = .ok declared ∧
      declared.map Prod.fst = ["addressSchema", "personSchema"] ∧
      declared.lookup "addressSchema" = some n ∧
      declared.lookup "personSchema" = some (.plain (.object [("home", .node n)])) := by
  let address := longTextForm "addressSchema"
  let person := personForm (some "addressSchema")
  have hordered : ordered [address] = .ok [address] := ordered_singleton address
  have hfile : schemaFile person [address] {} = .ok (moduleText {} [address, person]) :=
    schemaFile_eq_ok_iff.2 ⟨[address], hordered, by decide, by decide, rfl⟩
  have hfree : ∀ f ∈ [address] ++ [person], IsFreeName f.schemaName := by
    simpa [address, person] using ⟨⟨by decide, by decide⟩, by decide, by decide⟩
  have hforms : ∀ f ∈ [address] ++ [person], f.IsRestorable := by
    have haddress : address.IsRestorable := ⟨_, _, _, builtFrom_longTextObject,
      allRestorable_longTextObject, introspect_longTextObject "addressSchema", rfl⟩
    have hperson : person.IsRestorable := ⟨_, _, _, builtFrom_object builtFrom_longTextObject,
      allRestorable_object (by decide) allRestorable_longTextObject, introspect_personObject, rfl⟩
    simpa using ⟨haddress, hperson⟩
  have hlinks : ∀ f ∈ [address] ++ [person], f.LinksTo (schemaNames [address]) := by
    have hall : ∀ f ∈ [address] ++ [person], ∀ name ∈ allReferences f.fields,
        name ∈ schemaNames [address] ∧ name ≠ f.schemaName := by decide
    exact fun f hf name hname => hall f hf name ((mem_allReferences name f.fields).2 hname)
  obtain ⟨sorted, declared, hsorted, hread, hkeys, hnodes⟩ :=
    schemas_schemaFile hfree hforms hlinks hasPlainImport_default hfile
  obtain rfl : sorted = [address] := by simpa [hordered] using hsorted.symm
  obtain ⟨haddress, -⟩ := hnodes address (by simp)
  obtain ⟨hperson, hhome⟩ := hnodes person (by simp)
  have hbound := hhome _ (List.mem_singleton_self _) _ (.self _) "addressSchema" rfl
  refine ⟨_, declared, address.nodeIn (declared.lookup ·), hfile, hread, hkeys, haddress, ?_⟩
  have hsame := Option.some.inj (haddress.symm.trans hbound)
  rw [show "personSchema" = person.schemaName from rfl, hperson, hsame]
  rfl

end FormSchema
