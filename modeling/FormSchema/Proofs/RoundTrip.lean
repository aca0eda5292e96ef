import Mathlib
import FormSchema.Proofs.Regularity
import FormSchema.Proofs.Settling
import FormSchema.Proofs.TypeNames

/-!
# The round trip of a schema

A schema that is built with the constructors and the methods, and whose nodes are restorable, goes
through a schema file without loss: the file of its form is read, and the form of what is read has
the same fields and no warnings (`introspect_schemaFile`). The name of the schema and that of its
type have to be words. A word whose type is none is `ǰ`; the file of such a schema is not read
(`not_schema_schemaFile_caron`).
-/

namespace FormSchema

open Text (isBasic)

/-- The form of a restorable schema has regular fields at every depth, under names that differ. -/
theorem introspect_isRegular {schema : Value} {naming : Naming} {steps : Datum} {form : Form}
    (hbuilt : BuiltFrom (fun _ => True) schema) (hnodes : schema.AllRestorable)
    (hform : introspect schema naming steps = .ok form) :
    AreKeys (form.fields.map Field.name) ∧
      ∀ root ∈ form.fields, ∀ g : Field, g.Within root → g.IsRegular := by
  have hsound : schema.AllSound fun _ => True := hbuilt.allSound
  obtain ⟨shape, hshape, hfields, -⟩ := fieldsOf_of_introspect hform
  constructor
  · rw [fieldsOf_names hfields]
    exact areKeys_of_shape hsound hnodes hshape
  · exact fun root hroot g hg =>
      isRegular_of_comesFrom hsound hnodes (introspect_comesFrom hform root hroot g hg)

/-- Fields that are regular at every depth are readable. -/
theorem isReadable_of_isRegular {form : Form}
    (h : ∀ root ∈ form.fields, ∀ g : Field, g.Within root → g.IsRegular) : form.IsReadable :=
  fun root hroot g hg => (h root hroot g hg.within).isReadable

/-- The schema file of a form gives back the fields of the form, without a warning. -/
theorem introspect_schemaFile {schema : Value} {naming : Naming} {steps : Datum} {form : Form}
    {settings : Settings} (hbuilt : BuiltFrom (fun _ => True) schema)
    (hnodes : schema.AllRestorable) (hform : introspect schema naming steps = .ok form)
    (hname : Source.isWord naming.exportName.toList = true)
    (htype : Source.isWord (Text.typeName naming.exportName).toList = true)
    (hsettings : settings.HasPlainImport) :
    ∃ file n, schemaFile form [] settings = .ok file ∧
      Source.schema file naming.exportName = .ok n ∧
        introspect (.node n) naming .null = .ok ⟨naming, form.fields, [], none⟩ := by
  obtain ⟨hkeys, hregular⟩ := introspect_isRegular hbuilt hnodes hform
  obtain ⟨shape, -, -, hnaming⟩ := fieldsOf_of_introspect hform
  have hexport : form.schemaName = naming.exportName := by rw [Form.schemaName, hnaming]
  rw [← hexport] at hname htype ⊢
  obtain ⟨file, hfile, hread⟩ :=
    Source.schema_schemaFile hsettings hname htype (isReadable_of_isRegular hregular)
  exact ⟨file, form.node, hfile, hread, introspect_objectNode hkeys hregular naming⟩

/-! ## A text of two characters -/

/-- The node of a text with at least two characters. -/
def longText : Node :=
  (Node.plain (.string none)).withCheck (.minLength (some (.int 2)))

/-- The object of such a text. -/
def longTextObject : Value :=
  .node (.plain (.object [("a", .node longText)]))

/-- An object with one member is built from the node of the member. -/
theorem builtFrom_object {P : Number → Prop} {name : String} {n : Node}
    (h : BuiltFrom P (.node n)) : BuiltFrom P (.node (.plain (.object [(name, .node n)]))) := by
  have hobject : Builder.object.call [.record [(name, .node n)]] =
      .ok (.node (.plain (.object [(name, .node n)]))) := rfl
  have hrecord : BuiltFrom P (.record [(name, .node n)]) := .record (by simp) (by simpa using h)
  exact .construct (by simpa using hrecord) hobject

theorem allRestorable_object {name : String} {v : Value} (hname : isBasic name = true)
    (h : v.AllRestorable) : (Value.node (.plain (.object [(name, v)]))).AllRestorable := by
  have hobject : (Node.plain (.object [(name, v)])).IsRestorable := by
    refine ⟨by rintro _ ⟨⟩, by rintro _ ⟨⟩, ?_, by rintro _ ⟨⟩, by rintro _ ⟨⟩, by rintro _ _ ⟨⟩⟩
    intro key hkey
    obtain rfl := List.mem_singleton.1 hkey
    exact hname
  exact forall_inside_node hobject (List.forall_mem_singleton.2 h)

theorem builtFrom_longTextObject : BuiltFrom (fun _ => True) longTextObject := by
  have hstring : Builder.string.call [] = .ok (.node (.plain (.string none))) := rfl
  have hmin : Method.min.call (.plain (.string none)) [.number (.int 2)] =
      .ok (.node longText) := rfl
  have hplain : BuiltFrom (fun _ => True) (.node (.plain (.string none))) :=
    .construct (by simp) hstring
  have htext : BuiltFrom (fun _ => True) (.node longText) :=
    .call hplain rfl (by simpa using .number trivial) hmin
  exact builtFrom_object htext

theorem allRestorable_longTextObject : longTextObject.AllRestorable := by
  have htext : longText.IsRestorable := by
    refine ⟨by rintro _ ⟨⟩, ?_, by rintro _ ⟨⟩, by rintro _ ⟨⟩, by rintro _ ⟨⟩, by rintro _ _ ⟨⟩⟩
    intro c hc
    obtain rfl := List.mem_singleton.1 hc
    refine ⟨?_, by rintro _ ⟨⟩, .inr (.inl rfl), by rintro _ ⟨⟩⟩
    rintro _ ⟨⟩
    exact ⟨2, rfl, small_isBounded (by decide)⟩
  exact allRestorable_object (by decide) (forall_inside_node htext (by rintro _ ⟨⟩))

/-- The form of such an object. -/
def longTextForm (name : String) : Form :=
  ⟨⟨"F", "./s", name⟩, [⟨"a", "A", none, false, false, { minLength := some 2 }, .string, none⟩], [],
    none⟩

theorem introspect_longTextObject (name : String) :
    introspect longTextObject ⟨"F", "./s", name⟩ .null = .ok (longTextForm name) := by
  have hpeel : (Value.node longText).peel = .ok ⟨longText, false, false, .null⟩ :=
    peel_of_unwrap (unwrap_of_isCore rfl) rfl
  have hfield (path : String) : (fieldOf path "a" (.node longText)).run =
      .ok (⟨"a", "A", none, false, false, { minLength := some 2 }, .string, none⟩, []) := by
    have hplan : longText.plan = .ok (.leaf .string) := rfl
    rw [fieldOf_of_plan hpeel hplan]
    cbv
  exact introspect_of_fieldsOf (fieldsOf_singleton (hfield _)) _

/-- A text of at least two characters goes through a file. -/
theorem introspect_schemaFile_longText : ∃ file n,
    introspect longTextObject ⟨"F", "./s", "s"⟩ .null = .ok (longTextForm "s") ∧
      schemaFile (longTextForm "s") [] {} = .ok file ∧ Source.schema file "s" = .ok n ∧
        introspect (.node n) ⟨"F", "./s", "s"⟩ .null = .ok (longTextForm "s") := by
  have hform := introspect_longTextObject "s"
  obtain ⟨file, n, h⟩ := introspect_schemaFile builtFrom_longTextObject
    allRestorable_longTextObject hform (by decide) (by decide) hasPlainImport_default
  exact ⟨file, n, hform, h⟩

/-- The name `ǰ` is a word, but the capital of its letter is none: the file is not read. -/
theorem not_schema_schemaFile_caron : ∃ file e,
    BuiltFrom (fun _ => True) longTextObject ∧ longTextObject.AllRestorable ∧
      introspect longTextObject ⟨"F", "./s", "ǰ"⟩ .null = .ok (longTextForm "ǰ") ∧
        Source.isWord "ǰ".toList = true ∧ schemaFile (longTextForm "ǰ") [] {} = .ok file ∧
          Source.schema file "ǰ" = .error e := by
  have hform := introspect_longTextObject "ǰ"
  obtain ⟨-, hregular⟩ := introspect_isRegular builtFrom_longTextObject
    allRestorable_longTextObject hform
  have hexport : (longTextForm "ǰ").schemaName = "ǰ" := rfl
  have hname : Source.isWord "ǰ".toList = true := by decide
  have htype : Source.HasRefused (Text.typeName "ǰ").toList := by
    refine ⟨['J'], Char.ofNat 0x30c, [], ?_, by decide +kernel, .inr ⟨by decide, ?_⟩⟩
    · decide
    · decide +kernel
  obtain ⟨file, e, hfile, hread⟩ := Source.schema_error_of_typeName hasPlainImport_default
    (by rw [hexport]; exact hname) (by rw [hexport]; exact htype) (isReadable_of_isRegular hregular)
  rw [hexport] at hread
  exact ⟨file, e, builtFrom_longTextObject, allRestorable_longTextObject, hform, hname, hfile,
    hread⟩

end FormSchema
