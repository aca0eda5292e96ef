import FormSchema.Proofs.ModuleOrder
import FormSchema.Proofs.TypeNames

/-!
# Types with one name

A module exports a type behind every schema, under a name that is made from that of the schema. The
schemas of a module have different names, and this is all that is checked. The name of a type says
less than the name it is made from: neither the word at the end is left nor the case of the first
letter. `schemaFile_types` says exactly when two types of a module have the same name, and that no
two have if the names of the schemas follow the convention: a small letter first and the word
`Schema` last.
-/

namespace FormSchema

open Text (lines typeName)

/-! ## What a type is named after -/

namespace Text

/-- The name of a schema without the word at its end, or the word if nothing else is there. -/
def typeStem (name : String) : List Char :=
  if (dropSchemaWord name.toList).all Unicode.isBlank then "Schema".toList
  else dropSchemaWord name.toList

/-- The text with a capital at its front. -/
def capitalized : List Char → List Char
  | [] => []
  | c :: rest => Unicode.upper c ++ rest

theorem typeName_toList (name : String) :
    (typeName name).toList = capitalized (typeStem name) := by
  have hword : "Schema".toList = capitalized "Schema".toList := by decide
  unfold typeStem
  cases hdrop : dropSchemaWord name.toList with
  | nil =>
    rw [typeName, hdrop]
    exact hword
  | cons c rest =>
    rw [typeName, hdrop]
    dsimp only
    split
    · exact hword
    · exact String.toList_ofList

theorem typeStem_ne_nil (name : String) : typeStem name ≠ [] := by
  unfold typeStem
  split
  · simp
  · rename_i hblank
    rintro hnil
    rw [hnil] at hblank
    exact hblank rfl

/-- What is in front of the word is the stem, unless it is blank. -/
theorem typeStem_of_append {name : String} {c : Char} {rest : List Char}
    (hname : name.toList = c :: (rest ++ "Schema".toList)) (hc : Unicode.isBlank c = false) :
    typeStem name = c :: rest := by
  have hdrop : dropSchemaWord name.toList = c :: rest := by
    rw [hname, dropSchemaWord]
    simp [schemaWordReversed, dropReversedWord]
  rw [typeStem, hdrop, if_neg (by simp [hc])]

end Text

open Text (typeStem capitalized)

/-! ## Names whose types clash -/

/-- The schemas have types with one name: the stems of their names are the same up to the capital
of the first letter. -/
def SharesType (a b : String) : Prop :=
  capitalized (typeStem a) = capitalized (typeStem b)

theorem sharesType_iff {a b : String} : SharesType a b ↔ typeName a = typeName b := by
  rw [SharesType, ← Text.typeName_toList, ← Text.typeName_toList, String.toList_inj]

/-- The stem of an identifier is one. -/
theorem isIdentifier_typeStem {name : String} (h : Text.isIdentifier name.toList = true) :
    Text.isIdentifier (typeStem name) = true := by
  unfold typeStem
  split
  · decide
  · rename_i hblank
    have hprefix := Source.dropSchemaWord_prefix
      (Source.lineFeed_not_mem_of_isWord (Source.isWord_of_isIdentifier h))
    obtain ⟨tail, htail⟩ := hprefix
    cases hdrop : Text.dropSchemaWord name.toList with
    | nil =>
      rw [hdrop] at hblank
      exact absurd rfl hblank
    | cons c rest =>
      rw [← htail, hdrop, List.cons_append, Text.isIdentifier, List.all_append] at h
      simp only [Bool.and_eq_true] at h
      rw [Text.isIdentifier, h.1, h.2.1, Bool.and_true]

theorem capitalized_of_isIdentifier {c : Char} {rest : List Char}
    (h : Text.isIdentifier (c :: rest) = true) : capitalized (c :: rest) = c.toUpper :: rest := by
  rw [Text.isIdentifier, Bool.and_eq_true] at h
  have hascii : c.toNat < 128 := Source.identifierPart_lt (by simp [Text.identifierPart, h.1])
  rw [capitalized, Unicode.upper, if_pos hascii, List.singleton_append]

/-- Identifiers share their type if and only if their stems differ in the case of the first letter
at most. -/
theorem sharesType_iff_of_isIdentifier {a b : String} (ha : Text.isIdentifier a.toList = true)
    (hb : Text.isIdentifier b.toList = true) : SharesType a b ↔
      ∃ c d rest, typeStem a = c :: rest ∧ typeStem b = d :: rest ∧ c.toUpper = d.toUpper := by
  have hastem := isIdentifier_typeStem ha
  have hbstem := isIdentifier_typeStem hb
  unfold SharesType
  obtain ⟨c, rest, hc⟩ := List.exists_cons_of_ne_nil (Text.typeStem_ne_nil a)
  obtain ⟨d, others, hd⟩ := List.exists_cons_of_ne_nil (Text.typeStem_ne_nil b)
  rw [hc] at hastem ⊢
  rw [hd] at hbstem ⊢
  rw [capitalized_of_isIdentifier hastem, capitalized_of_isIdentifier hbstem, List.cons.injEq]
  constructor
  · rintro ⟨hupper, rfl⟩
    exact ⟨c, d, rest, rfl, rfl, hupper⟩
  · rintro ⟨_, _, _, h, h', hupper⟩
    cases h
    cases h'
    exact ⟨hupper, rfl⟩

/-! ## Names by the convention -/

/-- The name is an identifier with a small letter at its front and the word behind it. -/
def IsConventional (name : String) : Prop :=
  Text.isIdentifier name.toList = true ∧
    ∃ c rest, c.isLower = true ∧ name.toList = c :: (rest ++ "Schema".toList)

theorem isLower_plain : ∀ n < 128, (Char.ofNat n).isLower = true →
    Unicode.isBlank (Char.ofNat n) = false ∧ (Char.ofNat n).toUpper.toLower = Char.ofNat n := by
  decide

/-- A small letter is no blank, and its capital tells it. -/
theorem plain_of_isLower {c : Char} (h : c.isLower = true) :
    Unicode.isBlank c = false ∧ c.toUpper.toLower = c := by
  have hlt : c.toNat < 128 := by
    simp only [Char.isLower, Bool.and_eq_true, decide_eq_true_eq] at h
    have hle : c.toNat ≤ 0x7a := UInt32.le_iff_toNat_le.1 h.2
    omega
  have hplain := isLower_plain c.toNat hlt
  rw [Char.ofNat_toNat] at hplain
  exact hplain h

/-- Names by the convention are told by their types. -/
theorem IsConventional.eq_of_sharesType {a b : String} (ha : IsConventional a)
    (hb : IsConventional b) (h : SharesType a b) : a = b := by
  obtain ⟨haid, c, rest, hc, haname⟩ := ha
  obtain ⟨hbid, d, others, hd, hbname⟩ := hb
  obtain ⟨c', d', rest', hastem, hbstem, hupper⟩ := (sharesType_iff_of_isIdentifier haid hbid).1 h
  rw [Text.typeStem_of_append haname (plain_of_isLower hc).1] at hastem
  rw [Text.typeStem_of_append hbname (plain_of_isLower hd).1] at hbstem
  cases hastem
  cases hbstem
  have hletters : c = d := by
    rw [← (plain_of_isLower hc).2, ← (plain_of_isLower hd).2, hupper]
  rw [← String.toList_inj, haname, hbname, hletters]

/-! ## The types of a module -/

/-- The lines of a module. -/
def moduleLines (settings : Settings) (forms : List Form) : List String :=
  [constructorImport settings, ""] ++ forms.flatMap fun f => f.declaration ++ [""]

/-- The line exports a type. -/
def isTypeLine (line : String) : Bool :=
  "export type ".toList.isPrefixOf line.toList

/-- The line that exports the type of a schema. -/
def typeLine (name : String) : String :=
  "export type " ++ typeName name ++ " = z.infer<typeof " ++ name ++ ">;"

/-- No line of a member exports a type. -/
theorem not_isTypeLine_member (key e : String) :
    isTypeLine ("  " ++ key ++ ": " ++ e ++ ",") = false := by
  simp [isTypeLine, List.isPrefixOf]

theorem filter_declaration (f : Form) :
    (f.declaration ++ [""]).filter isTypeLine = [typeLine f.schemaName] := by
  simp only [Form.declaration, List.filter_append, List.filter_map, Function.comp_def,
    not_isTypeLine_member, List.filter_false, List.map_nil]
  simp [isTypeLine, typeLine, List.isPrefixOf]

theorem not_isTypeLine_import (path : String) :
    isTypeLine ("import \x7b z \x7d from \"" ++ path ++ "\";") = false := by
  simp [isTypeLine, List.isPrefixOf]

/-- A module exports the type of each of its schemas, and no other one. -/
theorem filter_moduleLines (settings : Settings) (forms : List Form) :
    (moduleLines settings forms).filter isTypeLine = (schemaNames forms).map typeLine := by
  have hdeclarations : (forms.flatMap fun f => f.declaration ++ [""]).filter isTypeLine =
      (schemaNames forms).map typeLine := by
    induction forms with
    | nil => rfl
    | cons f rest ih =>
      rw [List.flatMap_cons, List.filter_append, filter_declaration, ih]
      rfl
  have hhead : [constructorImport settings, ""].filter isTypeLine = [] := by
    have himport := not_isTypeLine_import settings.schemaImportPath
    unfold constructorImport
    rw [List.filter_cons, himport]
    rfl
  rw [moduleLines, List.filter_append, hdeclarations, hhead, List.nil_append]

/-- The names of schemas have different types if and only if no two of them share one. -/
theorem nodup_typeNames_iff {names : List String} (h : names.Nodup) :
    (names.map typeName).Nodup ↔ ∀ a ∈ names, ∀ b ∈ names, SharesType a b → a = b := by
  simp only [List.nodup_map_iff_inj_on h, sharesType_iff]

/-- A module that is written exports one type for each of its schemas, which have different names.
The types have different names if and only if no two of the schemas share their type; if the names
follow the convention, none do. -/
theorem schemaFile_types {form : Form} {embedded : List Form} {settings : Settings} {file : String}
    (h : schemaFile form embedded settings = .ok file) :
    ∃ sorted : List Form, sorted.Perm embedded ∧ (schemaNames (sorted ++ [form])).Nodup ∧
      file = lines (moduleLines settings (sorted ++ [form])) ∧
      (moduleLines settings (sorted ++ [form])).filter isTypeLine =
        (schemaNames (sorted ++ [form])).map typeLine ∧
      (((schemaNames (sorted ++ [form])).map typeName).Nodup ↔
        ∀ a ∈ schemaNames (sorted ++ [form]), ∀ b ∈ schemaNames (sorted ++ [form]),
          SharesType a b → a = b) ∧
      ((∀ name ∈ schemaNames (sorted ++ [form]), IsConventional name) →
        ((schemaNames (sorted ++ [form])).map typeName).Nodup) := by
  obtain ⟨sorted, hsorted, hname, -, rfl⟩ := schemaFile_eq_ok_iff.1 h
  have hnodup := nodup_of_ordered hsorted hname
  refine ⟨sorted, perm_of_ordered hsorted, hnodup, rfl, filter_moduleLines settings _,
    nodup_typeNames_iff hnodup, fun hconventional => ?_⟩
  exact (nodup_typeNames_iff hnodup).2 fun a ha b hb =>
    (hconventional a ha).eq_of_sharesType (hconventional b hb)

/-- A form without fields. -/
def emptyForm (schemaName : String) : Form :=
  ⟨⟨"F", "./s", schemaName⟩, [], [], none⟩

/-- The schemas `user` and `userSchema` stand in one module, which exports `User` twice. -/
theorem schemaFile_types_user : ∃ file ls,
    schemaFile (emptyForm "userSchema") [emptyForm "user"] {} = .ok file ∧ file = lines ls ∧
      ls.filter isTypeLine = ["export type User = z.infer<typeof user>;",
        "export type User = z.infer<typeof userSchema>;"] ∧
      SharesType "user" "userSchema" := by
  have hfile : schemaFile (emptyForm "userSchema") [emptyForm "user"] {} = .ok _ :=
    schemaFile_eq_ok_iff.2 ⟨_, ordered_singleton _, by decide, by decide, rfl⟩
  obtain ⟨sorted, hperm, -, hlines, htypes, -, -⟩ := schemaFile_types hfile
  obtain rfl := List.perm_singleton.1 hperm
  refine ⟨_, _, hfile, hlines, htypes.trans ?_, sharesType_iff.2 ?_⟩ <;> decide

end FormSchema
