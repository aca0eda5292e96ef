import Mathlib
import FormSchema.Proofs.Origin
import FormSchema.Proofs.Provenance
import FormSchema.Proofs.TypeNames
import FormSchema.Proofs.Unreadable
import FormSchema.Proofs.Values

/-!
# Which schema files are read

A schema that is read from a text is built with bounded numbers, so the fields of its form can be
written and read again, but for three things: a number that is not finite, a pattern that is no
literal, and a name whose type is no word. With patterns that are literals, the file of the form is
read if and only if the numbers are finite and the name of the type is a word
(`schema_schemaFile_iff`).
-/

namespace FormSchema

/-- All patterns that the schema file of a form writes can be read. -/
def Form.HasPatterns (f : Form) : Prop :=
  ∀ root ∈ f.fields, ∀ g, root.Writes g →
    ∀ s ∈ g.content.pattern? g.constraints, Text.isPattern s = true

/-- All numbers that the schema file of a form writes are finite. -/
def Form.HasFiniteNumbers (f : Form) : Prop :=
  ∀ root ∈ f.fields, ∀ g, root.Writes g → g.HasFiniteNumbers

/-! ## Numbers of forms -/

theorem Check.Gives.number {c : Check} {d : Datum} {k : Number} (h : c.Gives d)
    (hk : d.number? = some k) : k ∈ c.numbers := by
  simp only [Check.numbers, List.mem_append, Option.mem_toList]
  rcases h with ⟨n, hn, rfl⟩ | ⟨n, hn, rfl⟩ | ⟨-, rfl⟩
  · cases hk
    exact .inl (.inl hn)
  · cases hk
    exact .inl (.inr hn)
  · exact .inr hk

/-- What a check with bounded numbers gives is read as a bounded number. -/
theorem Check.Gives.isBounded {c : Check} {d : Datum} {k : Number} (h : c.Gives d)
    (hc : ∀ n ∈ c.numbers, n.IsBounded) (hk : d.Reads k) : k.IsBounded := by
  rcases hk with hk | ⟨i, hi, rfl⟩
  · exact hc k (h.number hk)
  · rcases integer?_isBounded hi with rfl | hbounded
    · exact hc _ (h.number rfl)
    · exact hbounded

theorem numbers_isBounded {n : Node} {path : String} {c : Constraints} {warnings : List String}
    (h : n.IsSound Number.IsBounded) (hc : (n.fieldConstraints path).run = .ok (c, warnings))
    (content : Content) : ∀ k ∈ content.numbers c, k.IsBounded := by
  rcases of_fieldConstraints hc with ⟨-, rfl⟩ | ⟨-, hfrom⟩
  · cases content <;> simp [Content.numbers]
  · intro k hk
    obtain ⟨check, hcheck, d, hgives, hreads⟩ := Node.constraints_numbers hfrom content k hk
    exact hgives.isBounded (fun m hm => or_self_iff.1 (h.numbers check hcheck m hm)) hreads

/-- A field that comes from a sound schema has no reference and bounded numbers. -/
theorem isBounded_of_comesFrom {v : Value} {f : Field} (hsound : v.AllSound Number.IsBounded)
    (hf : f.ComesFrom v) (hpattern : ∀ s ∈ f.content.pattern? f.constraints, Text.isPattern s = true) :
    f.IsBounded := by
  obtain ⟨u, hu, path, name, warnings, hfield⟩ := hf
  obtain ⟨p, hp, description, -, c, content, rfl, hcontent⟩ := fieldOf_cases hfield
  have hinside := (inside_of_peel hp).1.trans hu
  refine ⟨rfl, ?_, hpattern⟩
  rcases hcontent with ⟨rfl, rfl⟩ | ⟨_, _, _, -, hc, -⟩
  · simp [Content.numbers]
  · exact numbers_isBounded (hsound _ hinside) hc content

/-- The fields of the form of a schema that is built with bounded numbers are bounded. -/
theorem introspect_isBounded {schema : Value} {naming : Naming} {steps : Datum} {form : Form}
    (hbuilt : BuiltFrom Number.IsBounded schema) (hform : introspect schema naming steps = .ok form)
    (hpatterns : form.HasPatterns) :
    ∀ root ∈ form.fields, ∀ g, root.Writes g → g.IsBounded :=
  fun root hroot g hg => isBounded_of_comesFrom hbuilt.allSound
    (introspect_comesFrom hform root hroot g hg.within) (hpatterns root hroot g hg)

namespace Source

open Text (quoted)

variable {scope : Scope}

/-! ## Files that are refused -/

/-- The constant of a form is refused if a number in it is not finite. -/
theorem refuses_constantText (hscope : scope.declared = []) {f : Form}
    (hbounded : ∀ root ∈ f.fields, ∀ g, root.Writes g → g.IsBounded)
    (h : ¬f.HasFiniteNumbers) : Refuses scope (constantText f) := by
  have hz : scope.lookup "z" = some .constructors := by simp [Scope.lookup, hscope]
  obtain ⟨root, hroot, hinfinite⟩ : ∃ root ∈ f.fields, ∃ g, root.Writes g ∧ ¬g.HasFiniteNumbers := by
    simpa [Form.HasFiniteNumbers] using h
  have hrefuses := refuses_field hscope root (hbounded root hroot) hinfinite
  have hentries := refusesEntries_lines ['\x7d'] []
    (isDecided_members fun f hf => isDecided_field hscope f (hbounded f hf))
    ⟨_, mem_memberExpressions.2 ⟨root, hroot, rfl⟩, hrefuses⟩
  exact refuses_object hz (hentries.blank (c := '\n') (by decide)) String.toList_ofList

/-- A constant is refused with its expression. -/
theorem statements_const_error {placed : List Placed} (after : List Placed) {name : String}
    {ts : List Token} (hmap : placed.map Placed.token =
      .word "export" :: .word "const" :: .word name :: .punct '=' :: ts)
    (h : Fails (expression scope) ts) : ∃ e, statements scope (placed ++ after) = .error e := by
  obtain ⟨⟨opening, p⟩, placed, rfl, hopening, hmap⟩ := List.map_eq_cons_iff.1 hmap
  obtain ⟨⟨keyword, q⟩, placed, rfl, hkeyword, hmap⟩ := List.map_eq_cons_iff.1 hmap
  obtain ⟨⟨named, r⟩, placed, rfl, hnamed, hmap⟩ := List.map_eq_cons_iff.1 hmap
  obtain ⟨⟨equals, s⟩, placed, rfl, hequals, hvalue⟩ := List.map_eq_cons_iff.1 hmap
  cases hopening
  cases hkeyword
  cases hnamed
  cases hequals
  obtain ⟨e, he⟩ := h placed after hvalue
  have hinitializer : initializer scope (placed ++ after) = .error e := by
    rw [initializer, he]
  refine ⟨e, ?_⟩
  simp only [List.cons_append]
  rw [statements]
  simp [statement, exported, startsWithWord, declaration_const, hinitializer]

/-- A schema file is not read if its constant is refused. -/
theorem schema_error_of_refuses {f : Form} {settings : Settings}
    (hsettings : settings.HasPlainImport) (hname : isWord f.schemaName.toList = true)
    (hshort : ∀ n ∈ f.numbers, n.isShort = true)
    (h : ∀ scope : Scope, scope.declared = [] → Refuses scope (constantText f)) :
    ∃ file e, schemaFile f [] settings = .ok file ∧ schema file f.schemaName = .error e := by
  obtain ⟨file, hfile, htext⟩ := schemaFile_toList hsettings hshort
  refine ⟨file, ?_⟩
  suffices hdeclarations : ∃ e, declarations file = .error e by
    obtain ⟨e, he⟩ := hdeclarations
    refine ⟨e, hfile, ?_⟩
    rw [schema, schemas, he]
    rfl
  cases htokens : tokenize file with
  | error e =>
    refine ⟨e, ?_⟩
    rw [declarations, htokens]
    rfl
  | ok tokens =>
    obtain ⟨ts, ⟨front, back, hsplit, hts⟩, -, hfails⟩ := h ⟨[], tokens.finish⟩ rfl
    have hbreaks : Spells Anything ['\n', '\n'] [] := spells_lineFeed.then spells_lineFeed
    have hconst := hbreaks.then (spells_const hname hts)
    have himport : '\n' ∉ "import \x7b z \x7d from ".toList ++
        ((quoted settings.schemaImportPath).toList ++ [';']) := by
      simpa using lineFeed_not_mem_quoted settings.schemaImportPath
    have hcut := htokens
    rw [tokenize, htext, declarationText, hsplit] at hcut
    generalize hrest : '\n' :: '\n' :: (("export type ".toList ++
      ((Text.typeName f.schemaName).toList ++ (" = z.infer<typeof ".toList ++
        (f.schemaName.toList ++ ">;".toList)))) ++ ['\n']) = rest at hcut
    obtain ⟨first, hfirst, hline, hfront⟩ := (spells_import settings.schemaImportPath).line himport
      none ((['\n', '\n'] ++ ("export const ".toList ++ (f.schemaName.toList ++
        (" = ".toList ++ front)))) ++ (back ++ ';' :: rest)) Position.start trivial
    obtain ⟨second, hsecond, -, hback⟩ := hconst (Option.or _ none) (back ++ ';' :: rest) _ trivial
    rw [hback] at hfront
    simp only [List.append_assoc, List.cons_append, List.nil_append] at hcut hfront
    rw [hfront] at hcut
    obtain ⟨behind, hbehind, rfl⟩ := map_eq_ok.1 hcut
    obtain ⟨others, -, rfl⟩ := map_eq_ok.1 hbehind
    obtain ⟨e, he⟩ := statements_const_error others.items hsecond hfails
    refine ⟨e, ?_⟩
    rw [declarations, htokens]
    show (statements _ (first ++ (second ++ others.items)) >>= fun scope => pure scope.declared) = _
    rw [statements_import hfirst rfl hline, he]
    rfl

/-! ## Files that are read -/

/-- The file of the form of a schema that was read is read again if and only if its numbers are
finite and the name of its type is a word, as long as its patterns are literals. -/
theorem schema_schemaFile_iff {code : String} {n : Node} {naming : Naming} {steps : Datum}
    {form : Form} {settings : Settings} (hread : schema code naming.exportName = .ok n)
    (hform : introspect (.node n) naming steps = .ok form) (hpatterns : form.HasPatterns)
    (hsettings : settings.HasPlainImport) :
    (∃ file again, schemaFile form [] settings = .ok file ∧
        schema file naming.exportName = .ok again) ↔
      form.HasFiniteNumbers ∧ isWord (Text.typeName naming.exportName).toList = true := by
  obtain ⟨hname, hbuilt⟩ := schema_builtFrom hread
  have hbounded := introspect_isBounded hbuilt hform hpatterns
  obtain ⟨_, -, -, hnaming⟩ := fieldsOf_of_introspect hform
  have hexport : form.schemaName = naming.exportName := by rw [Form.schemaName, hnaming]
  rw [← hexport] at hname ⊢
  have hrefused (h : ∃ file e, schemaFile form [] settings = .ok file ∧
      schema file form.schemaName = .error e) :
      ¬∃ file again, schemaFile form [] settings = .ok file ∧
        schema file form.schemaName = .ok again := by
    rintro ⟨file, again, hfile, hagain⟩
    obtain ⟨other, e, hother, he⟩ := h
    obtain rfl : file = other := by simpa [hfile] using hother
    rw [hagain] at he
    cases he
  have hreadable (h : form.HasFiniteNumbers) : form.IsReadable := fun root hroot g hg =>
    (Field.isReadable_iff (hbounded root hroot g hg)).2 (h root hroot g hg)
  by_cases hfinite : form.HasFiniteNumbers
  · by_cases htype : isWord (Text.typeName form.schemaName).toList = true
    · obtain ⟨file, hfile, hagain⟩ :=
        schema_schemaFile hsettings hname htype (hreadable hfinite)
      exact iff_of_true ⟨file, form.node, hfile, hagain⟩ ⟨hfinite, htype⟩
    · have hrefusedName := (isWord_typeName_or hname).resolve_left htype
      exact iff_of_false (hrefused (schema_error_of_typeName hsettings hname hrefusedName
        (hreadable hfinite))) fun h => htype h.2
  · have hshort : ∀ n ∈ form.numbers, n.isShort = true :=
      forall_memberNumbers none form.fields fun root hroot _ g hg n hn =>
        Number.isShort_iff.2 ((hbounded root hroot g hg).numbers n hn)
    exact iff_of_false (hrefused (schema_error_of_refuses hsettings hname hshort
      fun scope hscope => refuses_constantText hscope hbounded hfinite)) fun h => hfinite h.1

/-! ## A bound that is infinite -/

/-- The node of a number that is at least infinite. -/
def infiniteNode : Node :=
  (Node.plain .number).withCheck
    (.valued "greater_than" (.number (.double (.infinite false))) true)

/-- The text of an object with such a number. -/
def infiniteText : String :=
  "export const " ++ "s" ++ " = " ++ objectExpression [("a", "z.number().min(1e+999)")] ++ ";"

/-- A literal that is too large spells an infinite number. -/
theorem spells_infinite :
    Spells Closes "1e+999".toList [.number (.double (.infinite false))] := by
  have hone : AreDigits ['1'] := ⟨by decide, by decide⟩
  have hpower : AreDigits ['9', '9', '9'] := ⟨by decide, by decide⟩
  have hvalue : numberOf ⟨[1], none, some 999⟩ = .ok (.double (.infinite false)) := rfl
  refine spells_numeral (c := '1') (by decide) hvalue fun rest hrest => ?_
  have hexponent : exponentPart ('e' :: '+' :: (['9', '9', '9'] ++ rest)) = (some 999, rest) :=
    @exponentPart_of_areDigits false ['9', '9', '9'] rest hpower hrest.stops.no_digit
  exact numeral_of_parts hone (exponent_no_digit _) rfl hexponent

theorem means_infinite (hz : scope.lookup "z" = some .constructors) :
    Means scope Stops "z.number().min(1e+999)" (.node infiniteNode) := by
  have hliteral : Means scope Closes "1e+999" (.number (.double (.infinite false))) :=
    ⟨_, spells_infinite, denotes_plainNumber _⟩
  have hnumber : Means scope Stops ("z" ++ methodCall "number" "") (.node (.plain .number)) :=
    means_constructor "number" hz (by decide) rfl passes_nothing rfl
  have hmin := hnumber.method "min" (m := .min) (by decide) (by decide) rfl hliteral.passes
    (w := .node infiniteNode) rfl
  have htext : "z" ++ methodCall "number" "" ++ methodCall "min" "1e+999" =
      "z.number().min(1e+999)" := by
    decide
  rwa [htext] at hmin

theorem schema_infiniteText :
    schema infiniteText "s" = .ok (objectNode [("a", .node infiniteNode)]) := by
  have hmeans (scope : Scope) (hscope : scope.declared = []) :
      Means scope Stops (objectExpression [("a", "z.number().min(1e+999)")])
        (.node (objectNode [("a", .node infiniteNode)])) := by
    have hz : scope.lookup "z" = some .constructors := by simp [Scope.lookup, hscope]
    exact means_objectExpression hz (.cons ⟨rfl, _, rfl, means_infinite hz⟩ .nil)
  unfold infiniteText
  exact schema_const (by decide) hmeans

/-- The field of such a number. -/
def infiniteField : Field :=
  ⟨"a", "A", none, false, false, { min := some (.double (.infinite false)) }, .number, none⟩

theorem introspect_infinite :
    introspect (.node (objectNode [("a", .node infiniteNode)])) ⟨"F", "./s", "s"⟩ .null =
      .ok ⟨⟨"F", "./s", "s"⟩, [infiniteField], [], none⟩ := by
  have hpeel : (Value.node infiniteNode).peel = .ok ⟨infiniteNode, false, false, .null⟩ :=
    peel_of_unwrap (unwrap_of_isCore rfl) rfl
  have hfield (path : String) :
      (fieldOf path "a" (.node infiniteNode)).run = .ok (infiniteField, []) := by
    have hplan : infiniteNode.plan = .ok (.leaf .number) := rfl
    rw [fieldOf_of_plan hpeel hplan]
    cbv
  exact introspect_of_fieldsOf (fieldsOf_singleton (hfield _)) _

/-- A text that is read, but the file of whose form is not. -/
theorem not_schema_schemaFile_infinite : ∃ form,
    schema infiniteText "s" = .ok (objectNode [("a", .node infiniteNode)]) ∧
      introspect (.node (objectNode [("a", .node infiniteNode)])) ⟨"F", "./s", "s"⟩ .null =
        .ok form ∧
        ¬∃ file again, schemaFile form [] {} = .ok file ∧ schema file "s" = .ok again := by
  refine ⟨_, schema_infiniteText, introspect_infinite, fun h => ?_⟩
  have hpatterns : Form.HasPatterns ⟨⟨"F", "./s", "s"⟩, [infiniteField], [], none⟩ := by
    intro root hroot g hg
    obtain rfl := List.mem_singleton.1 hroot
    cases hg with
    | self => rintro _ ⟨⟩
    | deeper hd => cases hd
  obtain ⟨hfinite, -⟩ :=
    (schema_schemaFile_iff schema_infiniteText introspect_infinite hpatterns
      hasPlainImport_default).1 h
  exact hfinite infiniteField (List.mem_singleton_self _) infiniteField (.self _) _
    (List.mem_singleton_self _)

end Source

end FormSchema
