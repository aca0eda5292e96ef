import FormSchema.Proofs.Bounds
import FormSchema.Proofs.Linking
import FormSchema.SchemaFile.Module
import FormSchema.Source.Module

/-!
# Schema files are read

A schema file has three kinds of statements: an import, constants and types. Imports and types are
skipped, each up to its own semicolon, since none of them spans lines (`skipStatement_line`), and a
constant is declared with the value that its expression means. `Runs` says what a text does to
what is declared, wherever it stands: texts that are run one after the other are run together
(`Runs.append`), so a file is put together from its statements.

A file with one schema is read as the schema of the form (`schema_schemaFile`), if the literals in
it can be read and the two names are words.
-/

namespace FormSchema

/-- The import path is quoted without escapes. -/
def Settings.HasPlainImport (settings : Settings) : Prop :=
  Text.quoted settings.schemaImportPath = "\"" ++ settings.schemaImportPath ++ "\""

theorem hasPlainImport_default : ({} : Settings).HasPlainImport := rfl

/-- The node that the schema file of a form declares. -/
def Form.node (f : Form) : Node :=
  objectNode (memberNodes f.fields)

/-- The node that a module declares for a form, some names being known. -/
def Form.nodeIn (named : String → Option Node) (f : Form) : Node :=
  objectNode (membersIn named f.fields)

/-- Where no name stands for a node, a form means its own node. -/
theorem Form.nodeIn_none (f : Form) : f.nodeIn (fun _ => none) = f.node := by
  rw [Form.nodeIn, Form.node, membersIn_none]

/-- The literals that the schema file of a form writes for its fields can be read. -/
def Form.IsReadable (f : Form) : Prop :=
  ∀ root ∈ f.fields, ∀ g, root.Writes g → g.IsReadable

/-- A number whose literal can be read can be written. -/
theorem Number.IsReadable.isShort {n : Number} (h : n.IsReadable) : n.isShort = true := by
  rw [Number.isShort_iff]
  cases n with
  | int n => exact h
  | double x => trivial

theorem Form.IsReadable.numbers_isShort {f : Form} (h : f.IsReadable) :
    ∀ n ∈ f.numbers, n.isShort = true :=
  forall_memberNumbers none f.fields fun root hroot _ g hg n hn =>
    ((h root hroot g hg).numbers n hn).isShort

namespace Source

open Text (joined lines quoted propertyKey reread)

variable {scope : Scope}

/-! ## Skipping -/

/-- Whether the tokens are a statement up to its semicolon, the depth of brackets given. -/
def endsStatement (depth : Nat) : List Token → Bool
  | [] => false
  | t :: rest =>
    if depth == 0 && t == .punct ';' then rest.isEmpty
    else
      let inner := match t with
        | .punct c =>
          if ['(', '[', '\x7b'].contains c then depth + 1
          else if [')', ']', '\x7d'].contains c then depth - 1
          else depth
        | _ => depth
      endsStatement inner rest

/-- A statement on one line is skipped up to its semicolon. -/
theorem skipStatement_line {depth line : Nat} {placed : List Placed} (after : List Placed)
    (h : endsStatement depth (placed.map Placed.token) = true)
    (hline : ∀ t ∈ placed, t.place.line = line) :
    skipStatement depth line (placed ++ after) = after := by
  induction placed generalizing depth with
  | nil => cases h
  | cons t rest ih =>
    obtain ⟨token, place⟩ := t
    obtain ⟨hplace, hrest⟩ := List.forall_mem_cons.1 hline
    have hsame : place.line = line := hplace
    rw [List.map_cons] at h
    unfold endsStatement at h
    rw [List.cons_append]
    unfold skipStatement
    dsimp only at h ⊢
    split
    · rename_i hend
      rw [if_pos hend, List.isEmpty_iff, List.map_eq_nil_iff] at h
      rw [h, List.nil_append]
    · rename_i hend
      rw [if_neg hend] at h
      rw [if_neg (by simp [hsame]), hsame]
      exact ih h hrest

/-! ## Statements -/

/-- A statement that is read is followed by the rest. -/
theorem statements_cons {scope' : Scope} {t : Placed} {rest after : List Placed}
    {h : after.length ≤ rest.length} (hstatement : statement scope t rest = .ok (scope', ⟨after, h⟩)) :
    statements scope (t :: rest) = statements scope' after := by
  rw [statements, hstatement]

/-- An import on one line is skipped. -/
theorem statements_import {placed after : List Placed} {ts : List Token} {line : Nat}
    (hmap : placed.map Placed.token = .word "import" :: ts) (hts : endsStatement 0 ts = true)
    (hline : ∀ t ∈ placed, t.place.line = line) :
    statements scope (placed ++ after) = statements scope after := by
  obtain ⟨⟨token, place⟩, placed, rfl, htoken, rfl⟩ := List.map_eq_cons_iff.1 hmap
  cases htoken
  obtain ⟨hplace, hrest⟩ := List.forall_mem_cons.1 hline
  have hskip := skipStatement_line after hts hrest
  rw [← hplace] at hskip
  refine statements_cons (h := by simp) ?_
  simp [statement, hskip]

/-- A type on one line is skipped. -/
theorem statements_type {placed after : List Placed} {ts : List Token} {line : Nat}
    (hmap : placed.map Placed.token = .word "export" :: .word "type" :: ts)
    (hts : endsStatement 0 ts = true) (hline : ∀ t ∈ placed, t.place.line = line) :
    statements scope (placed ++ after) = statements scope after := by
  obtain ⟨⟨opening, p⟩, placed, rfl, hopening, hmap⟩ := List.map_eq_cons_iff.1 hmap
  obtain ⟨⟨keyword, q⟩, placed, rfl, hkeyword, rfl⟩ := List.map_eq_cons_iff.1 hmap
  cases hopening
  cases hkeyword
  obtain ⟨-, hplace, hrest⟩ := by simpa only [List.forall_mem_cons] using hline
  have hskip := skipStatement_line after hts hrest
  have hsame : q.line = line := hplace
  rw [← hsame] at hskip
  refine statements_cons (h := by simp; omega) ?_
  simp [statement, exported, startsWithWord, hskip]

/-- A constant is declared with the value that is read behind the equals sign. -/
theorem declaration_const (name : String) (p q r : Position) (value : List Placed) :
    declaration scope (⟨.word "const", p⟩ :: ⟨.word name, q⟩ :: ⟨.punct '=', r⟩ :: value) =
      match initializer scope value with
      | .error e => .error e
      | .ok (v, ⟨after, h⟩) =>
        .ok (scope.declare name v,
          ⟨after, Nat.lt_succ_of_lt (Nat.lt_succ_of_lt (Nat.lt_succ_of_lt h))⟩) := by
  have hexpect : expectPunct scope '=' (⟨.punct '=', r⟩ :: value) = .ok (.tail value) := by
    rw [expectPunct, if_pos (by rfl)]
  rw [declaration, if_pos (by rfl), expectWord]
  dsimp only [Shorter.tail]
  split
  · rename_i heq
    cases hexpect.symm.trans heq
  · rename_i heq
    cases hexpect.symm.trans heq
    rfl

/-- The value of a declaration is the one that the tokens up to its semicolon denote. -/
theorem initializer_of_denotes {placed : List Placed} (after : List Placed) {ts : List Token}
    {v : Value} (hmap : placed.map Placed.token = ts ++ [.punct ';']) (h : Denotes scope ts v) :
    ∃ hlt, initializer scope (placed ++ after) = .ok (v, ⟨after, hlt⟩) := by
  obtain ⟨placed, last, rfl, hvalue, hlast⟩ := List.map_eq_append_iff.1 hmap
  obtain ⟨⟨semicolon, u⟩, last, rfl, hsemicolon, hnil⟩ := List.map_eq_cons_iff.1 hlast
  obtain rfl := List.map_eq_nil_iff.1 hnil
  cases hsemicolon
  obtain ⟨hlt, hread⟩ := h.reads placed (⟨.punct ';', u⟩ :: after) v (⟨.punct ';', u⟩ :: after) hvalue
    (chained_stop (by simp) (by simp))
  rw [List.append_assoc, List.singleton_append]
  refine ⟨Nat.lt_of_succ_lt hlt, ?_⟩
  rw [initializer, hread]
  rfl

/-- A constant is declared with the value that its expression denotes. -/
theorem statements_const {placed after : List Placed} {name : String} {ts : List Token} {v : Value}
    (hmap : placed.map Placed.token = .word "export" :: .word "const" :: .word name ::
      .punct '=' :: (ts ++ [.punct ';'])) (h : Denotes scope ts v) :
    statements scope (placed ++ after) = statements (scope.declare name v) after := by
  obtain ⟨⟨opening, p⟩, placed, rfl, hopening, hmap⟩ := List.map_eq_cons_iff.1 hmap
  obtain ⟨⟨keyword, q⟩, placed, rfl, hkeyword, hmap⟩ := List.map_eq_cons_iff.1 hmap
  obtain ⟨⟨named, r⟩, placed, rfl, hnamed, hmap⟩ := List.map_eq_cons_iff.1 hmap
  obtain ⟨⟨equals, s⟩, placed, rfl, hequals, hvalue⟩ := List.map_eq_cons_iff.1 hmap
  cases hopening
  cases hkeyword
  cases hnamed
  cases hequals
  obtain ⟨hlt, hinitializer⟩ := initializer_of_denotes after hvalue h
  simp only [List.cons_append]
  refine statements_cons (h := by simp only [List.length_cons]; omega) ?_
  simp [statement, exported, startsWithWord, declaration_const, hinitializer]

/-! ## The texts of the statements -/

/-- A word with a space behind it. -/
theorem spells_wordSpace (name : String) (h : isWord name.toList = true) :
    Spells Anything (name.toList ++ [' ']) [.word name] := by
  have hname := spells_word h
  rw [String.ofList_toList] at hname
  exact hname.stopped spells_space (by decide)

/-- The tokens of an import. -/
def importTokens (path : String) : List Token :=
  [.punct '\x7b', .word "z", .punct '\x7d', .word "from", .string (reread path), .punct ';']

/-- The import of the constructors spells its tokens. -/
theorem spells_import (path : String) :
    Spells Anything ("import \x7b z \x7d from ".toList ++ ((quoted path).toList ++ [';']))
      (.word "import" :: importTokens path) := by
  have h := (spells_wordSpace "import" (by decide)).then
    ((spells_punct (c := '\x7b') (by decide)).then (spells_space.then
    ((spells_wordSpace "z" (by decide)).then
    ((spells_punct (c := '\x7d') (by decide)).then (spells_space.then
    ((spells_wordSpace "from" (by decide)).then
    ((spells_quoted path).then (spells_punct (c := ';') (by decide)))))))))
  exact h

/-- The tokens of the type of a schema. -/
def typeTokens (type name : String) : List Token :=
  [.word type, .punct '=', .word "z", .punct '.', .word "infer", .punct '<', .word "typeof",
    .word name, .punct '>', .punct ';']

/-- The export of a type spells its tokens. -/
theorem spells_type {type name : String} (htype : isWord type.toList = true)
    (hname : isWord name.toList = true) :
    Spells Anything ("export type ".toList ++ (type.toList ++
      (" = z.infer<typeof ".toList ++ (name.toList ++ ">;".toList))))
      (.word "export" :: .word "type" :: typeTokens type name) := by
  have hz : Spells Stops "z".toList [.word "z"] := spells_word (by decide)
  have hinfer : Spells Stops "infer".toList [.word "infer"] := spells_word (by decide)
  have hword := spells_word hname
  rw [String.ofList_toList] at hword
  have hend : Spells Anything (name.toList ++ ">;".toList) [.word name, .punct '>', .punct ';'] :=
    hword.stopped ((spells_punct (c := '>') (by decide)).then
      (spells_punct (c := ';') (by decide))) (by decide)
  have hangle := (spells_punct (c := '<') (by decide)).then
    ((spells_wordSpace "typeof" (by decide)).then hend)
  have hdot := (spells_punct (c := '.') (by decide)).then (hinfer.stopped hangle (by decide))
  have h := (spells_wordSpace "export" (by decide)).then
    ((spells_wordSpace "type" (by decide)).then
    ((spells_wordSpace type htype).then ((spells_punct (c := '=') (by decide)).then
    (spells_space.then (hz.stopped hdot (by decide))))))
  simpa [typeTokens] using h

/-- The export of a constant spells its tokens, if its value spells some. -/
theorem spells_const {name : String} {cs : List Char} {ts : List Token}
    (hname : isWord name.toList = true) (hcs : Spells Anything cs ts) :
    Spells Anything ("export const ".toList ++ (name.toList ++ (" = ".toList ++ cs)))
      (.word "export" :: .word "const" :: .word name :: .punct '=' :: ts) := by
  have h := (spells_wordSpace "export" (by decide)).then
    ((spells_wordSpace "const" (by decide)).then
    ((spells_wordSpace name hname).then ((spells_punct (c := '=') (by decide)).then
    (spells_space.then hcs))))
  simpa using h

/-- The end of a statement behind an expression. -/
theorem spells_end {cs : List Char} {ts : List Token} (h : Spells Stops cs ts) :
    Spells Anything (cs ++ [';']) (ts ++ [.punct ';']) :=
  h.stopped (spells_punct (c := ';') (by decide)) (by decide)

/-- Members on lines of their own, up to the closing brace. -/
theorem meansEntries_lines : ∀ (done : List (String × Value)) {members : List (String × String)}
    {es : List (String × Value)}, List.Forall₂ (MeansMember scope) members es →
      MeansEntries scope done
        (members.flatMap (fun member => ' ' :: ' ' :: ((memberText member).toList ++ [',', '\n'])) ++
          ['\x7d'])
        (putEntries done es)
  | _, [], _, .nil => meansEntries_close
  | done, member :: members, entry :: es, .cons h hrest => by
    have hothers := (meansEntries_lines (putEntry done entry.1 entry.2) hrest).blank
      (c := '\n') (by decide)
    have hentries := ((h.cons hothers).blank (c := ' ') (by decide)).blank (c := ' ') (by decide)
    have hput : putEntries done (entry :: es) =
        putEntries (putEntry done entry.1 entry.2) es := rfl
    rw [hput]
    simpa [memberText] using hentries

/-! ## The texts of files -/

theorem lines_toList (first : String) (rest : List String) :
    (lines (first :: rest)).toList = first.toList ++ rest.flatMap fun line => '\n' :: line.toList := by
  rw [lines]
  induction rest generalizing first with
  | nil => simp [joined]
  | cons second rest ih => rw [joined, String.toList_append, String.toList_append, ih] <;> simp

/-- The text of the constant that a form declares. -/
def constantText (f : Form) : String :=
  "z" ++ methodCall "object" (String.ofList ('\x7b' :: '\n' ::
    ((memberExpressions f.fields).flatMap (fun member =>
      ' ' :: ' ' :: ((memberText member).toList ++ [',', '\n'])) ++ ['\x7d'])))

/-- The text of a declaration, a constant and a type, with the blank line in front of it. -/
def declarationText (f : Form) : List Char :=
  '\n' :: ("export const ".toList ++ (f.schemaName.toList ++ (" = ".toList ++
    ((constantText f).toList ++ [';'])))) ++
  '\n' :: '\n' :: (("export type ".toList ++ ((Text.typeName f.schemaName).toList ++
    (" = z.infer<typeof ".toList ++ (f.schemaName.toList ++ ">;".toList)))) ++ ['\n'])

/-- The declaration of a form is its text, line by line. -/
theorem declaration_toList (f : Form) :
    (f.declaration ++ [""]).flatMap (fun line => '\n' :: line.toList) = declarationText f := by
  let member (m : String × String) : List Char := ' ' :: ' ' :: ((memberText m).toList ++ [','])
  have hlines : ((memberExpressions f.fields).map fun m =>
        "  " ++ propertyKey m.1 ++ ": " ++ m.2 ++ ",").flatMap (fun line => '\n' :: line.toList) =
      (memberExpressions f.fields).flatMap fun m => '\n' :: member m := by
    simp [List.flatMap_map, memberText, member]
  have hconstant : (constantText f).toList = "z.object(".toList ++ ('\x7b' :: '\n' ::
      ((memberExpressions f.fields).flatMap (fun m => member m ++ ['\n']) ++ "\x7d)".toList)) := by
    simp [constantText, methodCall, member]
  -- The line breaks in front of the members and behind them are the same.
  have hbreaks (ms : List (String × String)) (rest : List Char) :
      ms.flatMap (fun m => '\n' :: member m) ++ '\n' :: rest =
        '\n' :: (ms.flatMap (fun m => member m ++ ['\n']) ++ rest) := by
    induction ms with
    | nil => rfl
    | cons m ms ih => simp [ih]
  have hmembers := hbreaks (memberExpressions f.fields)
  rw [declarationText, hconstant, Form.declaration, List.flatMap_append, List.flatMap_append,
    List.flatMap_append, hlines]
  generalize (memberExpressions f.fields).flatMap _ = before at hmembers ⊢
  generalize (memberExpressions f.fields).flatMap _ = behind at hmembers ⊢
  simp [hmembers]

theorem constructorImport_toList {settings : Settings} (h : settings.HasPlainImport) :
    (constructorImport settings).toList = "import \x7b z \x7d from ".toList ++
      ((quoted settings.schemaImportPath).toList ++ [';']) := by
  have hquoted : quoted settings.schemaImportPath = "\"" ++ settings.schemaImportPath ++ "\"" := h
  rw [hquoted]
  unfold constructorImport
  simp

/-- The file of a form alone, if the numbers in it can be written. -/
theorem schemaFile_toList {f : Form} {settings : Settings} (h : settings.HasPlainImport)
    (hshort : ∀ n ∈ f.numbers, n.isShort = true) :
    ∃ file, schemaFile f [] settings = .ok file ∧
      file.toList = ("import \x7b z \x7d from ".toList ++
          ((quoted settings.schemaImportPath).toList ++ [';'])) ++ '\n' :: declarationText f := by
  have hordered : ordered [] = .ok [] := by
    simp [ordered, sharedNames, sortedNames, placeAll]
  refine ⟨lines (constructorImport settings :: "" :: (f.declaration ++ [""])), ?_, ?_⟩
  · rw [schemaFile, hordered]
    simpa using writing_of_short hshort _
  · rw [lines_toList, constructorImport_toList h, List.flatMap_cons, declaration_toList]
    rfl

/-! ## Runs -/

/-- The tokens of a text without a line break lie on one line. -/
theorem Spells.line {follow : List Char → Prop} {cs : List Char} {ts : List Token}
    (h : Spells follow cs ts) (hcs : '\n' ∉ cs) (before : Option Token) (rest : List Char)
    (p : Position) (hrest : follow rest) :
    ∃ items : List Placed, items.map Placed.token = ts ∧ (∀ t ∈ items, t.place.line = p.line) ∧
      tokensFrom before (cs ++ rest) p =
        (tokensFrom (ts.getLast?.or before) rest (p.past cs)).map (Tokens.prepend items) := by
  obtain ⟨items, hmap, hlines, hcut⟩ := h before rest p hrest
  refine ⟨items, hmap, fun t ht => ?_, hcut⟩
  obtain ⟨hlow, hhigh⟩ := hlines t ht
  rw [Position.past_of_not_mem hcs] at hhigh
  exact Nat.le_antisymm hhigh hlow

theorem lineFeed_not_mem_of_isWord {cs : List Char} (h : isWord cs = true) : '\n' ∉ cs := by
  obtain - | ⟨c, rest⟩ := cs
  · cases h
  simp only [isWord, Bool.and_eq_true, Bool.not_eq_true'] at h
  obtain ⟨⟨⟨hblank, -⟩, -⟩, hrest⟩ := h
  rw [List.mem_cons, not_or]
  constructor
  · rintro rfl
    revert hblank
    decide
  · intro hmem
    have hpart := List.all_eq_true.1 hrest _ hmem
    revert hpart
    decide

theorem lineFeed_not_mem_quoted (s : String) : '\n' ∉ (quoted s).toList := by
  have hhex (n : Nat) : '\n' ∉ Text.hexDigits 4 n := by
    rw [hexDigits_four]
    simp only [List.mem_cons, List.not_mem_nil, or_false, not_or]
    have hne (m : Nat) : '\n' ≠ Text.hexDigit (m % 16) :=
      (hexDigit_plain _ (Nat.mod_lt m (by decide))).2.2.2.2.2.2.2.symm
    exact ⟨hne _, hne _, hne _, hne _⟩
  have hchar (c : Char) : '\n' ∉ Text.quotedChar c := by
    unfold Text.quotedChar
    split
    iterate 7 simp
    rename_i hbreak _ _ _ _
    split
    · simpa using Ne.symm hbreak
    · rw [Text.unitEscape, List.mem_flatMap]
      rintro ⟨unit, -, hmem⟩
      simp only [List.mem_cons, Char.reduceEq, false_or] at hmem
      exact hhex unit hmem
  simp [Text.quotedChars, hchar]

/-- Wherever the text stands, it is one of statements that take the first scope to the second. -/
def Runs (scope : Scope) (cs : List Char) (scope' : Scope) : Prop :=
  ∀ (before : Option Token) (rest : List Char) (p : Position),
    ∃ (items : List Placed) (last : Option Token),
      tokensFrom before (cs ++ rest) p =
        (tokensFrom last rest (p.past cs)).map (Tokens.prepend items) ∧
      ∀ after, statements scope (items ++ after) = statements scope' after

/-- Texts that run one after the other run as one. -/
theorem Runs.append {scope scope' scope'' : Scope} {cs ds : List Char} (h : Runs scope cs scope')
    (h' : Runs scope' ds scope'') : Runs scope (cs ++ ds) scope'' := by
  intro before rest p
  obtain ⟨first, middle, hcut, hfirst⟩ := h before (ds ++ rest) p
  obtain ⟨second, last, hcut', hsecond⟩ := h' middle rest (p.past cs)
  refine ⟨first ++ second, last, ?_, fun after => ?_⟩
  · rw [List.append_assoc, hcut, hcut', map_prepend, Position.past_append]
  · rw [List.append_assoc, hfirst, hsecond]

/-- A text runs as the statements that its tokens are read as. -/
theorem Spells.runs {cs : List Char} {ts : List Token} {scope' : Scope}
    (h : Spells Anything cs ts) (hstatements : ∀ placed after : List Placed,
      placed.map Placed.token = ts → statements scope (placed ++ after) = statements scope' after) :
    Runs scope cs scope' := by
  intro before rest p
  obtain ⟨items, hitems, -, hcut⟩ := h before rest p trivial
  exact ⟨items, _, hcut, fun after => hstatements items after hitems⟩

/-- A text on one line. -/
theorem Spells.runs_line {cs : List Char} {ts : List Token} (h : Spells Anything cs ts)
    (hcs : '\n' ∉ cs) (hstatements : ∀ (placed after : List Placed) (line : Nat),
      placed.map Placed.token = ts → (∀ t ∈ placed, t.place.line = line) →
        statements scope (placed ++ after) = statements scope after) : Runs scope cs scope := by
  intro before rest p
  obtain ⟨items, hitems, hline, hcut⟩ := h.line hcs before rest p trivial
  exact ⟨items, _, hcut, fun after => hstatements items after _ hitems hline⟩

/-- A text without tokens. -/
theorem Spells.runs_blank {cs : List Char} (h : Spells Anything cs []) : Runs scope cs scope :=
  h.runs fun placed after hmap => by rw [List.map_eq_nil_iff.1 hmap, List.nil_append]

theorem runs_nil : Runs scope [] scope :=
  spells_nil.runs_blank

theorem runs_lineFeed : Runs scope ['\n'] scope :=
  spells_lineFeed.runs_blank

/-- The import of the constructors changes nothing. -/
theorem runs_import (path : String) :
    Runs scope ("import \x7b z \x7d from ".toList ++ ((quoted path).toList ++ [';'])) scope := by
  refine (spells_import path).runs_line ?_ fun placed after line => ?_
  · simpa using lineFeed_not_mem_quoted path
  · exact fun hmap hline => statements_import hmap rfl hline

/-- The export of a type changes nothing. -/
theorem runs_type {type name : String} (htype : isWord type.toList = true)
    (hname : isWord name.toList = true) :
    Runs scope ("export type ".toList ++ (type.toList ++
      (" = z.infer<typeof ".toList ++ (name.toList ++ ">;".toList)))) scope := by
  refine (spells_type htype hname).runs_line ?_ fun placed after line => ?_
  · simpa using ⟨lineFeed_not_mem_of_isWord htype, lineFeed_not_mem_of_isWord hname⟩
  · exact fun hmap hline => statements_type hmap rfl hline

/-- The export of a constant declares what its value means. -/
theorem runs_const {name e : String} {v : Value} (hname : isWord name.toList = true)
    (h : Means scope Stops e v) :
    Runs scope ("export const ".toList ++ (name.toList ++ (" = ".toList ++ (e.toList ++ [';']))))
      (scope.declare name v) := by
  obtain ⟨ts, hts, hdenotes⟩ := h
  exact (spells_const hname (spells_end hts)).runs fun placed after hmap =>
    statements_const hmap hdenotes

/-- A declaration is run: its constant is declared, its type is skipped. -/
theorem runs_declaration {f : Form} {v : Value} (hname : isWord f.schemaName.toList = true)
    (htype : isWord (Text.typeName f.schemaName).toList = true)
    (h : Means scope Stops (constantText f) v) :
    Runs scope (declarationText f) (scope.declare f.schemaName v) :=
  (runs_lineFeed.append (runs_const hname h)).append (runs_lineFeed.append
    (runs_lineFeed.append ((runs_type htype hname).append runs_lineFeed)))

/-- A text that can be run is read as what it declares. -/
theorem declarations_of_runs {file : String} {declared : List (String × Value)}
    (h : ∀ finish, Runs ⟨[], finish⟩ file.toList ⟨declared, finish⟩) :
    declarations file = .ok declared := by
  let finish := Position.start.past file.toList
  obtain ⟨items, last, hcut, hstatements⟩ := h finish none [] Position.start
  have htokens : tokenize file = .ok ⟨items, finish⟩ := by
    rw [List.append_nil, tokensFrom] at hcut
    rw [tokenize, hcut]
    simp [Except.map, Tokens.prepend, finish]
  have hrun := hstatements []
  rw [List.append_nil, statements] at hrun
  rw [declarations, htokens]
  show (statements ⟨[], finish⟩ items >>= fun scope => pure scope.declared) = _
  rw [hrun]
  rfl

/-! ## Whole files -/

/-- The constant of a form means the schema of the form. -/
theorem means_constantTextIn {named : String → Option Node}
    (hz : scope.lookup "z" = some .constructors) {f : Form}
    (h : ∀ root ∈ f.fields, ∀ g, root.Writes g → IsReadableIn scope named g) :
    Means scope Stops (constantText f) (.node (f.nodeIn named)) := by
  have hfields := means_membersIn hz f.fields h
  refine means_object hz hfields ?_
  refine ((meansEntries_lines [] hfields.entries).blank (c := '\n') (by decide)).means ?_
  rw [String.toList_ofList]

/-- The constant of a readable form means its node. -/
theorem means_constantText (hz : scope.lookup "z" = some .constructors) {f : Form}
    (h : f.IsReadable) : Means scope Stops (constantText f) (.node f.node) := by
  have hmeans : Means scope Stops (constantText f) (.node (f.nodeIn fun _ => none)) :=
    means_constantTextIn hz fun root hroot g hg => isReadableIn_of_isReadable (h root hroot g hg)
  rwa [Form.nodeIn_none] at hmeans

/-- A text that declares one schema is read as this schema. -/
theorem schema_of_runs {file name : String} {n : Node}
    (h : ∀ finish, Runs ⟨[], finish⟩ file.toList (Scope.declare ⟨[], finish⟩ name (.node n))) :
    schema file name = .ok n := by
  have hschemas : schemas file = .ok [(name, n)] := by
    rw [schemas, declarations_of_runs h]
    rfl
  have hlookup : [(name, n)].lookup name = some n := by
    simp
  rw [schema, hschemas]
  dsimp only [bind, Except.bind]
  rw [hlookup]
  rfl

/-- A schema file is read as the schema of the form. -/
theorem schema_schemaFile {f : Form} {settings : Settings} (hsettings : settings.HasPlainImport)
    (hname : isWord f.schemaName.toList = true)
    (htype : isWord (Text.typeName f.schemaName).toList = true) (h : f.IsReadable) :
    ∃ file, schemaFile f [] settings = .ok file ∧ schema file f.schemaName = .ok f.node := by
  obtain ⟨file, hfile, htext⟩ := schemaFile_toList hsettings h.numbers_isShort
  refine ⟨file, hfile, schema_of_runs fun finish => ?_⟩
  rw [htext]
  exact (runs_import _).append (runs_lineFeed.append
    (runs_declaration hname htype (means_constantText rfl h)))

/-- The text of a constant is read as the schema that its expression means. -/
theorem schema_const {name e : String} {n : Node} (hname : isWord name.toList = true)
    (h : ∀ scope : Scope, scope.declared = [] → Means scope Stops e (.node n)) :
    schema ("export const " ++ name ++ " = " ++ e ++ ";") name = .ok n := by
  refine schema_of_runs fun finish => ?_
  have hconst := runs_const hname (h ⟨[], finish⟩ rfl)
  simpa [String.toList_append] using hconst

end Source

end FormSchema
