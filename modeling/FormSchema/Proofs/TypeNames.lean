import FormSchema.Proofs.Files

/-!
# Names of types

A schema file names a type after the schema. The capital of a letter may need several characters,
and the marks among them are parts of no token. So the type of a word is a word, or its name holds
a character that is refused (`isWord_typeName_or`); then the file is not read
(`schema_error_of_typeName`). The capital of `ǰ` is such a case.
-/

namespace FormSchema

/-! ## Capitals -/

namespace Unicode

/-- ASCII without its letters, the blanks and the digits, as intervals of code points. -/
def specialIntervals : List Interval :=
  [(0, 0x40), (0x5b, 0x60), (0x7b, 0x7f)] ++ blankIntervals ++ decimalIntervals ++
    looseDigitIntervals

/-- A character that is neither blank nor a digit nor one of ASCII apart from the letters. -/
def isOrdinary (c : Char) : Bool :=
  specialIntervals.all fun run => !run.holds c.toNat

/-- Whether the row moves its code points to those of ordinary characters. -/
def CaseRow.isOrdinary (row : CaseRow) : Bool :=
  decide (0 ≤ row.first + row.shift) && (decide (row.last + row.shift < 0xd800) ||
    (decide (0xdfff < row.first + row.shift) && decide (row.last + row.shift < 0x110000))) &&
    specialIntervals.all fun run =>
      decide (row.last + row.shift < run.1) || decide (run.2 < row.first + row.shift)

theorem upperRows_isOrdinary : upperRows.all CaseRow.isOrdinary = true := by
  decide +kernel

theorem upperSequences_isOrdinary : upperSequences.all (fun entry =>
    entry.2 != [] && entry.2.all fun n => isOrdinary (Char.ofNat n)) = true := by
  decide +kernel

theorem toNat_ofNat_of_isValidChar {n : Nat} (h : n.isValidChar) : (Char.ofNat n).toNat = n := by
  rw [Char.ofNat, dif_pos h]
  rfl

/-- A row gives ordinary characters. -/
theorem isOrdinary_of_covers {row : CaseRow} (hrow : row ∈ upperRows) {n : Nat}
    (h : row.covers n = true) : isOrdinary (Char.ofNat (n + row.shift).toNat) = true := by
  have hordinary := List.all_eq_true.1 upperRows_isOrdinary row hrow
  simp only [CaseRow.isOrdinary, Bool.and_eq_true, Bool.or_eq_true, decide_eq_true_eq,
    List.all_eq_true] at hordinary
  obtain ⟨⟨hpositive, hvalid⟩, hruns⟩ := hordinary
  simp only [CaseRow.covers, Bool.and_eq_true, decide_eq_true_eq] at h
  obtain ⟨⟨hfirst, hlast⟩, -⟩ := h
  have htarget : (Char.ofNat (n + row.shift).toNat).toNat = (n + row.shift).toNat := by
    refine toNat_ofNat_of_isValidChar ?_
    unfold Nat.isValidChar
    omega
  rw [isOrdinary, htarget, List.all_eq_true]
  intro run hrun
  have hrow := hruns run hrun
  simp only [Interval.holds, Bool.not_eq_true', Bool.and_eq_false_iff, decide_eq_false_iff_not]
  omega

/-- The capital of a character that is no capital itself is made of ordinary characters. -/
theorem upper_cases (c : Char) : (c.toNat < 0x80 ∧ upper c = [c.toUpper]) ∨ upper c = [c] ∨
    (upper c ≠ [] ∧ ∀ d ∈ upper c, isOrdinary d = true) := by
  unfold upper
  split
  · rename_i h
    exact .inl ⟨h, rfl⟩
  · right
    split
    · rename_i n letters hfind
      have hmem := List.mem_of_find?_eq_some hfind
      have hordinary := List.all_eq_true.1 upperSequences_isOrdinary _ hmem
      simp only [Bool.and_eq_true, bne_iff_ne, ne_eq, List.all_eq_true] at hordinary
      exact .inr ⟨by simpa using hordinary.1, List.forall_mem_map.2 hordinary.2⟩
    · unfold shiftCase
      split
      · rename_i row hfind
        refine .inr ⟨by simp, ?_⟩
        rw [List.forall_mem_singleton]
        exact isOrdinary_of_covers (List.mem_of_find?_eq_some hfind)
          (by simpa using List.find?_some hfind)
      · exact .inl rfl

end Unicode

namespace Source

open Unicode (isOrdinary)

/-! ## Characters that are refused -/

/-- The character starts no token. -/
def isRefused (c : Char) : Bool :=
  !Unicode.isBlank c && c != '/' && c != '"' && c != '\'' && c != '\x60' && !Unicode.isDigit c &&
    !wordStart c && !punctuation.contains c

theorem nextPiece_refused {c : Char} (h : isRefused c = true) (before : Option Token)
    (rest : List Char) (p : Position) :
    nextPiece before c rest p = .error (.fault (.unexpectedCharacter c) p) := by
  simp only [isRefused, Bool.and_eq_true, Bool.not_eq_true', bne_iff_ne, ne_eq] at h
  obtain ⟨⟨⟨⟨⟨⟨⟨hblank, hslash⟩, hdouble⟩, hsingle⟩, htick⟩, hdigit⟩, hword⟩, hpunct⟩ := h
  simp only [nextPiece, hblank, hslash, hdouble, hsingle, htick, hdigit, hword, hpunct, beq_iff_eq,
    Bool.or_eq_true, Bool.false_eq_true, or_self, if_false]

/-- A refused character ends the cutting of a text. -/
theorem Spells.refused {follow : List Char → Prop} {cs : List Char} {ts : List Token} {c : Char}
    (h : Spells follow cs ts) (hc : isRefused c = true) (before : Option Token) (rest : List Char)
    (p : Position) (hfollow : follow (c :: rest)) :
    ∃ e, tokensFrom before (cs ++ c :: rest) p = .error e := by
  obtain ⟨items, -, -, hcut⟩ := h before (c :: rest) p hfollow
  rw [hcut, tokensFrom_error (nextPiece_refused hc _ rest _)]
  exact ⟨_, rfl⟩

/-- The code points of ASCII that are no letters. -/
def IsSpecial (n : Nat) : Prop :=
  n ≤ 0x40 ∨ (0x5b ≤ n ∧ n ≤ 0x60) ∨ (0x7b ≤ n ∧ n ≤ 0x7f)

theorem not_isSpecial_of_isOrdinary {c : Char} (h : isOrdinary c = true) :
    ¬IsSpecial c.toNat := by
  have hruns (run : Unicode.Interval) (hrun : run ∈ Unicode.specialIntervals) :
      run.holds c.toNat = false := by
    simpa using List.all_eq_true.1 h run hrun
  have hlow := hruns (0, 0x40) (by simp [Unicode.specialIntervals])
  have hmiddle := hruns (0x5b, 0x60) (by simp [Unicode.specialIntervals])
  have hhigh := hruns (0x7b, 0x7f) (by simp [Unicode.specialIntervals])
  simp only [Unicode.Interval.holds, Bool.and_eq_false_iff, decide_eq_false_iff_not] at *
  unfold IsSpecial
  omega

theorem not_blank_of_isOrdinary {c : Char} (h : isOrdinary c = true) :
    Unicode.isBlank c = false ∧ Unicode.isDigit c = false := by
  have hnone {runs : List Unicode.Interval} (hsub : runs ⊆ Unicode.specialIntervals) :
      Unicode.inIntervals runs c = false := by
    rw [Unicode.inIntervals, List.any_eq_false]
    exact fun run hrun => by simpa using List.all_eq_true.1 h run (hsub hrun)
  have hloose : Unicode.inIntervals Unicode.looseDigitIntervals c = false :=
    hnone fun run hrun => by simp [Unicode.specialIntervals, hrun]
  have hdecimal : Unicode.intervalOf? Unicode.decimalIntervals c = none := by
    have hdecimals : Unicode.inIntervals Unicode.decimalIntervals c = false :=
      hnone fun run hrun => by simp [Unicode.specialIntervals, hrun]
    rw [Unicode.inIntervals_eq_isSome] at hdecimals
    simpa using hdecimals
  have hascii : c.isDigit = false := by
    rw [Bool.eq_false_iff]
    intro hd
    simp only [Char.isDigit, Bool.and_eq_true, decide_eq_true_eq] at hd
    have hle : c.toNat ≤ 0x39 := UInt32.le_iff_toNat_le.1 hd.2
    exact not_isSpecial_of_isOrdinary h (.inl (Nat.le_trans hle (by decide)))
  refine ⟨hnone fun run hrun => by simp [Unicode.specialIntervals, hrun], ?_⟩
  simp [Unicode.isDigit, Unicode.isDecimal, Unicode.decimalDigit?, hloose, hdecimal, hascii]

/-- The character starts a word. -/
def StartsWord (c : Char) : Prop :=
  Unicode.isBlank c = false ∧ Unicode.isDigit c = false ∧ wordStart c = true

/-- An ordinary character starts a word, or it is refused. -/
theorem startsWord_or_isRefused {c : Char} (h : isOrdinary c = true) :
    StartsWord c ∨ isRefused c = true := by
  obtain ⟨hblank, hdigit⟩ := not_blank_of_isOrdinary h
  by_cases hstart : wordStart c = true
  · exact .inl ⟨hblank, hdigit, hstart⟩
  · right
    have hne {d : Char} (hd : IsSpecial d.toNat) : c ≠ d := by
      rintro rfl
      exact not_isSpecial_of_isOrdinary h hd
    have hpunct : punctuation.contains c = false := by
      have hspecial : punctuation.all (fun d => decide (d.toNat ≤ 0x40 ∨
          (0x5b ≤ d.toNat ∧ d.toNat ≤ 0x60) ∨ (0x7b ≤ d.toNat ∧ d.toNat ≤ 0x7f))) = true := by
        decide
      rw [Bool.eq_false_iff]
      intro hmem
      have hc := List.all_eq_true.1 hspecial c (List.contains_iff_mem.1 hmem)
      rw [decide_eq_true_eq] at hc
      exact hne hc rfl
    simp only [isRefused, hblank, hdigit, hpunct, Bool.eq_false_iff.2 hstart, Bool.not_false,
      Bool.and_true, Bool.true_and, Bool.and_eq_true, bne_iff_ne, and_assoc]
    unfold IsSpecial at hne
    exact ⟨hne (by decide), hne (by decide), hne (by decide), hne (by decide)⟩

/-! ## Type names -/

theorem dropReversedWord_suffix : ∀ {word : List (List Char)} {cs stem : List Char},
    Text.dropReversedWord word cs = some stem → stem <:+ cs
  | [], _, _, h => by
    cases h
    exact List.suffix_refl _
  | forms :: word, c :: rest, stem, h => by
    unfold Text.dropReversedWord at h
    split at h
    · exact (dropReversedWord_suffix h).trans (List.suffix_cons c rest)
    · cases h
  | _ :: _, [], _, h => by cases h

/-- Without the word at its end a word is the front of the word. -/
theorem dropSchemaWord_prefix {cs : List Char} (h : '\n' ∉ cs) :
    Text.dropSchemaWord cs <+: cs := by
  unfold Text.dropSchemaWord
  dsimp only
  split
  · rename_i stem hstem
    simpa using List.reverse_prefix.2 (dropReversedWord_suffix hstem)
  · split
    · rename_i rest hreverse
      have hmem : '\n' ∈ cs := by
        rw [← List.mem_reverse, hreverse]
        exact List.mem_cons_self
      exact absurd hmem h
    · exact List.prefix_refl cs

/-- Parts of words and refused characters are all parts of words, or one is refused behind some
parts of words. -/
theorem all_wordPart_or_exists_isRefused : ∀ {cs : List Char},
    (∀ c ∈ cs, wordPart c = true ∨ isRefused c = true) → cs.all wordPart = true ∨
      ∃ before c after, cs = before ++ c :: after ∧ before.all wordPart = true ∧
        wordPart c = false ∧ isRefused c = true
  | [], _ => .inl rfl
  | c :: rest, h => by
    obtain ⟨hc, hrest⟩ := List.forall_mem_cons.1 h
    by_cases hpart : wordPart c = true
    · rcases all_wordPart_or_exists_isRefused hrest with hall | ⟨before, d, after, rfl, hall, hd⟩
      · exact .inl (by rw [List.all_cons, hpart, hall]; rfl)
      · exact .inr ⟨c :: before, d, after, rfl, by rw [List.all_cons, hpart, hall]; rfl, hd⟩
    · exact .inr ⟨[], c, rest, rfl, rfl, Bool.eq_false_iff.2 hpart, hc.resolve_left hpart⟩

theorem startsWord_toUpper : ∀ n < 0x80, (!Unicode.isBlank (Char.ofNat n) &&
    !Unicode.isDigit (Char.ofNat n) && wordStart (Char.ofNat n)) = true →
      (!Unicode.isBlank (Char.ofNat n).toUpper && !Unicode.isDigit (Char.ofNat n).toUpper &&
        wordStart (Char.ofNat n).toUpper) = true := by
  decide

/-- The capital of a character that starts a word starts a word, but for refused characters. -/
theorem upper_of_startsWord {c : Char} (h : StartsWord c) :
    ∃ d ds, Unicode.upper c = d :: ds ∧ (StartsWord d ∨ isRefused d = true) ∧
      ∀ x ∈ ds, wordPart x = true ∨ isRefused x = true := by
  rcases Unicode.upper_cases c with ⟨hascii, hupper⟩ | hupper | ⟨hne, hordinary⟩
  · refine ⟨c.toUpper, [], hupper, .inl ?_, by simp⟩
    have hupper := startsWord_toUpper c.toNat hascii
    rw [Char.ofNat_toNat] at hupper
    simpa [StartsWord, and_assoc] using hupper (by simpa [StartsWord, and_assoc] using h)
  · exact ⟨c, [], hupper, .inl h, by simp⟩
  · obtain ⟨d, ds, hd⟩ := List.exists_cons_of_ne_nil hne
    rw [hd, List.forall_mem_cons] at hordinary
    refine ⟨d, ds, hd, startsWord_or_isRefused hordinary.1, fun x hx => ?_⟩
    exact (startsWord_or_isRefused (hordinary.2 x hx)).imp
      (fun hstart => wordPart_of_wordStart hstart.2.2) id

theorem startsWord_of_isWord {c : Char} {rest : List Char} (h : isWord (c :: rest) = true) :
    StartsWord c ∧ rest.all wordPart = true := by
  simpa [isWord, StartsWord, and_assoc] using h

theorem isWord_of_startsWord {c : Char} {rest : List Char} (h : StartsWord c)
    (hrest : rest.all wordPart = true) : isWord (c :: rest) = true := by
  simp [isWord, h.1, h.2.1, h.2.2, hrest]

/-- A character of the text is refused, and what stands before it is a word or nothing. -/
def HasRefused (cs : List Char) : Prop :=
  ∃ before c after, cs = before ++ c :: after ∧ isRefused c = true ∧
    (before = [] ∨ (isWord before = true ∧ wordPart c = false))

/-- The type of a word is a word, or a character of it is refused. -/
theorem isWord_typeName_or {name : String} (h : isWord name.toList = true) :
    isWord (Text.typeName name).toList = true ∨ HasRefused (Text.typeName name).toList := by
  have hprefix := dropSchemaWord_prefix (lineFeed_not_mem_of_isWord h)
  have hschema : isWord "Schema".toList = true := by decide
  unfold Text.typeName
  split
  · rename_i c rest hdrop
    split
    · exact .inl hschema
    · rw [hdrop] at hprefix
      obtain ⟨tail, htail⟩ := hprefix
      rw [← htail, List.cons_append] at h
      obtain ⟨hstart, hparts⟩ := startsWord_of_isWord h
      rw [List.all_append, Bool.and_eq_true] at hparts
      obtain ⟨d, ds, hupper, hd, hds⟩ := upper_of_startsWord hstart
      rw [hupper, String.toList_ofList, List.cons_append]
      rcases hd with hd | hd
      · have hrest : ∀ x ∈ ds ++ rest, wordPart x = true ∨ isRefused x = true := by
          intro x hx
          rcases List.mem_append.1 hx with hx | hx
          · exact hds x hx
          · exact .inl (List.all_eq_true.1 hparts.1 x hx)
        rcases all_wordPart_or_exists_isRefused hrest with hall | ⟨before, x, after, hsplit, hall,
          hpart, hx⟩
        · exact .inl (isWord_of_startsWord hd hall)
        · exact .inr ⟨d :: before, x, after, by rw [hsplit, List.cons_append], hx,
            .inr ⟨isWord_of_startsWord hd hall, hpart⟩⟩
      · exact .inr ⟨[], d, ds ++ rest, rfl, hd, .inl rfl⟩
  · exact .inl hschema

theorem identifierStart_toUpper : ∀ n < 128, Text.identifierStart (Char.ofNat n) = true →
    Text.identifierStart (Char.ofNat n).toUpper = true := by
  decide

/-- The type of an ASCII identifier is one, too. -/
theorem isIdentifier_typeName {name : String} (h : Text.isIdentifier name.toList = true) :
    Text.isIdentifier (Text.typeName name).toList = true := by
  have hprefix := dropSchemaWord_prefix (lineFeed_not_mem_of_isWord (isWord_of_isIdentifier h))
  have hschema : Text.isIdentifier "Schema".toList = true := by decide
  unfold Text.typeName
  split
  · rename_i c rest hdrop
    split
    · exact hschema
    · rw [hdrop] at hprefix
      obtain ⟨tail, htail⟩ := hprefix
      simp only [← htail, List.cons_append, Text.isIdentifier, List.all_append,
        Bool.and_eq_true] at h
      obtain ⟨hstart, hrest, -⟩ := h
      have hascii : c.toNat < 128 := identifierPart_lt (by simp [Text.identifierPart, hstart])
      have hupper : Unicode.upper c = [c.toUpper] := by rw [Unicode.upper, if_pos hascii]
      have hcapital := identifierStart_toUpper c.toNat hascii
      rw [Char.ofNat_toNat] at hcapital
      rw [hupper, String.toList_ofList, List.singleton_append, Text.isIdentifier, hcapital hstart,
        hrest, Bool.and_true]
  · exact hschema

/-! ## Files that are not read -/

/-- A schema file is not read if a character of the type name is refused. -/
theorem schema_error_of_typeName {f : Form} {settings : Settings}
    (hsettings : settings.HasPlainImport) (hname : isWord f.schemaName.toList = true)
    (htype : HasRefused (Text.typeName f.schemaName).toList) (h : f.IsReadable) :
    ∃ file e, schemaFile f [] settings = .ok file ∧ schema file f.schemaName = .error e := by
  obtain ⟨file, hfile, htext⟩ := schemaFile_toList hsettings h.numbers_isShort
  let scope : Scope := ⟨[], Position.start⟩
  have hz : scope.lookup "z" = some .constructors := rfl
  obtain ⟨ts, hts, -⟩ := means_constantText hz h
  have hbreaks : Spells Anything ['\n', '\n'] [] := spells_lineFeed.then spells_lineFeed
  have hfront := ((spells_import settings.schemaImportPath).then
    ((hbreaks.then (spells_const hname (spells_end hts))).then hbreaks)).then
      ((spells_wordSpace "export" (by decide)).then (spells_wordSpace "type" (by decide)))
  obtain ⟨before, c, after, hsplit, hc, hbefore⟩ := htype
  obtain ⟨e, he⟩ : ∃ e, tokenize file = .error e := by
    rw [tokenize, htext, declarationText, hsplit]
    rcases hbefore with rfl | ⟨hword, hpart⟩
    · obtain ⟨e, he⟩ := hfront.refused hc none
        (after ++ (" = z.infer<typeof ".toList ++ (f.schemaName.toList ++ ">;".toList)) ++ ['\n'])
        Position.start trivial
      exact ⟨e, by simpa using he⟩
    · obtain ⟨e, he⟩ := (hfront.then (spells_word hword)).refused hc none
        (after ++ (" = z.infer<typeof ".toList ++ (f.schemaName.toList ++ ">;".toList)) ++ ['\n'])
        Position.start (stops_cons hpart _)
      exact ⟨e, by simpa using he⟩
  refine ⟨file, e, hfile, ?_⟩
  rw [schema, schemas, declarations, he]
  rfl

end Source

end FormSchema
