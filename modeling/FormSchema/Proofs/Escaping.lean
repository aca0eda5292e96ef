import FormSchema.Proofs.Literals
import FormSchema.Text.Escape

/-!
# Escaped texts stay where they are

Text in an attribute is one string with the quotes around it (`spells_escapeAttribute`), and text in
a template literal is one string with the backticks around it (`spells_escapeTemplate`), so neither
ends early, and both are read back. Between tags nothing is left that opens a tag or an expression,
every ampersand begins one of the five entities, and reading the entities from the left gives the
text (`unescape_escapeText`).

Each way of escaping is a chain of replacements in the whole text, where a later one goes over what
an earlier one has put in (`replaceAll_attribute` and those after it). It comes to one pass since
what escapes a character comes first in the chain, or is not asked for again.
-/

namespace FormSchema

namespace Text

/-! ## Replacements -/

/-- The text with every occurrence of a pattern replaced, where occurrences are looked for from the
left and do not overlap. -/
def replaceAll (pattern new : List Char) : List Char → List Char
  | [] => []
  | c :: rest =>
    if pattern.isPrefixOf (c :: rest) then
      new ++ replaceAll pattern new (rest.drop (pattern.length - 1))
    else c :: replaceAll pattern new rest
termination_by cs => cs.length
decreasing_by
  · simp only [List.length_drop, List.length_cons]; omega
  · simp

/-- The characters that replace a character, if it is the one that is looked for. -/
def replaced (x : Char) (new : List Char) (c : Char) : List Char :=
  if c = x then new else [c]

theorem replaced_of_ne {x c : Char} (h : c ≠ x) (new : List Char) : replaced x new c = [c] :=
  if_neg h

/-- A single character is replaced wherever it stands. -/
theorem replaceAll_singleton (x : Char) (new : List Char) : ∀ cs : List Char,
    replaceAll [x] new cs = cs.flatMap (replaced x new)
  | [] => by rw [replaceAll]; rfl
  | c :: rest => by
    rw [replaceAll, List.flatMap_cons, ← replaceAll_singleton x new rest, replaced]
    by_cases hc : c = x
    · simp [hc]
    · simp [hc, Ne.symm hc]

/-- In an attribute backslashes are replaced first, then quotes, then line breaks. -/
theorem replaceAll_attribute (s : String) :
    (escapeAttribute s).toList =
      replaceAll ['\n'] ['\\', 'n'] (replaceAll ['"'] ['\\', '"']
        (replaceAll ['\\'] ['\\', '\\'] s.toList)) := by
  simp only [toList_escapeAttribute, replaceAll_singleton, List.flatMap_assoc]
  congr 1
  funext c
  unfold attributeChar
  split
  · rfl
  · rfl
  · rfl
  · rename_i hslash hquote hbreak
    simp [replaced_of_ne hslash, replaced_of_ne hquote, replaced_of_ne hbreak]

/-- Between tags ampersands are replaced first, then the brackets. -/
theorem replaceAll_text (s : String) :
    (escapeText s).toList =
      replaceAll ['\x7d'] "&#125;".toList (replaceAll ['\x7b'] "&#123;".toList
        (replaceAll ['>'] "&gt;".toList (replaceAll ['<'] "&lt;".toList
          (replaceAll ['&'] "&amp;".toList s.toList)))) := by
  simp only [toList_escapeText, replaceAll_singleton, List.flatMap_assoc]
  congr 1
  funext c
  unfold textChar
  split
  · rfl
  · rfl
  · rfl
  · rfl
  · rfl
  · rename_i hand hless hmore hopen hclose
    simp [replaced_of_ne hand, replaced_of_ne hless, replaced_of_ne hmore, replaced_of_ne hopen,
      replaced_of_ne hclose]

theorem replaceAll_cons_of_ne {x c : Char} (h : c ≠ x) (pattern new rest : List Char) :
    replaceAll (x :: pattern) new (c :: rest) = c :: replaceAll (x :: pattern) new rest := by
  rw [replaceAll, if_neg]
  simp [Ne.symm h]

/-- The text with backslashes and backticks escaped. -/
def escapeTicks (cs : List Char) : List Char :=
  replaceAll ['\x60'] ['\\', '\x60'] (replaceAll ['\\'] ['\\', '\\'] cs)

theorem escapeTicks_eq (cs : List Char) :
    escapeTicks cs = cs.flatMap fun c =>
      (replaced '\\' ['\\', '\\'] c).flatMap (replaced '\x60' ['\\', '\x60']) := by
  simp only [escapeTicks, replaceAll_singleton, List.flatMap_assoc]

theorem escapeTicks_cons {c : Char} (hslash : c ≠ '\\') (htick : c ≠ '\x60') (rest : List Char) :
    escapeTicks (c :: rest) = c :: escapeTicks rest := by
  simp [escapeTicks_eq, replaced_of_ne hslash, replaced_of_ne htick]

/-- A dollar sign that opens no substitution in a text opens none when the text is escaped. -/
theorem not_opens_escapeTicks {rest : List Char} (h : ∀ more, rest ≠ '\x7b' :: more) :
    ['$', '\x7b'].isPrefixOf ('$' :: escapeTicks rest) = false := by
  cases rest with
  | nil => simp [escapeTicks_eq, List.isPrefixOf]
  | cons d rest =>
    have hd : d ≠ '\x7b' := fun hd => h rest (hd ▸ rfl)
    by_cases hslash : d = '\\'
    · simp [hslash, escapeTicks_eq, replaced, List.isPrefixOf]
    by_cases htick : d = '\x60'
    · simp [htick, escapeTicks_eq, replaced, List.isPrefixOf]
    · simp [escapeTicks_cons hslash htick, Ne.symm hd, List.isPrefixOf]

/-- In a template literal backslashes are replaced first, then backticks, then what would open a
substitution. -/
theorem replaceAll_template (s : String) :
    (escapeTemplate s).toList =
      replaceAll ['$', '\x7b'] ['\\', '$', '\x7b'] (replaceAll ['\x60'] ['\\', '\x60']
        (replaceAll ['\\'] ['\\', '\\'] s.toList)) := by
  rw [toList_escapeTemplate]
  show templateChars s.toList = replaceAll _ _ (escapeTicks s.toList)
  induction s.toList using templateChars.induct with
  | case1 => rw [escapeTicks_eq, List.flatMap_nil, templateChars, replaceAll]
  | case2 rest ih =>
    rw [templateChars, ih, escapeTicks_eq ('\\' :: rest), List.flatMap_cons, ← escapeTicks_eq]
    simp [replaced, replaceAll_cons_of_ne]
  | case3 rest ih =>
    rw [templateChars, ih, escapeTicks_eq ('\x60' :: rest), List.flatMap_cons, ← escapeTicks_eq]
    simp [replaced, replaceAll_cons_of_ne]
  | case4 rest ih =>
    rw [templateChars, ih, escapeTicks_cons (by decide) (by decide),
      escapeTicks_cons (by decide) (by decide), replaceAll.eq_2, if_pos (by simp [List.isPrefixOf])]
    rfl
  | case5 c rest hslash htick hopen ih =>
    rw [templateChars.eq_5 c rest hslash htick hopen, ih, escapeTicks_cons hslash htick]
    by_cases hc : c = '$'
    · subst hc
      rw [replaceAll.eq_2, not_opens_escapeTicks fun more hmore => hopen more rfl hmore]
      rfl
    · rw [replaceAll_cons_of_ne hc]

/-! ## Entities -/

/-- The entities, each with the character that it stands for. -/
def entities : List (List Char × Char) :=
  [("&amp;".toList, '&'), ("&lt;".toList, '<'), ("&gt;".toList, '>'), ("&#123;".toList, '\x7b'),
    ("&#125;".toList, '\x7d')]

/-- The entity that a text begins with. -/
def entityAt? (cs : List Char) : Option (List Char × Char) :=
  entities.find? fun e => e.1.isPrefixOf cs

/-- The text with every entity replaced by its character, from the left. -/
def unescapeChars : List Char → List Char
  | [] => []
  | c :: rest =>
    match entityAt? (c :: rest) with
    | some e => e.2 :: unescapeChars (rest.drop (e.1.length - 1))
    | none => c :: unescapeChars rest
termination_by cs => cs.length
decreasing_by
  · simp only [List.length_drop, List.length_cons]; omega
  · simp

/-- The text that stands between tags as a given text. -/
def unescapeText (s : String) : String :=
  String.ofList (unescapeChars s.toList)

/-- A character between tags is written by its entity, or as it is if it has none. -/
theorem textChar_cases (c : Char) :
    (∃ e ∈ entities, textChar c = e.1 ∧ e.2 = c) ∨
      (textChar c = [c] ∧ c ≠ '&' ∧ c ≠ '<' ∧ c ≠ '>' ∧ c ≠ '\x7b' ∧ c ≠ '\x7d') := by
  unfold textChar
  split
  · exact .inl ⟨("&amp;".toList, '&'), by simp [entities], rfl, rfl⟩
  · exact .inl ⟨("&lt;".toList, '<'), by simp [entities], rfl, rfl⟩
  · exact .inl ⟨("&gt;".toList, '>'), by simp [entities], rfl, rfl⟩
  · exact .inl ⟨("&#123;".toList, '\x7b'), by simp [entities], rfl, rfl⟩
  · exact .inl ⟨("&#125;".toList, '\x7d'), by simp [entities], rfl, rfl⟩
  · rename_i hand hless hmore hopen hclose
    exact .inr ⟨rfl, hand, hless, hmore, hopen, hclose⟩

/-- No entity begins with another one, so the one that is written is found. -/
theorem unescapeChars_entity {e : List Char × Char} (he : e ∈ entities) (rest : List Char) :
    unescapeChars (e.1 ++ rest) = e.2 :: unescapeChars rest := by
  have hfound : entityAt? (e.1 ++ rest) = some e := by
    fin_cases he <;> rfl
  obtain ⟨⟨_ | ⟨d, ds⟩, c⟩⟩ := e
  · exact absurd he (by simp [entities])
  · rw [List.cons_append, unescapeChars, ← List.cons_append, hfound]
    simp

theorem unescapeChars_plain {c : Char} (hc : c ≠ '&') (rest : List Char) :
    unescapeChars (c :: rest) = c :: unescapeChars rest := by
  have hnone : entityAt? (c :: rest) = none := by
    simp [entityAt?, entities, List.isPrefixOf, Ne.symm hc]
  rw [unescapeChars, hnone]

/-- Text between tags stands for the text that was escaped. -/
theorem unescape_escapeText (s : String) : unescapeText (escapeText s) = s := by
  have hchars : ∀ cs : List Char, unescapeChars (cs.flatMap textChar) = cs := by
    intro cs
    induction cs with
    | nil => rw [List.flatMap_nil, unescapeChars]
    | cons c rest ih =>
      rw [List.flatMap_cons]
      rcases textChar_cases c with ⟨e, he, hchar, rfl⟩ | ⟨hchar, hand, -⟩
      · rw [hchar, unescapeChars_entity he, ih]
      · rw [hchar, List.singleton_append, unescapeChars_plain hand, ih]
  rw [unescapeText, toList_escapeText, hchars, String.ofList_toList]

/-- Every ampersand of the text begins an entity. -/
def OpensEntities (cs : List Char) : Prop :=
  ∀ before after, cs = before ++ '&' :: after → ∃ e ∈ entities, e.1 <+: '&' :: after

/-- In an entity the ampersand comes first, and only there. -/
theorem ampersand_first : ∀ e ∈ entities, '&' ∉ e.1.tail := by
  decide

theorem opensEntities_escapeText (s : String) : OpensEntities (escapeText s).toList := by
  rw [toList_escapeText]
  induction s.toList with
  | nil =>
    intro before after h
    simp at h
  | cons c rest ih =>
    intro before after h
    rw [List.flatMap_cons, List.append_eq_append_iff] at h
    rcases h with ⟨between, rfl, hrest⟩ | ⟨between, hchar, hrest⟩
    · exact ih between after hrest
    cases between with
    | nil => exact ih [] after hrest.symm
    | cons d between =>
      -- The ampersand is one of the characters that are written for `c`.
      obtain ⟨rfl, rfl⟩ := List.cons.inj hrest
      rcases textChar_cases c with ⟨e, he, hentity, -⟩ | ⟨hplain, hand, -⟩
      · rw [hentity] at hchar
        cases before with
        | nil => exact ⟨e, he, by rw [hchar]; exact List.prefix_append _ _⟩
        | cons b before => exact absurd (by simp [hchar]) (ampersand_first e he)
      · rw [hplain] at hchar
        have hmem : '&' ∈ [c] := by simp [hchar]
        exact absurd (List.mem_singleton.1 hmem).symm hand

/-- The characters that no entity is written with. -/
def unwritten : List Char :=
  ['<', '>', '\x7b', '\x7d', '\n']

theorem entities_written : ∀ e ∈ entities, (e.1.all fun c => !unwritten.contains c) = true := by
  decide

theorem not_mem_entity {e : List Char × Char} (he : e ∈ entities) {c : Char}
    (hc : c ∈ unwritten) : c ∉ e.1 := by
  intro hmem
  have hwritten := List.all_eq_true.1 (entities_written e he) c hmem
  simp [hc] at hwritten

/-- Between tags there are no brackets of tags or expressions. -/
theorem not_mem_escapeText {c : Char} (hc : c ∈ ['<', '>', '\x7b', '\x7d']) (s : String) :
    c ∉ (escapeText s).toList := by
  rw [toList_escapeText, List.mem_flatMap]
  rintro ⟨d, -, hmem⟩
  rcases textChar_cases d with ⟨e, he, hchar, -⟩ | ⟨hchar, -, hless, hmore, hopen, hclose⟩
  · rw [hchar] at hmem
    exact not_mem_entity he (List.mem_append_left ['\n'] hc) hmem
  · rw [hchar] at hmem
    obtain rfl := List.mem_singleton.1 hmem
    simp [hless, hmore, hopen, hclose] at hc

theorem lineFeed_not_mem_escapeAttribute (s : String) : '\n' ∉ (escapeAttribute s).toList := by
  rw [toList_escapeAttribute, List.mem_flatMap]
  rintro ⟨c, -, hmem⟩
  unfold attributeChar at hmem
  split at hmem
  · simp at hmem
  · simp at hmem
  · simp at hmem
  · rename_i hbreak
    exact hbreak (List.mem_singleton.1 hmem).symm

end Text

namespace Source

open Text (attributeChar escapeAttribute templateChars escapeTemplate escapeText unescapeText
  OpensEntities)

/-! ## Attributes -/

/-- A character of an attribute is read as itself. -/
theorem stringBody_attributeChar {start : Position} (c : Char) (rest : List Char) (p : Position) :
    stringBody '"' start (attributeChar c ++ rest) p =
      (stringBody '"' start rest (p.past (attributeChar c))).map (prependBody [c]) := by
  unfold attributeChar
  split
  · exact stringBody_escape (by decide) rfl
  · exact stringBody_escape (by decide) rfl
  · exact stringBody_simple rfl rest p
  · rename_i hslash hquote hbreak
    exact stringBody_plain hslash hquote (absurd · hbreak) (fun h => absurd h (by decide)) p

theorem stringBody_attribute (start : Position) (cs rest : List Char) (p : Position) :
    stringBody '"' start (cs.flatMap attributeChar ++ '"' :: rest) p =
      .ok (cs, ⟨rest, p.past (cs.flatMap attributeChar ++ ['"'])⟩) := by
  induction cs generalizing p with
  | nil => exact stringBody_close (by decide) rest p
  | cons c cs ih =>
    rw [List.flatMap_cons, List.append_assoc, stringBody_attributeChar, ih, List.append_assoc,
      Position.past_append p]
    rfl

/-- A text escaped for an attribute is one string with quotes around it, whatever follows. -/
theorem spells_escapeAttribute (s : String) :
    Spells Anything ("\"" ++ escapeAttribute s ++ "\"").toList [.string s] := by
  have hlist : ("\"" ++ escapeAttribute s ++ "\"").toList =
      '"' :: (s.toList.flatMap attributeChar ++ ['"']) := by simp
  have hspells := @spells_string '"' _ _ (by decide) fun start rest p =>
    stringBody_attribute start s.toList rest p
  rwa [String.ofList_toList, ← hlist] at hspells

/-- What markup shows of a text says what the text says, and nothing else. In an attribute it is
one string on one line. Between tags it has no brackets, its ampersands begin entities, and the text
is what the entities stand for. -/
theorem escaped_confined (s : String) :
    (spelled ("\"" ++ escapeAttribute s ++ "\"") = .ok [.string s] ∧
      '\n' ∉ (escapeAttribute s).toList) ∧
    ('<' ∉ (escapeText s).toList ∧ '>' ∉ (escapeText s).toList ∧ '\x7b' ∉ (escapeText s).toList ∧
      '\x7d' ∉ (escapeText s).toList) ∧
    OpensEntities (escapeText s).toList ∧ unescapeText (escapeText s) = s :=
  ⟨⟨spelled_of_spells (spells_escapeAttribute s) trivial, Text.lineFeed_not_mem_escapeAttribute s⟩,
    ⟨Text.not_mem_escapeText (by decide) s, Text.not_mem_escapeText (by decide) s,
      Text.not_mem_escapeText (by decide) s, Text.not_mem_escapeText (by decide) s⟩,
    Text.opensEntities_escapeText s, Text.unescape_escapeText s⟩

/-! ## Template literals -/

/-- Escaping puts no brace where there was none. -/
theorem bracesNext_templateChars {cs rest : List Char} (h : bracesNext cs = false)
    (hrest : bracesNext rest = false) : bracesNext (templateChars cs ++ rest) = false := by
  unfold templateChars
  split
  · exact hrest
  · rfl
  · rfl
  · rfl
  · rwa [List.cons_append, bracesNext_cons, ← bracesNext_cons]

/-- A dollar sign that opens no substitution has no brace behind it. -/
theorem bracesNext_of_not_opens {c : Char} {rest : List Char}
    (hopen : ∀ more, c = '$' → rest = '\x7b' :: more → False) :
    c = '$' → bracesNext rest = false :=
  fun hc => bracesNext_of_ne fun more => hopen more hc

theorem stringBody_template (start : Position) (cs rest : List Char) (p : Position) :
    stringBody '\x60' start (templateChars cs ++ '\x60' :: rest) p =
      .ok (cs, ⟨rest, p.past (templateChars cs ++ ['\x60'])⟩) := by
  fun_induction templateChars cs generalizing p with
  | case1 => exact stringBody_close (by decide) rest p
  | case2 cs ih =>
    rw [List.cons_append, List.cons_append, stringBody_escape (by decide) rfl, ih]
    rfl
  | case3 cs ih =>
    rw [List.cons_append, List.cons_append, stringBody_escape (by decide) rfl, ih]
    rfl
  | case4 cs ih =>
    rw [List.cons_append, List.cons_append, stringBody_escape (by decide) rfl, List.cons_append,
      stringBody_plain (by decide) (by decide) (fun _ => rfl) (fun _ h => absurd h (by decide)), ih]
    rfl
  | case5 c cs hslash htick hopen ih =>
    have hnext := bracesNext_of_not_opens hopen
    rw [List.cons_append, stringBody_plain hslash htick (fun _ => rfl)
      (fun _ hc => bracesNext_templateChars (hnext hc) rfl), ih]
    rfl

/-- A text escaped for a template literal is one string with backticks around it, whatever
follows. -/
theorem spells_escapeTemplate (s : String) :
    Spells Anything ("\x60" ++ escapeTemplate s ++ "\x60").toList [.string s] := by
  have hlist : ("\x60" ++ escapeTemplate s ++ "\x60").toList =
      '\x60' :: (templateChars s.toList ++ ['\x60']) := by simp
  have hspells := @spells_string '\x60' _ _ (by decide) fun start rest p =>
    stringBody_template start s.toList rest p
  rwa [String.ofList_toList, ← hlist] at hspells

end Source

end FormSchema
