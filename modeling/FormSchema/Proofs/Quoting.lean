import Mathlib
import FormSchema.Proofs.Lexing
import FormSchema.Text.Quoted

/-!
# String literals are read back

A quoted text is one string token (`spells_quoted`). A character of the basic plane is read back
as it was. Any other is written by two units, neither of which belongs to a character on its own,
and each is read as the replacement character. So a text is read back exactly if it stays in the
basic plane (`reread_eq`).

A property key is one token too, a word or a string, and its name is read back in the same way.
-/

namespace FormSchema

namespace Text

/-- What the literal of a character is read back as. -/
def rereadChar (c : Char) : List Char :=
  if c.toNat < 0x10000 then [c] else [Char.ofNat 0xfffd, Char.ofNat 0xfffd]

/-- What the literal of a text is read back as. -/
def reread (s : String) : String :=
  String.ofList (s.toList.flatMap rereadChar)

/-- Whether a text stays in the basic plane of Unicode. -/
def isBasic (s : String) : Bool :=
  s.toList.all fun c => decide (c.toNat < 0x10000)

/-- A text of the basic plane is read back as it was. -/
theorem reread_eq {s : String} (h : isBasic s = true) : reread s = s := by
  have hchars : ∀ cs : List Char, (cs.all fun c => decide (c.toNat < 0x10000)) = true →
      cs.flatMap rereadChar = cs := by
    intro cs hcs
    induction cs with
    | nil => rfl
    | cons c rest ih =>
      rw [List.all_cons, Bool.and_eq_true, decide_eq_true_eq] at hcs
      rw [List.flatMap_cons, ih hcs.2, rereadChar, if_pos hcs.1, List.singleton_append]
  rw [reread, hchars s.toList h, String.ofList_toList]

end Text

namespace Source

open Text (hexDigit hexDigits unitEscape utf16Units quotedChar quotedChars quoted rereadChar
  reread propertyKey isIdentifier)

/-! ## Hexadecimal digits -/

theorem digitValue_hexDigit : ∀ d < 16, digitValue? (hexDigit d) = some d := by decide

/-- No hexadecimal digit is taken for anything else in an escape. -/
theorem hexDigit_plain : ∀ d < 16, Unicode.isSpace (hexDigit d) = false ∧ hexDigit d ≠ '-' ∧
    hexDigit d ≠ '+' ∧ hexDigit d ≠ 'x' ∧ hexDigit d ≠ 'X' ∧ hexDigit d ≠ '_' ∧
    hexDigit d ≠ '\x7b' ∧ hexDigit d ≠ '\n' := by decide

theorem hexDigits_four (n : Nat) : hexDigits 4 n =
    [hexDigit (n / 16 / 16 / 16 % 16), hexDigit (n / 16 / 16 % 16), hexDigit (n / 16 % 16),
      hexDigit (n % 16)] := rfl

theorem trimBy_eq_self {test : Char → Bool} {cs : List Char} (h : ∀ c ∈ cs, test c = false) :
    Unicode.trimBy test cs = cs := by
  have hdrop : ∀ ds : List Char, (∀ c ∈ ds, test c = false) → ds.dropWhile test = ds := by
    intro ds hds
    cases ds with
    | nil => rfl
    | cons d ds => rw [List.dropWhile_cons_of_neg (by simp [hds d List.mem_cons_self])]
  rw [Unicode.trimBy, hdrop cs h, hdrop cs.reverse (fun c hc => h c (List.mem_reverse.1 hc)),
    List.reverse_reverse]

/-- Four hexadecimal digits are read as the number they were written for. -/
theorem hexInteger_hexDigits {n : Nat} (h : n < 0x10000) :
    hexInteger? (hexDigits 4 n) = some (n : Int) := by
  have lt (m : Nat) : m % 16 < 16 := Nat.mod_lt m (by decide)
  obtain ⟨hs3, hm3, hp3, -⟩ := hexDigit_plain _ (lt (n / 16 / 16 / 16))
  obtain ⟨hs2, -, -, hx2, hX2, -⟩ := hexDigit_plain _ (lt (n / 16 / 16))
  obtain ⟨hs1, -⟩ := hexDigit_plain _ (lt (n / 16))
  obtain ⟨hs0, -⟩ := hexDigit_plain _ (lt n)
  have v3 := digitValue_hexDigit _ (lt (n / 16 / 16 / 16))
  have v2 := digitValue_hexDigit _ (lt (n / 16 / 16))
  have v1 := digitValue_hexDigit _ (lt (n / 16))
  have v0 := digitValue_hexDigit _ (lt n)
  have u2 := (hexDigit_plain _ (lt (n / 16 / 16))).2.2.2.2.2.1
  have u1 := (hexDigit_plain _ (lt (n / 16))).2.2.2.2.2.1
  have u0 := (hexDigit_plain _ (lt n)).2.2.2.2.2.1
  rw [hexDigits_four]
  generalize hexDigit (n / 16 / 16 / 16 % 16) = d3 at *
  generalize hexDigit (n / 16 / 16 % 16) = d2 at *
  generalize hexDigit (n / 16 % 16) = d1 at *
  generalize hexDigit (n % 16) = d0 at *
  have htrim : Unicode.trimSpace [d3, d2, d1, d0] = [d3, d2, d1, d0] :=
    trimBy_eq_self (by simp [hs3, hs2, hs1, hs0])
  have hsign : signPart [d3, d2, d1, d0] = (false, [d3, d2, d1, d0]) := by
    unfold signPart
    split <;> simp_all
  have hmark : dropHexMark [d3, d2, d1, d0] = [d3, d2, d1, d0] := by
    simp [dropHexMark, hx2, hX2]
  have hspaced : spacedDigits? 16 false [d3, d2, d1, d0] =
      some [n / 16 / 16 / 16 % 16, n / 16 / 16 % 16, n / 16 % 16, n % 16] := by
    simp [spacedDigits?, v3, v2, v1, v0, u2, u1, u0, lt]
  simp only [hexInteger?, htrim, hsign, hmark, hspaced, Option.map_some, ofDigits,
    List.foldl_cons, List.foldl_nil, Bool.false_eq_true, if_false, Option.some.injEq]
  omega

/-! ## The body of a string -/

/-- The result of reading a body that begins with some characters more. -/
def prependBody (cs : List Char) (r : List Char × Cursor) : List Char × Cursor :=
  (cs ++ r.1, r.2)

/-- At its quote the body of a string ends. -/
theorem stringBody_close {quote : Char} {start : Position} (hquote : quote ≠ '\n')
    (rest : List Char) (p : Position) :
    stringBody quote start (quote :: rest) p = .ok ([], ⟨rest, p.step quote⟩) := by
  rw [stringBody, if_neg (by simp [hquote]), if_pos (beq_self_eq_true quote)]

/-- What follows makes no difference, unless it opens with a brace. -/
theorem bracesNext_append {rest : List Char} (h : bracesNext rest = false) (cs : List Char) :
    bracesNext (cs ++ rest) = bracesNext cs := by
  cases cs with
  | nil => exact h
  | cons c cs => rw [List.cons_append, bracesNext_cons, bracesNext_cons]

/-- A plain character stands for itself in a string. -/
theorem stringBody_plain {quote : Char} {start : Position} {c : Char} {rest : List Char}
    (hslash : c ≠ '\\') (hquote : c ≠ quote) (hbreak : c = '\n' → quote = '\x60')
    (hopen : quote = '\x60' → c = '$' → bracesNext rest = false) (p : Position) :
    stringBody quote start (c :: rest) p =
      (stringBody quote start rest (p.step c)).map (prependBody [c]) := by
  have hbrace : ¬(quote == '\x60' && c == '$' && bracesNext rest) = true := by
    simp only [Bool.and_eq_true, beq_iff_eq, not_and, Bool.not_eq_true]
    exact fun h => hopen h.1 h.2
  rw [stringBody, if_neg (by simpa using hbreak), if_neg (by simpa using hquote), if_neg hbrace,
    if_neg (by simpa using hslash)]
  cases stringBody quote start rest (p.step c) <;> rfl

/-- An escape stands for its characters in a string. -/
theorem stringBody_escape {quote : Char} {start : Position} {cs after : List Char} {p q : Position}
    {chars : List Char} (hquote : '\\' ≠ quote)
    (h : escape cs (p.step '\\') = .ok (chars, ⟨after, q⟩)) :
    stringBody quote start ('\\' :: cs) p =
      (stringBody quote start after q).map (prependBody chars) := by
  rw [stringBody]
  simp only [beq_iff_eq, Bool.and_eq_true, bne_iff_ne, ne_eq, Char.reduceEq, hquote, and_false,
    false_and, if_false, if_true]
  split
  · simp_all
  · rename_i found last heq
    rw [h] at heq
    cases heq
    dsimp only
    cases stringBody quote start after q <;> rfl

theorem stringBody_simple {start : Position} {c d : Char} (h : simpleEscape? c = some d)
    (rest : List Char) (p : Position) :
    stringBody '"' start ('\\' :: c :: rest) p =
      (stringBody '"' start rest ((p.step '\\').step c)).map (prependBody [d]) :=
  stringBody_escape (by decide) (by simp [escape, h])

/-- The character that one unit is read as. -/
def charOfUnit (n : Nat) : Char :=
  if 0xd800 ≤ n ∧ n ≤ 0xdfff then Char.ofNat 0xfffd else Char.ofNat n

/-- Four written digits give the character of the unit. -/
theorem charOfHex_hexDigits {n : Nat} (h : n < 0x10000) :
    charOfHex (hexDigits 4 n) = .ok (charOfUnit n) := by
  rw [charOfHex, hexInteger_hexDigits h]
  simp only [charOfCode, charOfUnit]
  rw [if_neg (by simp; omega), if_neg (by simp; omega)]
  split <;> rename_i hs
  · rw [if_pos (by simp at hs; omega)]
  · rw [if_neg (by simp at hs; omega), Int.toNat_natCast]

theorem stringBody_unit {start : Position} {n : Nat} (h : n < 0x10000) (rest : List Char)
    (p : Position) :
    stringBody '"' start ('\\' :: 'u' :: (hexDigits 4 n ++ rest)) p =
      (stringBody '"' start rest (p.past ('\\' :: 'u' :: hexDigits 4 n))).map
        (prependBody [charOfUnit n]) := by
  refine stringBody_escape (by decide) ?_
  have htake : (hexDigits 4 n ++ rest).take 4 = hexDigits 4 n := by
    rw [hexDigits_four]
    rfl
  have hdrop : (hexDigits 4 n ++ rest).drop 4 = rest := by
    rw [hexDigits_four]
    rfl
  have hfixed : fixedEscape 4 (hexDigits 4 n ++ rest) ((p.step '\\').step 'u') =
      .ok ([charOfUnit n], ⟨rest, p.past ('\\' :: 'u' :: hexDigits 4 n)⟩) := by
    simp only [fixedEscape, htake, hdrop, charOfHex_hexDigits h]
    rfl
  have hbrace : hexDigit (n / 16 / 16 / 16 % 16) ≠ '\x7b' :=
    (hexDigit_plain _ (Nat.mod_lt _ (by decide))).2.2.2.2.2.2.1
  have hsimple : simpleEscape? 'u' = none := rfl
  rw [hexDigits_four] at hfixed ⊢
  simp only [escape, hsimple, List.cons_append, List.nil_append]
  rw [if_neg (by decide), if_neg (by decide), if_pos (by decide)]
  split
  · rename_i heq
    exact absurd (List.cons.inj heq).1 hbrace
  · exact hfixed

theorem toNat_lt (c : Char) : c.toNat < 0x110000 := by
  have hvalid : Nat.isValidChar c.toNat := c.valid
  unfold Nat.isValidChar at hvalid
  omega

/-- No character is a surrogate. -/
theorem not_surrogate (c : Char) : ¬(0xd800 ≤ c.toNat ∧ c.toNat ≤ 0xdfff) := by
  have hvalid : Nat.isValidChar c.toNat := c.valid
  unfold Nat.isValidChar at hvalid
  omega

/-- The units of a character have sixteen bits. -/
theorem utf16Units_lt (c : Char) : ∀ n ∈ utf16Units c, n < 0x10000 := by
  intro n hn
  have hc := toNat_lt c
  unfold utf16Units at hn
  split at hn
  · simp only [List.mem_singleton] at hn
    omega
  · simp only [List.mem_cons, List.not_mem_nil, or_false] at hn
    omega

/-- The units of a character are read back one by one. -/
theorem charOfUnit_utf16Units (c : Char) : (utf16Units c).map charOfUnit = rereadChar c := by
  have hc := toNat_lt c
  unfold utf16Units rereadChar
  split
  · rw [List.map_singleton, charOfUnit, if_neg (not_surrogate c), Char.ofNat_toNat]
  · rw [List.map_cons, List.map_singleton, charOfUnit, charOfUnit, if_pos (by omega),
      if_pos (by omega)]

/-- Escaped units are read back one by one. -/
theorem stringBody_units {start : Position} {units : List Nat} (h : ∀ n ∈ units, n < 0x10000)
    (rest : List Char) (p : Position) :
    stringBody '"' start ((units.flatMap fun n => '\\' :: 'u' :: hexDigits 4 n) ++ rest) p =
      (stringBody '"' start rest
        (p.past (units.flatMap fun n => '\\' :: 'u' :: hexDigits 4 n))).map
          (prependBody (units.map charOfUnit)) := by
  induction units generalizing p with
  | nil =>
    rw [List.flatMap_nil, List.map_nil, List.nil_append, Position.past_nil]
    cases stringBody '"' start rest p <;> rfl
  | cons n units ih =>
    have hn := h n List.mem_cons_self
    have hunits : ∀ m ∈ units, m < 0x10000 := fun m hm => h m (List.mem_cons_of_mem n hm)
    rw [List.flatMap_cons, List.append_assoc, List.cons_append, List.cons_append,
      stringBody_unit hn, ih hunits, Position.past_append]
    cases stringBody '"' start rest _ <;> simp [Except.map, prependBody]

/-- A character of a literal is read as what its literal stands for. -/
theorem stringBody_quotedChar {start : Position} (c : Char) (rest : List Char) (p : Position) :
    stringBody '"' start (quotedChar c ++ rest) p =
      (stringBody '"' start rest (p.past (quotedChar c))).map (prependBody (rereadChar c)) := by
  unfold quotedChar
  split
  · exact stringBody_escape (by decide) rfl
  · exact stringBody_escape (by decide) rfl
  · exact stringBody_simple rfl rest p
  · exact stringBody_simple rfl rest p
  · exact stringBody_simple rfl rest p
  · exact stringBody_simple rfl rest p
  · exact stringBody_simple rfl rest p
  · rename_i hquote hslash hbreak _ _ _ _
    split
    · rename_i hprintable
      have hreread : rereadChar c = [c] := by
        simp only [Bool.and_eq_true, decide_eq_true_eq] at hprintable
        exact if_pos (by omega)
      rw [hreread]
      exact stringBody_plain hslash hquote (absurd · hbreak) (fun h => absurd h (by decide)) p
    · rw [unitEscape, stringBody_units (utf16Units_lt c), charOfUnit_utf16Units]

/-- A quoted text is read back character by character, up to its quote. -/
theorem stringBody_quoted (start : Position) (cs rest : List Char) (p : Position) :
    stringBody '"' start (cs.flatMap quotedChar ++ '"' :: rest) p =
      .ok (cs.flatMap rereadChar, ⟨rest, p.past (cs.flatMap quotedChar ++ ['"'])⟩) := by
  induction cs generalizing p with
  | nil => exact stringBody_close (by decide) rest p
  | cons c cs ih =>
    rw [List.flatMap_cons, List.append_assoc, stringBody_quotedChar, ih, List.append_assoc,
      Position.past_append p, List.flatMap_cons]
    rfl

/-- A quoted text spells one string, whatever follows. -/
theorem spells_quoted (s : String) : Spells Anything (quoted s).toList [.string (reread s)] := by
  rw [Text.toList_quoted, quotedChars]
  exact spells_string (by decide) fun start rest p => stringBody_quoted start s.toList rest p

/-! ## Property keys -/

/-- Characters of identifiers are basic. -/
theorem identifierPart_lt {c : Char} (h : Text.identifierPart c = true) : c.toNat < 128 := by
  simp only [Text.identifierPart, Text.identifierStart, Char.isAlpha, Char.isUpper, Char.isLower,
    Char.isDigit, Bool.or_eq_true, Bool.and_eq_true, decide_eq_true_eq, beq_iff_eq] at h
  rcases h with (((h | h) | rfl) | rfl) | h
  · exact Nat.lt_of_le_of_lt (UInt32.le_iff_toNat_le.1 h.2) (by decide)
  · exact Nat.lt_of_le_of_lt (UInt32.le_iff_toNat_le.1 h.2) (by decide)
  · decide
  · decide
  · exact Nat.lt_of_le_of_lt (UInt32.le_iff_toNat_le.1 h.2) (by decide)

theorem identifierStart_ascii : ∀ n < 128, Text.identifierStart (Char.ofNat n) = true →
    (!Unicode.isBlank (Char.ofNat n) && !Unicode.isDigit (Char.ofNat n) &&
      wordStart (Char.ofNat n)) = true := by
  decide

theorem identifierPart_ascii : ∀ n < 128, Text.identifierPart (Char.ofNat n) = true →
    wordPart (Char.ofNat n) = true := by
  decide

/-- An identifier is a word. -/
theorem isWord_of_isIdentifier {cs : List Char} (h : isIdentifier cs = true) :
    isWord cs = true := by
  obtain - | ⟨c, rest⟩ := cs
  · cases h
  rw [isIdentifier, Bool.and_eq_true] at h
  have hpart {d : Char} (hd : Text.identifierPart d = true) : wordPart d = true := by
    have hascii := identifierPart_ascii d.toNat (identifierPart_lt hd)
    rw [Char.ofNat_toNat] at hascii
    exact hascii hd
  have hstart : Text.identifierPart c = true := by simp [Text.identifierPart, h.1]
  have hascii := identifierStart_ascii c.toNat (identifierPart_lt hstart)
  rw [Char.ofNat_toNat] at hascii
  rw [isWord, hascii h.1, Bool.true_and, List.all_eq_true]
  exact fun d hd => hpart (List.all_eq_true.1 h.2 d hd)

/-- An identifier has basic characters only. -/
theorem isBasic_of_isIdentifier {name : String} (h : isIdentifier name.toList = true) :
    Text.isBasic name = true := by
  unfold Text.isBasic
  generalize name.toList = cs at h ⊢
  obtain - | ⟨c, rest⟩ := cs
  · cases h
  rw [isIdentifier, Bool.and_eq_true] at h
  have hstart : Text.identifierPart c = true := by simp [Text.identifierPart, h.1]
  have hlt {d : Char} (hd : Text.identifierPart d = true) : d.toNat < 0x10000 :=
    Nat.lt_trans (identifierPart_lt hd) (by decide)
  rw [List.all_cons, Bool.and_eq_true, decide_eq_true_eq, List.all_eq_true]
  exact ⟨hlt hstart, fun d hd => decide_eq_true (hlt (List.all_eq_true.1 h.2 d hd))⟩

/-- The token of a property key. -/
def keyToken (name : String) : Token :=
  if isIdentifier name.toList then .word name else .string (reread name)

/-- A property key spells one token, a word or a string. -/
theorem spells_propertyKey (name : String) :
    Spells Stops (propertyKey name).toList [keyToken name] := by
  unfold propertyKey keyToken
  split
  · rename_i h
    have hword := spells_word (isWord_of_isIdentifier h)
    rwa [String.ofList_toList] at hword
  · exact (spells_quoted name).stops

end Source

end FormSchema
