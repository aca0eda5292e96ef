import FormSchema.Proofs.Bounds
import FormSchema.Proofs.Lexemes
import FormSchema.Proofs.Quoting

/-!
# Literals as whole texts

Whatever a text is, the tokens it is cut into are regular (`tokenize_isRegular`): words are words,
numbers are bounded, and the pattern of a literal can be written as a literal again.

`spelled` gives the tokens of a text without their places. A text that spells tokens up to its end
is cut into exactly these (`spelled_of_spells`), so the literal that is written for a value can be
compared with the value that is read from it.

A string literal is one string. Its value has a character for each UTF-16 unit of the text it was
written for, and is that text exactly if the text stays in the basic plane (`spelled_quoted`).

The patterns that are read from pattern literals are those whose own literal is one token that
reads them back (`exists_spelled_pattern_iff`), so for them writing undoes reading
(`spelled_patternLiteral`).
-/

namespace FormSchema

namespace Source

/-! ## Tokens that are cut -/

open Text (isPattern rereadPattern)

/-- A token that is read back as it is. -/
def Token.IsRegular : Token → Prop
  | .word name => isWord name.toList = true
  | .number n => n.IsBounded
  | .pattern s => isPattern s = true ∧ rereadPattern s.toList = s.toList
  | _ => True

/-- A pattern that does not open with a star stands for a body that does not. -/
theorem PatternText.value_ne_star {c : Char} {body value : List Char} (hstar : c ≠ '*')
    (h : PatternText false (c :: body) value) : ∃ d rest, value = d :: rest ∧ d ≠ '*' := by
  cases h with
  | @escaped _ d rest value' _ =>
    split
    · exact ⟨'/', value', rfl, by decide⟩
    · exact ⟨'\\', d :: value', rfl, by decide⟩
  | @plain _ _ _ value' => exact ⟨c, value', rfl, hstar⟩

/-- The token of a lexeme is regular. -/
theorem Lexeme.isRegular {previous : Option Token} {follow text : List Char} {t : Token}
    (h : Lexeme previous follow t text) : t.IsRegular := by
  cases h with
  | punct | string => trivial
  | word hword =>
    rw [Token.IsRegular, String.toList_ofList]
    exact hword
  | number _ hn hvalue => exact numberOf_isBounded hn hvalue
  | pattern _ hstar hpattern =>
    have hbody := patternBody_append hpattern Position.start [] Position.start
    obtain ⟨hdelimited, hreread⟩ := patternBody_isDelimited hbody
    obtain ⟨d, rest, rfl, hd⟩ := hpattern.value_ne_star hstar
    refine ⟨?_, ?_⟩
    · simp only [isPattern, String.toList_ofList, hdelimited, Bool.and_true, bne_iff_ne]
      exact hd
    · rw [String.toList_ofList, hreread]

/-- Every token of a text is regular. -/
theorem tokenize_isRegular {code : String} {ts : Tokens} (h : tokenize code = .ok ts) :
    ∀ t ∈ ts.items, t.token.IsRegular := by
  intro t ht
  obtain ⟨hsplits, -⟩ := tokenize_eq_ok_iff.1 h
  obtain ⟨_, _, _, _, -, -, hlexeme⟩ := hsplits.lexeme_of_mem ht
  exact hlexeme.isRegular

end Source

namespace Text

/-- One character is read for each unit that is written. -/
theorem length_rereadChar (c : Char) : (rereadChar c).length = (utf16Units c).length := by
  unfold rereadChar utf16Units
  split <;> simp

/-- A text that is read back as it was stays in the basic plane: a character outside it would be
read as a replacement character, which is inside. -/
theorem isBasic_of_reread {s : String} (h : reread s = s) : isBasic s = true := by
  have hchars : ∀ cs : List Char, cs.flatMap rereadChar = cs →
      (cs.all fun c => decide (c.toNat < 0x10000)) = true := by
    intro cs hcs
    induction cs with
    | nil => rfl
    | cons c rest ih =>
      rw [List.flatMap_cons] at hcs
      by_cases hc : c.toNat < 0x10000
      · rw [rereadChar, if_pos hc, List.singleton_append] at hcs
        rw [List.all_cons, ih (List.cons.inj hcs).2, Bool.and_true]
        exact decide_eq_true hc
      · rw [rereadChar, if_neg hc, List.cons_append] at hcs
        have hreplaced : (Char.ofNat 0xfffd).toNat < 0x10000 := by decide
        rw [(List.cons.inj hcs).1] at hreplaced
        exact absurd hreplaced hc
  refine hchars s.toList ?_
  have hlist := congrArg String.toList h
  rwa [reread, String.toList_ofList] at hlist

end Text

namespace Source

open Text (quoted reread rereadChar isBasic utf16Units patternLiteral isPattern rereadPattern)

/-- The tokens that a text is cut into, without their places. -/
def spelled (code : String) : Reading (List Token) :=
  (tokenize code).map fun ts => ts.items.map Placed.token

theorem spelled_eq_ok {code : String} {tokens : List Token} (h : spelled code = .ok tokens) :
    ∃ ts, tokenize code = .ok ts ∧ ts.items.map Placed.token = tokens := by
  unfold spelled at h
  cases htokens : tokenize code with
  | error e =>
    rw [htokens] at h
    cases h
  | ok ts =>
    rw [htokens] at h
    exact ⟨ts, rfl, Except.ok.inj h⟩

/-- A text that spells tokens where it ends is cut into these. -/
theorem spelled_of_spells {follow : List Char → Prop} {code : String} {tokens : List Token}
    (h : Spells follow code.toList tokens) (hend : follow []) : spelled code = .ok tokens := by
  obtain ⟨items, rfl, hcode⟩ := tokenize_of_spells h hend
  rw [spelled, hcode]
  rfl

/-! ## String literals -/

/-- The literal of a text is one string, the one it is read back as. -/
theorem spelled_quoted_reread (s : String) : spelled (quoted s) = .ok [.string (reread s)] :=
  spelled_of_spells (spells_quoted s) trivial

/-- The literal of a text is one string, and nothing follows. Its value has a character for each
unit of the text. It is the text itself exactly if the text stays in the basic plane. -/
theorem spelled_quoted (s : String) :
    spelled (quoted s) = .ok [.string (reread s)] ∧
      (reread s).toList.length = (s.toList.flatMap utf16Units).length ∧
        (spelled (quoted s) = .ok [.string s] ↔ isBasic s = true) := by
  refine ⟨spelled_quoted_reread s, ?_, fun h => ?_, fun h => ?_⟩
  · rw [reread, String.toList_ofList, List.length_flatMap, List.length_flatMap]
    simp only [Text.length_rereadChar]
  · rw [spelled_quoted_reread] at h
    have hsame : reread s = s := by simpa using h
    exact Text.isBasic_of_reread hsame
  · rw [spelled_quoted_reread, Text.reread_eq h]

/-- The literal of a face is not read as the face. -/
theorem not_spelled_quoted_face : spelled (quoted "😀") ≠ .ok [.string "😀"] := by
  intro h
  rw [spelled_quoted_reread] at h
  have hsame : reread "😀" = "😀" := by simpa using h
  exact absurd (Text.isBasic_of_reread hsame) (by decide)

/-! ## Pattern literals -/

/-- In parentheses the literal of a pattern spells what it is read back as. -/
theorem spelled_parenthesized {pattern : String} (h : isPattern pattern = true) :
    spelled ("(" ++ patternLiteral pattern ++ ")") =
      .ok [.punct '(', .pattern (String.ofList (rereadPattern pattern.toList)), .punct ')'] := by
  have hspells : Spells Anything ("(" ++ patternLiteral pattern ++ ")").toList
      [.punct '(', .pattern (String.ofList (rereadPattern pattern.toList)), .punct ')'] := by
    rw [String.toList_append, String.toList_append]
    exact spells_pattern h
  exact spelled_of_spells hspells trivial

/-- The patterns that are read from some text are those that are delimited, and that a reader takes
from their own literal as they are. -/
theorem exists_spelled_pattern_iff (pattern : String) :
    (∃ code tokens, spelled code = .ok tokens ∧ .pattern pattern ∈ tokens) ↔
      isPattern pattern = true ∧ rereadPattern pattern.toList = pattern.toList := by
  constructor
  · rintro ⟨code, tokens, hcode, hmem⟩
    obtain ⟨ts, htokens, rfl⟩ := spelled_eq_ok hcode
    obtain ⟨t, ht, htoken⟩ := List.mem_map.1 hmem
    have hregular := tokenize_isRegular htokens t ht
    rwa [htoken] at hregular
  · rintro ⟨hpattern, hreread⟩
    refine ⟨_, _, spelled_parenthesized hpattern, ?_⟩
    rw [hreread, String.ofList_toList]
    simp

/-- A pattern that is read from some text is read back from its own literal. -/
theorem spelled_patternLiteral {code pattern : String} {tokens : List Token}
    (h : spelled code = .ok tokens) (hmem : .pattern pattern ∈ tokens) :
    spelled ("(" ++ patternLiteral pattern ++ ")") =
      .ok [.punct '(', .pattern pattern, .punct ')'] := by
  obtain ⟨hpattern, hreread⟩ := (exists_spelled_pattern_iff pattern).1 ⟨code, tokens, h, hmem⟩
  rw [spelled_parenthesized hpattern, hreread, String.ofList_toList]

/-- A literal with an escaped slash, a slash in a class and a doubled backslash in front of its
end. -/
theorem spelled_slashes :
    spelled "/a\\/b[/]\\\\/i" = .ok [.pattern "a/b[/]\\\\"] := by
  have hcode : "/a\\/b[/]\\\\/i".toList =
      ['/', 'a', '\\', '/', 'b', '[', '/', ']', '\\', '\\', '/', 'i'] := rfl
  have hpiece : nextPiece none '/' ['a', '\\', '/', 'b', '[', '/', ']', '\\', '\\', '/', 'i']
      Position.start = .ok (some (.pattern "a/b[/]\\\\"), ⟨[], ⟨1, 13⟩⟩) := rfl
  rw [spelled, tokenize, hcode, tokensFrom_token hpiece, tokensFrom]
  rfl

/-- The pattern of that literal is read back. -/
theorem spelled_patternLiteral_slashes :
    spelled "/a\\/b[/]\\\\/i" = .ok [.pattern "a/b[/]\\\\"] ∧
      spelled ("(" ++ patternLiteral "a/b[/]\\\\" ++ ")") =
        .ok [.punct '(', .pattern "a/b[/]\\\\", .punct ')'] :=
  ⟨spelled_slashes, spelled_patternLiteral spelled_slashes (by simp)⟩

end Source

end FormSchema
