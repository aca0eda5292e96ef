import FormSchema.Proofs.Lexing
import FormSchema.Failure

/-!
# Texts that spell no tokens

Cutting a text into tokens stops at a reported fault, or at a character that is no character and a
number that is no number: an escape whose digits spell no code (`BadEscape`), a digit that is not
decimal, an integer with too many digits (`BadNumeral`). `Misspells` says that cutting a text
arrives at one of these, and with which error. It is all that goes unreported
(`tokensFrom_unreported_iff`).
-/

namespace FormSchema.Source

/-- A reason with a place. -/
def ReadError.IsReported (e : ReadError) : Prop := ∃ f place, e = .fault f place

theorem ReadError.isReported_fault (f : Fault) (place : Position) :
    (ReadError.fault f place).IsReported := ⟨f, place, rfl⟩

/-- A reason without a place: digits that spell no number, or a code that belongs to no
character. -/
def ReadError.IsMisspelling (e : ReadError) : Prop := e = .badDigits ∨ e = .codeOverflow

theorem ReadError.IsMisspelling.not_isReported {e : ReadError} (h : e.IsMisspelling) :
    ¬e.IsReported := by
  rintro ⟨_, _, rfl⟩
  rcases h with h | h <;> cases h

/-! ## Codes of characters -/

/-- Hexadecimal digits that belong to no character: they spell no number, or one outside the codes
of characters; far outside it is told apart. -/
inductive NoCharacter (digits : List Char) : ReadError → Prop
  | noNumber : hexInteger? digits = none → NoCharacter digits .badDigits
  | outside {code : Int} : hexInteger? digits = some code → code < 0 ∨ 0x10ffff < code →
      -0x80000000 ≤ code → code ≤ 0x7fffffff → NoCharacter digits .badDigits
  | farOutside {code : Int} : hexInteger? digits = some code →
      code < -0x80000000 ∨ 0x7fffffff < code → NoCharacter digits .codeOverflow

/-- A code has no character just if it is out of range: then it overflows, or it is no code point.
-/
theorem charOfCode_eq_error_iff {code : Int} {e : ReadError} :
    charOfCode code = .error e ↔
      (code < -0x80000000 ∨ 0x7fffffff < code) ∧ e = .codeOverflow ∨
      ((code < 0 ∨ 0x10ffff < code) ∧ -0x80000000 ≤ code ∧ code ≤ 0x7fffffff) ∧ e = .badDigits := by
  unfold charOfCode
  simp only [Bool.or_eq_true, decide_eq_true_eq, Bool.and_eq_true]
  split
  · rename_i hfar
    have hnear : ¬(-0x80000000 ≤ code ∧ code ≤ 0x7fffffff) := by omega
    simp [hfar, hnear, eq_comm]
  · rename_i hnear
    split
    · rename_i hout
      have : -0x80000000 ≤ code ∧ code ≤ 0x7fffffff := by omega
      simp [hnear, hout, this, eq_comm]
    · rename_i hin
      split <;> simp [hnear, hin]

/-- Digits fail to give a character just in the ways described. -/
theorem charOfHex_eq_error_iff {digits : List Char} {e : ReadError} :
    charOfHex digits = .error e ↔ NoCharacter digits e := by
  unfold charOfHex
  constructor
  · intro h
    split at h
    · rename_i code hcode
      rcases charOfCode_eq_error_iff.1 h with ⟨hfar, rfl⟩ | ⟨⟨hout, hlow, hhigh⟩, rfl⟩
      · exact .farOutside hcode hfar
      · exact .outside hcode hout hlow hhigh
    · rename_i hnone
      cases h
      exact .noNumber hnone
  · intro h
    cases h with
    | noNumber hnone => rw [hnone]
    | outside hcode hout hlow hhigh =>
      rw [hcode]
      exact charOfCode_eq_error_iff.2 (.inr ⟨⟨hout, hlow, hhigh⟩, rfl⟩)
    | farOutside hcode hfar =>
      rw [hcode]
      exact charOfCode_eq_error_iff.2 (.inl ⟨hfar, rfl⟩)

theorem NoCharacter.isMisspelling {digits : List Char} {e : ReadError} (h : NoCharacter digits e) :
    e.IsMisspelling := by
  cases h with
  | noNumber _ | outside _ _ _ _ => exact .inl rfl
  | farOutside _ _ => exact .inr rfl

/-! ## Escapes -/

/-- Behind a backslash, an escape that stands for no character. -/
inductive BadEscape : List Char → ReadError → Prop
  | two {rest : List Char} {e : ReadError} : NoCharacter (rest.take 2) e → BadEscape ('x' :: rest) e
  | four {rest : List Char} {e : ReadError} : bracesNext rest = false → NoCharacter (rest.take 4) e →
      BadEscape ('u' :: rest) e
  | braced {inner after : List Char} {e : ReadError} : '\x7d' ∉ inner → NoCharacter inner e →
      BadEscape ('u' :: '\x7b' :: (inner ++ '\x7d' :: after)) e

/-- An escape of a fixed width fails just if its digits give no character. -/
theorem fixedEscape_eq_error_iff {width : Nat} {cs : List Char} {p : Position} {e : ReadError} :
    fixedEscape width cs p = .error e ↔ NoCharacter (cs.take width) e := by
  rw [← charOfHex_eq_error_iff]
  constructor
  · intro h
    rcases bind_eq_error.1 h with h | ⟨_, _, h⟩
    · exact h
    · cases h
  · exact fun h => bind_eq_error.2 (.inl h)

/-- A text is cut at the first closing brace. -/
theorem untilBrace?_append {inner : List Char} (h : '\x7d' ∉ inner) (after : List Char) :
    untilBrace? (inner ++ '\x7d' :: after) = some (inner, after) := by
  induction inner with
  | nil => rfl
  | cons c rest ih =>
    rw [List.mem_cons, not_or] at h
    rw [List.cons_append, untilBrace?, if_neg (by simpa using Ne.symm h.1), ih h.2]
    rfl

/-- What is cut off before a closing brace holds none. -/
theorem eq_append_of_untilBrace? {cs inner after : List Char}
    (h : untilBrace? cs = some (inner, after)) : cs = inner ++ '\x7d' :: after ∧ '\x7d' ∉ inner := by
  induction cs generalizing inner with
  | nil => cases h
  | cons c rest ih =>
    rw [untilBrace?] at h
    split at h
    · rename_i hc
      cases h
      exact ⟨by rw [beq_iff_eq.1 hc]; rfl, List.not_mem_nil⟩
    · rename_i hc
      obtain ⟨⟨inner', after'⟩, hrest, heq⟩ := Option.map_eq_some_iff.1 h
      cases heq
      obtain ⟨rfl, hnot⟩ := ih hrest
      exact ⟨rfl, by simp [hnot, Ne.symm (by simpa using hc : c ≠ '\x7d')]⟩

/-- A braced escape fails without a place just if the digits in it give no character. -/
theorem bracedEscape_unreported_iff {cs : List Char} {p : Position} {e : ReadError} :
    (bracedEscape cs p = .error e ∧ ¬e.IsReported) ↔
      ∃ inner after, cs = inner ++ '\x7d' :: after ∧ '\x7d' ∉ inner ∧ NoCharacter inner e := by
  constructor
  · rintro ⟨h, he⟩
    unfold bracedEscape at h
    split at h
    · cases h
      exact absurd (ReadError.isReported_fault _ _) he
    · rename_i inner after hu
      obtain ⟨hcs, hnot⟩ := eq_append_of_untilBrace? hu
      refine ⟨inner, after, hcs, hnot, charOfHex_eq_error_iff.1 ?_⟩
      rcases bind_eq_error.1 h with h | ⟨_, _, h⟩
      · exact h
      · cases h
  · rintro ⟨inner, after, rfl, hnot, hno⟩
    refine ⟨?_, hno.isMisspelling.not_isReported⟩
    rw [bracedEscape, untilBrace?_append hnot]
    exact bind_eq_error.2 (.inl (charOfHex_eq_error_iff.2 hno))

/-- An escape fails without a report exactly if it stands for no character. -/
theorem escape_unreported_iff {cs : List Char} {p : Position} {e : ReadError} :
    (escape cs p = .error e ∧ ¬e.IsReported) ↔ BadEscape cs e := by
  constructor
  · rintro ⟨h, he⟩
    cases escape_reads h with
    | two h => exact .two (fixedEscape_eq_error_iff.1 h)
    | four hbrace h => exact .four hbrace (fixedEscape_eq_error_iff.1 h)
    | braced h =>
      obtain ⟨digits, after, rfl, hnot, hno⟩ := bracedEscape_unreported_iff.1 ⟨h, he⟩
      exact .braced hnot hno
  · intro h
    cases h with
    | two hno => exact ⟨fixedEscape_eq_error_iff.2 hno, hno.isMisspelling.not_isReported⟩
    | @four rest _ hbrace hno =>
      refine ⟨?_, hno.isMisspelling.not_isReported⟩
      have hfour : fixedEscape 4 rest (p.step 'u') = .error e := fixedEscape_eq_error_iff.2 hno
      cases rest with
      | nil => exact hfour
      | cons d ds =>
        have hd : d ≠ '\x7b' := by
          rintro rfl
          cases hbrace
        simpa [escape, simpleEscape?, hd] using hfour
    | @braced inner after _ hnot hno =>
      exact bracedEscape_unreported_iff.2 ⟨inner, after, rfl, hnot, hno⟩

/-! ## Strings -/

/-- Reading a string behind its opening quote arrives at an escape that stands for no character:
the value and the escapes before it are read. -/
inductive BadString (quote : Char) : List Char → Position → ReadError → Prop
  | atEscape {rest : List Char} {p : Position} {e : ReadError} : BadEscape rest e →
      BadString quote ('\\' :: rest) p e
  | behindEscape {rest chars : List Char} {p : Position} {after : Cursor} {e : ReadError} :
      escape rest (p.step '\\') = .ok (chars, after) → BadString quote after.rest after.place e →
      BadString quote ('\\' :: rest) p e
  | behind {c : Char} {rest : List Char} {p : Position} {e : ReadError} : c ≠ quote → c ≠ '\\' →
      (c = '\n' → quote = '\x60') → (quote = '\x60' → c = '$' → bracesNext rest = false) →
      BadString quote rest (p.step c) e → BadString quote (c :: rest) p e

theorem BadEscape.isMisspelling {cs : List Char} {e : ReadError} (h : BadEscape cs e) :
    e.IsMisspelling := by
  cases h with
  | two hno | four _ hno | braced _ hno => exact hno.isMisspelling

/-- A string that fails without a place holds a bad escape. -/
theorem badString_of_stringBody {quote : Char} {start : Position} {cs : List Char} {p : Position}
    {e : ReadError} (h : stringBody quote start cs p = .error e) (he : ¬e.IsReported) :
    BadString quote cs p e := by
  fun_induction stringBody quote start cs p generalizing e with
  | case1 | case2 | case4 =>
    cases h
    exact absurd (ReadError.isReported_fault _ _) he
  | case3 => cases h
  | case5 c rest p _ _ _ hc e' hescape =>
    obtain rfl := beq_iff_eq.1 hc
    cases h
    exact .atEscape (escape_unreported_iff.1 ⟨hescape, he⟩)
  | case6 c rest p _ _ _ hc chars after hescape _ e' hbody ih =>
    obtain rfl := beq_iff_eq.1 hc
    cases h
    exact .behindEscape hescape (ih hbody he)
  | case7 => cases h
  | case8 c rest p hline hquote hbrace hslash e' hbody ih =>
    cases h
    refine .behind (by simpa using hquote) (by simpa using hslash) ?_ ?_ (ih hbody he)
    · simpa using hline
    · simpa using hbrace
  | case9 => cases h

/-- A string with a bad escape fails as the escape does. -/
theorem BadString.stringBody_eq {quote : Char} (hquote : quote ≠ '\\') {start : Position}
    {cs : List Char} {p : Position} {e : ReadError} (h : BadString quote cs p e) :
    stringBody quote start cs p = .error e := by
  -- A backslash is no quote, so the escape behind it is read.
  have hback (rest : List Char) (p : Position) : stringBody quote start ('\\' :: rest) p =
      (escape rest (p.step '\\')).bind fun r =>
        (stringBody quote start r.2.rest r.2.place).map fun body => (r.1 ++ body.1, body.2) := by
    rw [stringBody, if_neg (by simp), if_neg (by simpa using hquote.symm), if_neg (by simp),
      if_pos (beq_self_eq_true _)]
    split
    · rename_i hescape
      rw [hescape]
      rfl
    · rename_i chars after hescape
      conv => rhs; rw [hescape]
      dsimp only [Except.bind]
      cases stringBody quote start after.rest after.place <;> rfl
  induction h with
  | atEscape hbad => rw [hback, (escape_unreported_iff.2 hbad).1, Except.bind]
  | behindEscape hescape _ ih => rw [hback, hescape, Except.bind, ih, Except.map]
  | behind hc hslash hline hbrace _ ih =>
    rw [stringBody, if_neg (by simpa using hline), if_neg (by simpa using hc),
      if_neg (by simpa using hbrace), if_neg (by simpa using hslash), ih]

theorem BadString.isMisspelling {quote : Char} {cs : List Char} {p : Position} {e : ReadError}
    (h : BadString quote cs p e) : e.IsMisspelling := by
  induction h with
  | atEscape hbad => exact hbad.isMisspelling
  | behindEscape _ _ ih | behind _ _ _ _ _ ih => exact ih

/-! ## Numbers -/

/-- A text with a digit in front that spells no number: the digit is not decimal, or it opens an
integer with more digits than one may have. -/
def BadNumeral (cs : List Char) : Prop :=
  numeral? cs = none ∨
    ∃ n after, numeral? cs = some (n, after) ∧ n.isWhole = true ∧ integerDigitLimit < n.whole.length

/-- An integer fails just if it has too many digits. -/
theorem numberOf_eq_error_iff {n : Numeral} {e : ReadError} :
    numberOf n = .error e ↔
      (n.isWhole = true ∧ integerDigitLimit < n.whole.length) ∧ e = .badDigits := by
  unfold numberOf
  split
  · rename_i hwhole
    split
    · rename_i hlong
      simp [hwhole, hlong, eq_comm]
    · rename_i hshort
      simp [hshort]
  · rename_i hwhole
    simp [hwhole]

/-! ## Pieces and texts -/

/-- The piece that opens with a character is a string or a number that spells none. -/
inductive BadPiece (c : Char) (rest : List Char) (p : Position) : ReadError → Prop
  | string {e : ReadError} : isQuote c = true → BadString c rest (p.step c) e → BadPiece c rest p e
  | number : Unicode.isBlank c = false → Unicode.isDigit c = true → BadNumeral (c :: rest) →
      BadPiece c rest p .badDigits

/-- Cutting a text into tokens, after the token `previous`, arrives at a piece that spells none. -/
inductive Misspells : Option Token → List Char → Position → ReadError → Prop
  | here {previous : Option Token} {c : Char} {rest : List Char} {p : Position} {e : ReadError} :
      BadPiece c rest p e → Misspells previous (c :: rest) p e
  | behindBlank {previous : Option Token} {c : Char} {rest : List Char} {p : Position}
      {after : Cursor} {e : ReadError} : nextPiece previous c rest p = .ok (none, after) →
      Misspells previous after.rest after.place e → Misspells previous (c :: rest) p e
  | behindToken {previous : Option Token} {c : Char} {rest : List Char} {p : Position} {t : Token}
      {after : Cursor} {e : ReadError} : nextPiece previous c rest p = .ok (some t, after) →
      Misspells (some t) after.rest after.place e → Misspells previous (c :: rest) p e

/-- A pattern fails only for its missing end. -/
theorem patternBody_error {start : Position} {inClass : Bool} {cs : List Char} {p : Position}
    {e : ReadError} (h : patternBody start inClass cs p = .error e) :
    e = .fault .unterminatedPattern start := by
  fun_induction patternBody start inClass cs p generalizing e with
  | case1 | case2 | case5 =>
    cases h
    rfl
  | case3 | case7 =>
    rename_i hbody ih
    cases h
    exact ih hbody
  | case4 | case6 | case8 => cases h

/-- A piece fails with a fault at its start, in the body of a string, or as a number that is
none. -/
theorem nextPiece_error {previous : Option Token} {c : Char} {rest : List Char} {p : Position}
    {e : ReadError} (h : nextPiece previous c rest p = .error e) :
    (∃ f, e = .fault f p) ∨
    (isQuote c = true ∧ stringBody c p rest (p.step c) = .error e) ∨
    (e = .badDigits ∧ BadPiece c rest p .badDigits) := by
  cases nextPiece_reads h with
  | reported f => exact .inl ⟨f, rfl⟩
  | badPattern hbody => exact .inl ⟨_, patternBody_error hbody⟩
  | badString hquote hbody => exact .inr (.inl ⟨hquote, hbody⟩)
  | noNumeral hblank hdigit hnone =>
    exact .inr (.inr ⟨rfl, .number hblank hdigit (.inl hnone)⟩)
  | @badNumber _ _ behind _ n _ hblank hdigit hn hnumber =>
    obtain ⟨hlong, rfl⟩ := numberOf_eq_error_iff.1 hnumber
    exact .inr (.inr ⟨rfl, .number hblank hdigit (.inr ⟨n, behind, hn, hlong⟩)⟩)

/-- A piece that fails without a place is a bad string or a bad number. -/
theorem badPiece_of_nextPiece {previous : Option Token} {c : Char} {rest : List Char} {p : Position}
    {e : ReadError} (h : nextPiece previous c rest p = .error e) (he : ¬e.IsReported) :
    BadPiece c rest p e := by
  obtain ⟨f, rfl⟩ | ⟨hquote, hbody⟩ | ⟨rfl, hnumber⟩ := nextPiece_error h
  · exact absurd (ReadError.isReported_fault f p) he
  · exact .string hquote (badString_of_stringBody hbody he)
  · exact hnumber

/-- A bad piece fails, whatever stands before it. -/
theorem BadPiece.nextPiece_eq {c : Char} {rest : List Char} {p : Position} {e : ReadError}
    (h : BadPiece c rest p e) (previous : Option Token) :
    nextPiece previous c rest p = .error e := by
  cases h with
  | string hquote hbad =>
    rw [nextPiece_quote previous rest p hquote, hbad.stringBody_eq (quote_plain hquote).2.2]
    rfl
  | number _ hdigit hbad =>
    rw [nextPiece_digit previous rest p hdigit]
    rcases hbad with hnone | ⟨n, after, hn, hlong⟩
    · rw [hnone]
    · rw [hn]
      dsimp only
      rw [numberOf_eq_error_iff.2 ⟨hlong, rfl⟩]
      rfl

theorem BadPiece.isMisspelling {c : Char} {rest : List Char} {p : Position} {e : ReadError}
    (h : BadPiece c rest p e) : e.IsMisspelling := by
  cases h with
  | string _ hbad => exact hbad.isMisspelling
  | number _ _ _ => exact .inl rfl

theorem Misspells.isMisspelling {previous : Option Token} {cs : List Char} {p : Position}
    {e : ReadError} (h : Misspells previous cs p e) : e.IsMisspelling := by
  induction h with
  | here hbad => exact hbad.isMisspelling
  | behindBlank _ _ ih | behindToken _ _ ih => exact ih

/-- A text that is misspelt is refused without a place. -/
theorem Misspells.tokensFrom_eq {previous : Option Token} {cs : List Char} {p : Position}
    {e : ReadError} (h : Misspells previous cs p e) : tokensFrom previous cs p = .error e := by
  induction h with
  | here hbad => exact tokensFrom_error (hbad.nextPiece_eq _)
  | behindBlank hpiece _ ih => rw [tokensFrom_skip hpiece, ih]
  | behindToken hpiece _ ih => rw [tokensFrom_token hpiece, map_eq_error, ih]

/-- A text that is refused without a place is misspelt. -/
theorem misspells_of_tokensFrom {previous : Option Token} {cs : List Char} {p : Position}
    {e : ReadError} (h : tokensFrom previous cs p = .error e) (he : ¬e.IsReported) :
    Misspells previous cs p e := by
  fun_induction tokensFrom previous cs p with
  | case1 => cases h
  | case2 previous c rest p e' hpiece =>
    cases h
    exact .here (badPiece_of_nextPiece hpiece he)
  | case3 previous c rest p after _ hpiece _ ih => exact .behindBlank hpiece (ih h)
  | case4 =>
    rename_i hpiece _ htokens _ _ ih
    cases h
    exact .behindToken hpiece (ih htokens)
  | case5 => cases h

/-- Cutting a text fails without a report exactly if it arrives at a piece that spells no token. -/
theorem tokensFrom_unreported_iff {previous : Option Token} {cs : List Char} {p : Position}
    {e : ReadError} :
    (tokensFrom previous cs p = .error e ∧ ¬e.IsReported) ↔ Misspells previous cs p e :=
  ⟨fun h => misspells_of_tokensFrom h.1 h.2,
    fun h => ⟨h.tokensFrom_eq, h.isMisspelling.not_isReported⟩⟩

end FormSchema.Source
