import FormSchema.Number.Reading
import FormSchema.Source.Error
import FormSchema.Unicode.Blank
import FormSchema.Unicode.Letter

/-!
# From text to tokens

`tokenize` cuts a source text into tokens. It works piece by piece: `nextPiece` reads one blank,
one comment or one token from a text that is not empty, and gives the `Cursor` behind it, the
text that is left with its place. Whether a slash opens a pattern hangs on the token before it
(`patternMayFollow`).

The ways to read a piece, and those to read an escape, are said once (`PieceReads`, `EscapeReads`),
and what holds of pieces is proved by them. Every piece takes at least one character
(`nextPiece_length`), so cutting a text ends.
-/

namespace FormSchema.Source

/-- The text that is left, and its place. -/
structure Cursor where
  rest : List Char
  place : Position

/-- The result of reading, or the reason for stopping. -/
abbrev Reading := Except ReadError

/-- The characters of punctuation, the slash apart. -/
def punctuation : List Char :=
  ['(', ')', '\x7b', '\x7d', '[', ']', ',', ':', '.', ';', '=', '<', '>', '|', '&', '?', '!', '+',
   '-', '*']

/-- A character a word may start with. -/
def wordStart (c : Char) : Bool :=
  Unicode.isLetter c || c == '_' || c == '$'

/-- A character a word may go on with. -/
def wordPart (c : Char) : Bool :=
  Unicode.isWordPart c || c == '_' || c == '$'

/-- Whether a slash after the token opens a pattern. -/
def patternMayFollow : Option Token → Bool
  | none => true
  | some (.punct c) =>
    ['(', ',', '[', ':', '=', '!', '&', '|', '?', '\x7b', ';'].contains c
  | some _ => false

/-! ## Comments and words -/

/-- Skips to the end of the line. -/
def skipLine : List Char → Position → Cursor
  | [], p => ⟨[], p⟩
  | c :: rest, p => if c == '\n' then ⟨c :: rest, p⟩ else skipLine rest (p.step c)

/-- Skips behind the end of a block comment, if there is one. -/
def skipBlock? : List Char → Position → Option Cursor
  | '*' :: '/' :: rest, p => some ⟨rest, p.past ['*', '/']⟩
  | c :: rest, p => skipBlock? rest (p.step c)
  | [], _ => none

/-- Takes characters as long as they pass the test. -/
def takeRun (test : Char → Bool) : List Char → Position → List Char × Cursor
  | [], p => ([], ⟨[], p⟩)
  | c :: rest, p =>
    if test c then
      let (run, after) := takeRun test rest (p.step c)
      (c :: run, after)
    else ([], ⟨c :: rest, p⟩)

/-! ## Strings -/

/-- The character with a code. A code that is negative or too large belongs to no character; one
that does not even fit a machine word is told apart. The codes reserved for pairs give the
replacement character. -/
def charOfCode (code : Int) : Reading Char :=
  if code < -0x80000000 || 0x7fffffff < code then .error .codeOverflow
  else if code < 0 || 0x10ffff < code then .error .badDigits
  else if 0xd800 ≤ code && code ≤ 0xdfff then .ok (Char.ofNat 0xfffd)
  else .ok (Char.ofNat code.toNat)

/-- The character whose code a text spells in hexadecimal digits. -/
def charOfHex (digits : List Char) : Reading Char :=
  match hexInteger? digits with
  | some code => charOfCode code
  | none => .error .badDigits

/-- The character that a letter stands for after a backslash. -/
def simpleEscape? : Char → Option Char
  | 'n' => some '\n'
  | 't' => some '\t'
  | 'r' => some '\r'
  | 'b' => some '\x08'
  | 'f' => some '\x0c'
  | 'v' => some '\x0b'
  | '0' => some '\x00'
  | _ => none

/-- The text up to a closing brace, and the text behind it. -/
def untilBrace? : List Char → Option (List Char × List Char)
  | [] => none
  | c :: rest =>
    if c == '\x7d' then some ([], rest)
    else (untilBrace? rest).map fun (inner, after) => (c :: inner, after)

/-- A character by at most `width` hexadecimal digits. -/
def fixedEscape (width : Nat) (cs : List Char) (p : Position) : Reading (List Char × Cursor) := do
  let digits := cs.take width
  return ([← charOfHex digits], ⟨cs.drop width, p.past digits⟩)

/-- A character by hexadecimal digits in braces. -/
def bracedEscape (cs : List Char) (p : Position) : Reading (List Char × Cursor) :=
  match untilBrace? cs with
  | none => .error (.fault .malformedEscape p)
  | some (inner, after) => do
    let c ← charOfHex inner
    return ([c], ⟨after, p.past ('\x7b' :: (inner ++ ['\x7d']))⟩)

/-- What a backslash stands for together with the text behind it. At the end of the text it
stands for nothing, and so does a line break. -/
def escape : List Char → Position → Reading (List Char × Cursor)
  | [], p => .ok ([], ⟨[], p⟩)
  | c :: rest, p =>
    match simpleEscape? c with
    | some d => .ok ([d], ⟨rest, p.step c⟩)
    | none =>
      if c == '\n' then .ok ([], ⟨rest, p.step c⟩)
      else if c == 'x' then fixedEscape 2 rest (p.step c)
      else if c == 'u' then
        match rest with
        | '\x7b' :: inner => bracedEscape inner (p.step c)
        | _ => fixedEscape 4 rest (p.step c)
      else .ok ([c], ⟨rest, p.step c⟩)

theorem untilBrace?_length {cs inner after : List Char} (h : untilBrace? cs = some (inner, after)) :
    after.length ≤ cs.length := by
  induction cs generalizing inner after with
  | nil => simp [untilBrace?] at h
  | cons c rest ih =>
    unfold untilBrace? at h
    split at h
    · simp only [Option.some.injEq, Prod.mk.injEq] at h
      simp [← h.2]
    · simp only [Option.map_eq_some_iff, Prod.exists, Prod.mk.injEq] at h
      obtain ⟨inner', after', hu, -, rfl⟩ := h
      have := ih hu
      simp only [List.length_cons]; omega

theorem fixedEscape_length {width : Nat} {cs : List Char} {p : Position}
    {r : List Char × Cursor} (h : fixedEscape width cs p = .ok r) :
    r.2.rest.length ≤ cs.length := by
  unfold fixedEscape at h
  cases hc : charOfHex (cs.take width) with
  | error e => simp [hc, bind, Except.bind] at h
  | ok c =>
    simp only [hc, bind, Except.bind, pure, Except.pure, Except.ok.injEq] at h
    rw [← h]
    simp

theorem bracedEscape_length {cs : List Char} {p : Position} {r : List Char × Cursor}
    (h : bracedEscape cs p = .ok r) : r.2.rest.length ≤ cs.length := by
  unfold bracedEscape at h
  split at h
  · simp at h
  · next inner after hu =>
    cases hc : charOfHex inner with
    | error e => simp [hc, bind, Except.bind] at h
    | ok c =>
      simp only [hc, bind, Except.bind, pure, Except.pure, Except.ok.injEq] at h
      rw [← h]
      exact untilBrace?_length hu

/-- Whether the text goes on with an opening brace. -/
def bracesNext : List Char → Bool
  | '\x7b' :: _ => true
  | _ => false

theorem bracesNext_cons (c : Char) (rest : List Char) :
    bracesNext (c :: rest) = (c == '\x7b') := by
  by_cases hc : c = '\x7b'
  · subst hc
    rfl
  · simp [bracesNext, hc]

/-- The ways to read what stands behind a backslash. -/
inductive EscapeReads : List Char → Position → Reading (List Char × Cursor) → Prop
  | atEnd {p : Position} : EscapeReads [] p (.ok ([], ⟨[], p⟩))
  | simple {c d : Char} {rest : List Char} {p : Position} : simpleEscape? c = some d →
      EscapeReads (c :: rest) p (.ok ([d], ⟨rest, p.step c⟩))
  | lineBreak {rest : List Char} {p : Position} :
      EscapeReads ('\n' :: rest) p (.ok ([], ⟨rest, p.step '\n'⟩))
  | two {rest : List Char} {p : Position} {r : Reading (List Char × Cursor)} :
      fixedEscape 2 rest (p.step 'x') = r → EscapeReads ('x' :: rest) p r
  | braced {inner : List Char} {p : Position} {r : Reading (List Char × Cursor)} :
      bracedEscape inner (p.step 'u') = r → EscapeReads ('u' :: '\x7b' :: inner) p r
  | four {rest : List Char} {p : Position} {r : Reading (List Char × Cursor)} :
      bracesNext rest = false → fixedEscape 4 rest (p.step 'u') = r →
      EscapeReads ('u' :: rest) p r
  | itself {c : Char} {rest : List Char} {p : Position} : simpleEscape? c = none → c ≠ '\n' →
      c ≠ 'x' → c ≠ 'u' → EscapeReads (c :: rest) p (.ok ([c], ⟨rest, p.step c⟩))

theorem bracesNext_of_ne {cs : List Char} (h : ∀ rest, cs ≠ '\x7b' :: rest) :
    bracesNext cs = false := by
  unfold bracesNext
  split
  · exact absurd rfl (h _)
  · rfl

/-- What an escape is read as, by the forms of escapes. -/
theorem escape_reads {cs : List Char} {p : Position} {r : Reading (List Char × Cursor)}
    (h : escape cs p = r) : EscapeReads cs p r := by
  subst h
  fun_cases escape cs p with
  | case1 => exact .atEnd
  | case2 p c rest d hsimple => exact .simple hsimple
  | case3 p c rest _ hbreak =>
    obtain rfl := beq_iff_eq.1 hbreak
    exact .lineBreak
  | case4 p c rest _ _ hx =>
    obtain rfl := beq_iff_eq.1 hx
    exact .two rfl
  | case5 p c _ _ _ hu =>
    obtain rfl := beq_iff_eq.1 hu
    exact .braced rfl
  | case6 p c rest _ _ _ hu hopen =>
    obtain rfl := beq_iff_eq.1 hu
    exact .four (bracesNext_of_ne hopen) rfl
  | case7 p c rest hsimple hbreak hx hu =>
    exact .itself hsimple (mt beq_iff_eq.2 hbreak) (mt beq_iff_eq.2 hx) (mt beq_iff_eq.2 hu)

/-- An escape takes no text that is not there. -/
theorem escape_length {cs : List Char} {p : Position} {r : List Char × Cursor}
    (h : escape cs p = .ok r) : r.2.rest.length ≤ cs.length := by
  cases escape_reads h with
  | atEnd => exact Nat.le_refl _
  | simple | lineBreak | itself => exact Nat.le_succ _
  | two h | four _ h => exact Nat.le_succ_of_le (fixedEscape_length h)
  | braced h => exact Nat.le_succ_of_le (Nat.le_succ_of_le (bracedEscape_length h))

/-- The value of a string behind its opening quote. A string ends on its line, unless the quote
is a backtick; `start` is the place of the opening quote. -/
def stringBody (quote : Char) (start : Position) :
    List Char → Position → Reading (List Char × Cursor)
  | [], _ => .error (.fault .unterminatedString start)
  | c :: rest, p =>
    if c == '\n' && quote != '\x60' then .error (.fault .unterminatedString start)
    else if c == quote then .ok ([], ⟨rest, p.step c⟩)
    else if quote == '\x60' && c == '$' && bracesNext rest then .error (.fault .substitution p)
    else if c == '\\' then
      match h : escape rest (p.step c) with
      | .error e => .error e
      | .ok (chars, after) =>
        have : after.rest.length < (c :: rest).length := by
          have := escape_length h
          simp only [List.length_cons] at this ⊢; omega
        match stringBody quote start after.rest after.place with
        | .error e => .error e
        | .ok (value, last) => .ok (chars ++ value, last)
    else
      match stringBody quote start rest (p.step c) with
      | .error e => .error e
      | .ok (value, last) => .ok (c :: value, last)
termination_by cs => cs.length
decreasing_by all_goals simp only [List.length_cons] at *; omega

/-- The body of a string takes at least its quote. -/
theorem stringBody_length {quote : Char} {start : Position} {cs : List Char} {p : Position}
    {r : List Char × Cursor} (h : stringBody quote start cs p = .ok r) :
    r.2.rest.length < cs.length := by
  fun_induction stringBody quote start cs p generalizing r with
  | case1 => simp at h
  | case2 => simp at h
  | case3 => simp only [Except.ok.injEq] at h; simp [← h]
  | case4 => simp at h
  | case5 => simp at h
  | case6 => simp at h
  | case7 c rest p _ _ _ _ chars after he hlt value last hs ih =>
    simp only [Except.ok.injEq] at h
    have := ih hs
    rw [← h]
    dsimp only at this ⊢
    omega
  | case8 => simp at h
  | case9 c rest p _ _ _ _ value last hs ih =>
    simp only [Except.ok.injEq] at h
    have := ih hs
    rw [← h]
    simp only [List.length_cons]
    dsimp only at this
    omega

/-! ## Patterns -/

/-- The body of a pattern behind its opening slash. A slash inside a class of characters does not
end it, and a backslash keeps the next character with it, whatever it is; an escaped slash is a
slash. `start` is the place of the opening slash. -/
def patternBody (start : Position) (inClass : Bool) :
    List Char → Position → Reading (List Char × Cursor)
  | [], _ => .error (.fault .unterminatedPattern start)
  | '\\' :: rest, p =>
    match rest with
    | [] => .error (.fault .unterminatedPattern start)
    | d :: after =>
      match patternBody start inClass after (p.past ['\\', d]) with
      | .error e => .error e
      | .ok (body, last) => .ok ((if d == '/' then ['/'] else ['\\', d]) ++ body, last)
  | c :: rest, p =>
    if c == '\n' then .error (.fault .unterminatedPattern start)
    else if c == '/' && !inClass then .ok ([], ⟨rest, p.step c⟩)
    else
      let inside := if c == '[' then true else if c == ']' then false else inClass
      match patternBody start inside rest (p.step c) with
      | .error e => .error e
      | .ok (body, last) => .ok (c :: body, last)

/-- The body of a pattern takes at least its slash. -/
theorem patternBody_length {start : Position} {inClass : Bool} {cs : List Char} {p : Position}
    {r : List Char × Cursor} (h : patternBody start inClass cs p = .ok r) :
    r.2.rest.length < cs.length := by
  fun_induction patternBody start inClass cs p generalizing r with
  | case1 => simp at h
  | case2 => simp at h
  | case3 => simp at h
  | case4 inClass p d after body last hs ih =>
    simp only [Except.ok.injEq] at h
    have := ih hs
    rw [← h]
    simp only [List.length_cons]
    dsimp only at this
    omega
  | case5 => simp at h
  | case6 => simp only [Except.ok.injEq] at h; simp [← h]
  | case7 => simp at h
  | case8 =>
    rename_i hs ih
    simp only [Except.ok.injEq] at h
    have := ih hs
    rw [← h]
    simp only [List.length_cons]
    dsimp only at this
    omega

/-! ## Numbers -/

/-- The number that a numeral spells: a double if it has a point or an exponent. -/
def numberOf (n : Numeral) : Reading Number :=
  if n.isWhole then
    if integerDigitLimit < n.whole.length then .error .badDigits
    else .ok (.int (ofDigits 10 n.whole))
  else .ok (.double (n.toDouble false))

/-! ## Pieces -/

/-- The place behind the characters that `after` leaves of `cs`. -/
def placeAfter (cs after : List Char) (p : Position) : Position :=
  p.past (cs.take (cs.length - after.length))

/-- One blank, comment or token of the text `c :: rest`, after the token `previous`. No token
stands for a blank or a comment. -/
def nextPiece (previous : Option Token) (c : Char) (rest : List Char) (p : Position) :
    Reading (Option Token × Cursor) :=
  if Unicode.isBlank c then .ok (none, ⟨rest, p.step c⟩)
  else if c == '/' then
    match rest with
    | '/' :: line => .ok (none, skipLine line (p.past ['/', '/']))
    | '*' :: block =>
      match skipBlock? block (p.past ['/', '*']) with
      | some after => .ok (none, after)
      | none => .error (.fault .unterminatedComment p)
    | body =>
      if patternMayFollow previous then
        match patternBody p false body (p.step c) with
        | .error e => .error e
        | .ok (value, last) =>
          let flags := takeRun Unicode.isLetter last.rest last.place
          .ok (some (.pattern (String.ofList value)), flags.2)
      else .error (.fault .unexpectedSlash p)
  else if c == '"' || c == '\'' || c == '\x60' then
    match stringBody c p rest (p.step c) with
    | .error e => .error e
    | .ok (value, last) => .ok (some (.string (String.ofList value)), last)
  else if Unicode.isDigit c then
    match numeral? (c :: rest) with
    | none => .error .badDigits
    | some (n, after) =>
      match numberOf n with
      | .error e => .error e
      | .ok value => .ok (some (.number value), ⟨after, placeAfter (c :: rest) after p⟩)
  else if wordStart c then
    let (name, after) := takeRun wordPart rest (p.step c)
    .ok (some (.word (String.ofList (c :: name))), after)
  else if punctuation.contains c then .ok (some (.punct c), ⟨rest, p.step c⟩)
  else .error (.fault (.unexpectedCharacter c) p)

theorem skipLine_length (cs : List Char) (p : Position) :
    (skipLine cs p).rest.length ≤ cs.length := by
  fun_induction skipLine cs p <;> simp_all
  omega

theorem skipBlock?_length {cs : List Char} {p : Position} {after : Cursor}
    (h : skipBlock? cs p = some after) : after.rest.length ≤ cs.length := by
  fun_induction skipBlock? cs p with
  | case1 rest p =>
    simp only [Option.some.injEq] at h
    rw [← h]; simp only [List.length_cons]; omega
  | case2 p c rest hne ih =>
    have := ih h
    simp only [List.length_cons]; omega
  | case3 => simp at h

theorem takeRun_length (test : Char → Bool) (cs : List Char) (p : Position) :
    (takeRun test cs p).2.rest.length ≤ cs.length := by
  fun_induction takeRun test cs p <;> simp_all
  omega

/-- The ways to read a piece. -/
inductive PieceReads (previous : Option Token) :
    Char → List Char → Position → Reading (Option Token × Cursor) → Prop
  | blank {c : Char} {rest : List Char} {p : Position} : Unicode.isBlank c = true →
      PieceReads previous c rest p (.ok (none, ⟨rest, p.step c⟩))
  | lineComment {line : List Char} {p : Position} :
      PieceReads previous '/' ('/' :: line) p (.ok (none, skipLine line (p.past ['/', '/'])))
  | blockComment {block : List Char} {p : Position} {after : Cursor} :
      skipBlock? block (p.past ['/', '*']) = some after →
      PieceReads previous '/' ('*' :: block) p (.ok (none, after))
  | pattern {rest value : List Char} {p : Position} {last : Cursor} :
      patternMayFollow previous = true → (∀ line, rest ≠ '/' :: line) →
      (∀ block, rest ≠ '*' :: block) →
      patternBody p false rest (p.step '/') = .ok (value, last) →
      PieceReads previous '/' rest p (.ok (some (.pattern (String.ofList value)),
        (takeRun Unicode.isLetter last.rest last.place).2))
  | string {c : Char} {rest value : List Char} {p : Position} {last : Cursor} :
      (c == '"' || c == '\'' || c == '\x60') = true →
      stringBody c p rest (p.step c) = .ok (value, last) →
      PieceReads previous c rest p (.ok (some (.string (String.ofList value)), last))
  | number {c : Char} {rest behind : List Char} {p : Position} {n : Numeral} {value : Number} :
      Unicode.isDigit c = true → numeral? (c :: rest) = some (n, behind) → numberOf n = .ok value →
      PieceReads previous c rest p
        (.ok (some (.number value), ⟨behind, placeAfter (c :: rest) behind p⟩))
  | word {c : Char} {rest : List Char} {p : Position} : Unicode.isBlank c = false →
      Unicode.isDigit c = false → wordStart c = true →
      PieceReads previous c rest p
        (.ok (some (.word (String.ofList (c :: (takeRun wordPart rest (p.step c)).1))),
          (takeRun wordPart rest (p.step c)).2))
  | punct {c : Char} {rest : List Char} {p : Position} : punctuation.contains c = true →
      PieceReads previous c rest p (.ok (some (.punct c), ⟨rest, p.step c⟩))
  | reported {c : Char} {rest : List Char} {p : Position} (f : Fault) :
      PieceReads previous c rest p (.error (.fault f p))
  | badPattern {rest : List Char} {p : Position} {e : ReadError} :
      patternBody p false rest (p.step '/') = .error e → PieceReads previous '/' rest p (.error e)
  | badString {c : Char} {rest : List Char} {p : Position} {e : ReadError} :
      (c == '"' || c == '\'' || c == '\x60') = true →
      stringBody c p rest (p.step c) = .error e → PieceReads previous c rest p (.error e)
  | noNumeral {c : Char} {rest : List Char} {p : Position} : Unicode.isBlank c = false →
      Unicode.isDigit c = true → numeral? (c :: rest) = none →
      PieceReads previous c rest p (.error .badDigits)
  | badNumber {c : Char} {rest behind : List Char} {p : Position} {n : Numeral} {e : ReadError} :
      Unicode.isBlank c = false → Unicode.isDigit c = true →
      numeral? (c :: rest) = some (n, behind) → numberOf n = .error e →
      PieceReads previous c rest p (.error e)

/-- What the next piece is read as, by its first character. -/
theorem nextPiece_reads {previous : Option Token} {c : Char} {rest : List Char} {p : Position}
    {r : Reading (Option Token × Cursor)} (h : nextPiece previous c rest p = r) :
    PieceReads previous c rest p r := by
  subst h
  fun_cases nextPiece previous c rest p with
  | case1 _ hblank => exact .blank hblank
  | case2 _ hslash =>
    obtain rfl := beq_iff_eq.1 hslash
    exact .lineComment
  | case3 _ hslash block after hblock =>
    obtain rfl := beq_iff_eq.1 hslash
    exact .blockComment hblock
  | case5 _ hslash _ _ _ _ _ hbody =>
    obtain rfl := beq_iff_eq.1 hslash
    exact .badPattern hbody
  | case6 _ hslash _ hline hblock hprevious _ _ hbody =>
    obtain rfl := beq_iff_eq.1 hslash
    exact .pattern hprevious hline hblock hbody
  | case8 _ _ _ hquote _ hbody => exact .badString hquote hbody
  | case9 _ _ _ hquote value last hbody => exact .string hquote hbody
  | case10 _ hblank _ _ hdigit hn => exact .noNumeral (Bool.eq_false_iff.2 hblank) hdigit hn
  | case11 _ hblank _ _ hdigit _ _ hn _ hvalue =>
    exact .badNumber (Bool.eq_false_iff.2 hblank) hdigit hn hvalue
  | case12 _ _ _ _ hdigit _ _ hn _ hvalue => exact .number hdigit hn hvalue
  | case13 _ hblank _ _ hdigit hstart name after hrun =>
    obtain ⟨rfl, rfl⟩ := Prod.mk.inj hrun
    exact .word (Bool.eq_false_iff.2 hblank) (Bool.eq_false_iff.2 hdigit) hstart
  | case14 _ _ _ _ _ _ hpunct => exact .punct hpunct
  | case4 | case7 | case15 => exact .reported _

/-- Every piece takes at least one character. -/
theorem nextPiece_length {previous : Option Token} {c : Char} {rest : List Char} {p : Position}
    {r : Option Token × Cursor} (h : nextPiece previous c rest p = .ok r) :
    r.2.rest.length ≤ rest.length := by
  cases nextPiece_reads h with
  | blank | punct => exact Nat.le_refl _
  | lineComment => exact Nat.le_succ_of_le (skipLine_length _ _)
  | blockComment hblock => exact Nat.le_succ_of_le (skipBlock?_length hblock)
  | pattern _ _ _ hbody =>
    exact Nat.le_trans (takeRun_length _ _ _) (Nat.le_of_lt (patternBody_length hbody))
  | string _ hbody => exact Nat.le_of_lt (stringBody_length hbody)
  | number _ hn _ => exact Nat.le_of_lt_succ (numeral?_length hn)
  | word => exact takeRun_length _ _ _

/-! ## The whole text -/

/-- The tokens of the text that is left, after the token `previous`. -/
def tokensFrom (previous : Option Token) : List Char → Position → Reading Tokens
  | [], p => .ok ⟨[], p⟩
  | c :: rest, p =>
    match h : nextPiece previous c rest p with
    | .error e => .error e
    | .ok (found, after) =>
      have : after.rest.length < (c :: rest).length := by
        have := nextPiece_length h
        simp only [List.length_cons] at this ⊢; omega
      match found with
      | none => tokensFrom previous after.rest after.place
      | some t =>
        match tokensFrom (some t) after.rest after.place with
        | .error e => .error e
        | .ok ts => .ok { ts with items := ⟨t, p⟩ :: ts.items }
termination_by cs => cs.length
decreasing_by all_goals simp only [List.length_cons] at *; omega

/-- The tokens of a source text. -/
def tokenize (code : String) : Reading Tokens :=
  tokensFrom none code.toList Position.start

end FormSchema.Source
