import FormSchema.Proofs.PlainTexts
import FormSchema.Proofs.Quoting

/-!
# Literals as JSON

What a JSON text says is given here on its own: `JsonText.tokens` cuts a text into tokens, and a
value is read from the text if the tokens are those of the value (`JsonValue.IsReadFrom`). A text is
read as one value at most (`JsonValue.IsReadFrom.unique`). Strings are read through their UTF-16
units, so that two escapes may stand for one character; a number is kept as it is written, and what
is no number and the infinities are words.

The literal of plain data is read as the data (`Datum.literal_isReadFrom`), however deep it is. The
proof goes from the characters of a string up: each reader reads what `Text.quoted` and
`Number.literal` write, and leaves what follows.
-/

namespace FormSchema

/-! ## Values and tokens -/

/-- A JSON value. A number is kept as it is written, and the members of an object in order. -/
inductive JsonValue
  | null
  | bool (b : Bool)
  | number (literal : String)
  | string (s : String)
  | array (items : List JsonValue)
  | object (members : List (String × JsonValue))

/-- A piece of a JSON text. -/
inductive JsonToken
  | null
  | bool (b : Bool)
  | number (literal : String)
  | string (s : String)
  /-- A bracket, a comma or a colon. -/
  | mark (c : Char)
deriving DecidableEq, Repr

/-- Tokens with a comma between two pieces. -/
def commaSeparated : List (List JsonToken) → List JsonToken
  | [] => []
  | piece :: rest => piece ++ rest.flatMap (.mark ',' :: ·)

namespace JsonValue

mutual

/-- The tokens of a value. -/
def tokens : JsonValue → List JsonToken
  | null => [.null]
  | bool b => [.bool b]
  | number literal => [.number literal]
  | string s => [.string s]
  | array items => .mark '[' :: (commaSeparated (itemTokens items) ++ [.mark ']'])
  | object members => .mark '\x7b' :: (commaSeparated (memberTokens members) ++ [.mark '\x7d'])

/-- The tokens of the items of an array. -/
def itemTokens : List JsonValue → List (List JsonToken)
  | [] => []
  | item :: rest => item.tokens :: itemTokens rest

/-- The tokens of the members of an object. -/
def memberTokens : List (String × JsonValue) → List (List JsonToken)
  | [] => []
  | (key, value) :: rest => (.string key :: .mark ':' :: value.tokens) :: memberTokens rest

end

end JsonValue

/-! ## Reading a text -/

namespace JsonText

/-- The value of a hexadecimal digit. -/
def hexDigitValue? (c : Char) : Option Nat :=
  if c.isDigit then some (c.toNat - 0x30)
  else if 0x61 ≤ c.toNat && c.toNat ≤ 0x66 then some (c.toNat - 0x57)
  else if 0x41 ≤ c.toNat && c.toNat ≤ 0x46 then some (c.toNat - 0x37)
  else none

/-- The number that hexadecimal digits spell. -/
def hexValue? (digits : List Char) : Option Nat :=
  digits.foldlM (fun total c => (hexDigitValue? c).map (total * 16 + ·)) 0

/-- The unit that a letter stands for behind a backslash. -/
def escapedUnit? : Char → Option Nat
  | '"' => some 0x22
  | '\\' => some 0x5c
  | '/' => some 0x2f
  | 'b' => some 0x08
  | 'f' => some 0x0c
  | 'n' => some 0x0a
  | 'r' => some 0x0d
  | 't' => some 0x09
  | _ => none

/-- More units in front of those of a string. -/
def prependUnits (units : List Nat) (r : List Nat × List Char) : List Nat × List Char :=
  (units ++ r.1, r.2)

/-- The UTF-16 units of a string behind its opening quote, and the text behind the closing one.
Controls have to be escaped. -/
def stringUnits : List Char → Option (List Nat × List Char)
  | [] => none
  | c :: rest =>
    if c = '"' then some ([], rest)
    else if c = '\\' then
      match rest with
      | [] => none
      | e :: after =>
        if e = 'u' then
          match after with
          | a :: b :: c :: d :: more =>
            (hexValue? [a, b, c, d]).bind fun unit => (stringUnits more).map (prependUnits [unit])
          | _ => none
        else
          (escapedUnit? e).bind fun unit => (stringUnits after).map (prependUnits [unit])
    else if c.toNat < 0x20 then none
    else (stringUnits rest).map (prependUnits (Text.utf16Units c))

/-- The characters of UTF-16 units. A unit of a pair that stands alone is none. -/
def charsOfUnits : List Nat → Option (List Char)
  | [] => some []
  | unit :: rest =>
    if 0xd800 ≤ unit && unit ≤ 0xdbff then
      match rest with
      | [] => none
      | second :: more =>
        if 0xdc00 ≤ second && second ≤ 0xdfff then
          (charsOfUnits more).map
            (Char.ofNat (0x10000 + (unit - 0xd800) * 0x400 + (second - 0xdc00)) :: ·)
        else none
    else if 0xdc00 ≤ unit && unit ≤ 0xdfff then none
    else (charsOfUnits rest).map (Char.ofNat unit :: ·)

theorem of_map_prependUnits {r : Option (List Nat × List Char)} {more units : List Nat}
    {after : List Char} (h : r.map (prependUnits more) = some (units, after)) :
    ∃ inner, r = some (inner, after) := by
  obtain ⟨⟨inner, rest⟩, rfl, heq⟩ := Option.map_eq_some_iff.1 h
  cases heq
  exact ⟨inner, rfl⟩

/-- A string takes its closing quote, at least. -/
theorem stringUnits_length {cs : List Char} {units : List Nat} {after : List Char}
    (h : stringUnits cs = some (units, after)) : after.length < cs.length := by
  fun_induction stringUnits cs generalizing units after with
  | case1 | case3 | case5 | case7 => cases h
  | case2 =>
    cases h
    exact Nat.lt_succ_self _
  | case4 _ _ _ _ _ _ ih =>
    obtain ⟨unit, -, hmore⟩ := Option.bind_eq_some_iff.1 h
    obtain ⟨inner, hinner⟩ := of_map_prependUnits hmore
    have hless := ih hinner
    simp only [List.length_cons]
    omega
  | case6 _ _ _ _ ih =>
    obtain ⟨unit, -, hmore⟩ := Option.bind_eq_some_iff.1 h
    obtain ⟨inner, hinner⟩ := of_map_prependUnits hmore
    have hless := ih hinner
    simp only [List.length_cons]
    omega
  | case8 _ _ _ _ _ ih =>
    obtain ⟨inner, hinner⟩ := of_map_prependUnits h
    exact Nat.lt_succ_of_lt (ih hinner)

/-- Whether digits go on behind a zero at the front. -/
def isPadded : List Char → Bool
  | '0' :: c :: _ => c.isDigit
  | _ => false

/-- Whether a text is a number: a numeral of common digits, perhaps behind a minus sign, that is
not padded with zeros. -/
def isNumber (cs : List Char) : Bool :=
  let unsigned := if cs.head? == some '-' then cs.tail else cs
  unsigned.all (fun c => decide (c.toNat < 0x80)) && !isPadded unsigned &&
    (numeral? unsigned).any fun r => r.2.isEmpty

/-- The token that a word is. -/
def wordToken? (word : List Char) : Option JsonToken :=
  if isNumber word then some (.number (String.ofList word))
  else
    match String.ofList word with
    | "null" => some .null
    | "true" => some (.bool true)
    | "false" => some (.bool false)
    | "NaN" => some (.number "NaN")
    | "Infinity" => some (.number "Infinity")
    | "-Infinity" => some (.number "-Infinity")
    | _ => none

/-- A blank between two tokens. -/
def isBlank (c : Char) : Bool :=
  c == ' ' || c == '\t' || c == '\n' || c == '\r'

/-- A character that is a token. -/
def isMark (c : Char) : Bool :=
  ['[', ']', '\x7b', '\x7d', ',', ':'].contains c

/-- A character of a word. -/
def isWordPart (c : Char) : Bool :=
  !isBlank c && !isMark c && c != '"'

/-- The tokens of a text, if it has tokens only. -/
def tokens (cs : List Char) : Option (List JsonToken) :=
  match cs with
  | [] => some []
  | c :: rest =>
    if isBlank c then tokens rest
    else if isMark c then (tokens rest).map (.mark c :: ·)
    else if c = '"' then
      match _h : stringUnits rest with
      | none => none
      | some (units, after) =>
        (charsOfUnits units).bind fun s => (tokens after).map (.string (String.ofList s) :: ·)
    else
      (wordToken? (c :: rest.takeWhile isWordPart)).bind fun t =>
        (tokens (rest.dropWhile isWordPart)).map (t :: ·)
termination_by cs.length
decreasing_by
  · exact Nat.lt_succ_self _
  · exact Nat.lt_succ_self _
  · exact Nat.lt_succ_of_lt (stringUnits_length _h)
  · exact Nat.lt_succ_of_le (List.dropWhile_suffix _).length_le

/-! ## Strings -/

open Text (hexDigit hexDigits utf16Units unitEscape quotedChar quotedChars quoted)

/-- A written hexadecimal digit has the value it was written for. -/
theorem hexDigitValue_hexDigit : ∀ d < 16, hexDigitValue? (hexDigit d) = some d := by decide

/-- Four written hexadecimal digits have the value they were written for. -/
theorem hexValue_hexDigits {n : Nat} (h : n < 0x10000) : hexValue? (hexDigits 4 n) = some n := by
  rw [Source.hexDigits_four, hexValue?]
  simp only [List.foldlM_cons, List.foldlM_nil, hexDigitValue_hexDigit _ (Nat.mod_lt _ (by decide)),
    Option.map_some, Option.bind_eq_bind, Option.bind_some, Option.pure_def, Option.some.injEq]
  omega

theorem map_prependUnits (a b : List Nat) (r : Option (List Nat × List Char)) :
    (r.map (prependUnits b)).map (prependUnits a) = r.map (prependUnits (a ++ b)) := by
  cases r with
  | none => rfl
  | some r => simp [prependUnits]

/-- An escaped unit is read as that unit. -/
theorem stringUnits_unit {n : Nat} (h : n < 0x10000) (rest : List Char) :
    stringUnits ('\\' :: 'u' :: (hexDigits 4 n ++ rest)) =
      (stringUnits rest).map (prependUnits [n]) := by
  have hvalue := hexValue_hexDigits h
  rw [Source.hexDigits_four] at hvalue ⊢
  simp only [List.cons_append, List.nil_append]
  rw [stringUnits, if_neg (by decide), if_pos rfl, if_pos rfl, hvalue]
  rfl

/-- Escaped units are read in their order. -/
theorem stringUnits_units {units : List Nat} (h : ∀ n ∈ units, n < 0x10000) (rest : List Char) :
    stringUnits ((units.flatMap fun n => '\\' :: 'u' :: hexDigits 4 n) ++ rest) =
      (stringUnits rest).map (prependUnits units) := by
  induction units with
  | nil =>
    rw [List.flatMap_nil, List.nil_append]
    cases stringUnits rest <;> rfl
  | cons n units ih =>
    rw [List.flatMap_cons, List.append_assoc, List.cons_append, List.cons_append,
      stringUnits_unit (h n List.mem_cons_self),
      ih fun m hm => h m (List.mem_cons_of_mem n hm), map_prependUnits]
    rfl

/-- A short escape is read as the unit it stands for. -/
theorem stringUnits_escape {e : Char} {unit : Nat} (hu : e ≠ 'u')
    (h : escapedUnit? e = some unit) (rest : List Char) :
    stringUnits ('\\' :: e :: rest) = (stringUnits rest).map (prependUnits [unit]) := by
  rw [stringUnits.eq_def]
  dsimp only
  rw [if_neg (by decide), if_pos rfl, if_neg hu, h]
  rfl

/-- A character of a literal is read as its units. -/
theorem stringUnits_quotedChar (c : Char) (rest : List Char) :
    stringUnits (quotedChar c ++ rest) = (stringUnits rest).map (prependUnits (utf16Units c)) := by
  unfold quotedChar
  split
  · exact stringUnits_escape (by decide) rfl rest
  · exact stringUnits_escape (by decide) rfl rest
  · exact stringUnits_escape (by decide) rfl rest
  · exact stringUnits_escape (by decide) rfl rest
  · exact stringUnits_escape (by decide) rfl rest
  · exact stringUnits_escape (by decide) rfl rest
  · exact stringUnits_escape (by decide) rfl rest
  · rename_i hquote hslash _ _ _ _ _
    split
    · rename_i hprintable
      simp only [Bool.and_eq_true, decide_eq_true_eq] at hprintable
      rw [List.singleton_append, stringUnits.eq_def]
      dsimp only
      rw [if_neg hquote, if_neg hslash, if_neg (by omega)]
    · exact stringUnits_units (Source.utf16Units_lt c) rest

/-- The units of a quoted text are those of its characters. -/
theorem stringUnits_quoted (cs rest : List Char) :
    stringUnits (cs.flatMap quotedChar ++ '"' :: rest) = some (cs.flatMap utf16Units, rest) := by
  induction cs with
  | nil =>
    rw [List.flatMap_nil, List.nil_append, stringUnits.eq_def]
    rfl
  | cons c cs ih =>
    rw [List.flatMap_cons, List.append_assoc, stringUnits_quotedChar, ih]
    rfl

/-- The units of a character are read as the character. -/
theorem charsOfUnits_utf16Units (c : Char) (rest : List Nat) :
    charsOfUnits (utf16Units c ++ rest) = (charsOfUnits rest).map (c :: ·) := by
  have hlt := Source.toNat_lt c
  have hsingle := Source.not_surrogate c
  unfold utf16Units
  split
  · rw [List.singleton_append, charsOfUnits.eq_def]
    dsimp only
    rw [if_neg (by simp; omega), if_neg (by simp; omega), Char.ofNat_toNat]
  · rw [List.cons_append, List.singleton_append, charsOfUnits, if_pos (by simp; omega),
      if_pos (by simp; omega)]
    have hsum : 0x10000 + (0xd800 + (c.toNat - 0x10000) / 0x400 - 0xd800) * 0x400 +
        (0xdc00 + (c.toNat - 0x10000) % 0x400 - 0xdc00) = c.toNat := by omega
    rw [hsum, Char.ofNat_toNat]

/-- The units of characters make up these characters again. -/
theorem charsOfUnits_flatMap (cs : List Char) : charsOfUnits (cs.flatMap utf16Units) = some cs := by
  induction cs with
  | nil => rfl
  | cons c cs ih =>
    rw [List.flatMap_cons, charsOfUnits_utf16Units, ih]
    rfl

/-! ## Numbers -/

/-- A number other than zero is not padded. -/
theorem exists_toDigits_ne_zero {n : Nat} (h : n ≠ 0) :
    ∃ c cs, Nat.toDigits 10 n = c :: cs ∧ c ≠ '0' := by
  induction n using Nat.strongRecOn with
  | ind n ih =>
    rcases Nat.lt_or_ge n 10 with hlt | hle
    · rw [Nat.toDigits_of_lt_base hlt]
      exact ⟨_, _, rfl, fun hzero => h (Nat.digitChar_eq_zero.1 hzero)⟩
    · have hless : n / 10 < n := by omega
      have hnonzero : n / 10 ≠ 0 := by omega
      obtain ⟨c, cs, heq, hc⟩ := ih (n / 10) hless hnonzero
      rw [Nat.toDigits_of_base_le (by decide) hle, heq]
      exact ⟨c, _, rfl, hc⟩

theorem isPadded_of_ne {c : Char} (h : c ≠ '0') (rest : List Char) :
    isPadded (c :: rest) = false := by
  unfold isPadded
  split
  · rename_i heq
    exact absurd (List.cons.inj heq).1 h
  · rfl

/-- The digits of a number have no zero in front. -/
theorem isPadded_toDigits (n : Nat) : isPadded (Nat.toDigits 10 n) = false := by
  by_cases h : n = 0
  · rw [h]
    rfl
  · obtain ⟨c, cs, heq, hc⟩ := exists_toDigits_ne_zero h
    rw [heq, isPadded_of_ne hc]

theorem isPadded_positional {c : Char} (h : c ≠ '0') (ds : List Char) (point : Int) :
    isPadded (Double.positional (c :: ds) point) = false := by
  unfold Double.positional
  split
  · rfl
  · split
    · exact isPadded_of_ne h _
    · obtain ⟨k, hk⟩ := Nat.exists_eq_succ_of_ne_zero (show point.toNat ≠ 0 by omega)
      rw [hk, List.take_succ_cons]
      exact isPadded_of_ne h _

/-- The text of a double has no zero in front of its digits. -/
theorem isPadded_rankText (layout : Double.Layout) (rank : Nat) :
    isPadded (Double.rankText layout rank) = false := by
  unfold Double.rankText
  split
  · rfl
  · rename_i hrank
    have hdigits := Double.shortest_ne_zero hrank
    obtain ⟨c, cs, heq, hc⟩ := exists_toDigits_ne_zero hdigits
    obtain ⟨d, ds, hds⟩ := List.exists_cons_of_ne_nil (Double.dropZeros_toDigits hdigits)
    -- Zeros are dropped at the end, so the first digit stays.
    have hd : d ≠ '0' := by
      have hfront : Double.dropZeros (Nat.toDigits 10 (Double.shortest rank).digits) <+: c :: cs :=
        heq ▸ List.rdropWhile_prefix (· == '0') _
      rw [hds] at hfront
      rwa [(List.cons_prefix_cons.1 hfront).1]
    dsimp only
    rw [hds]
    split
    · exact isPadded_positional hd ds _
    · exact isPadded_of_ne hd _

theorem numeralPart_lt {c : Char} (h : numeralPart c = true) : c.toNat < 0x80 := by
  simp only [numeralPart, Char.isDigit, Bool.or_eq_true, Bool.and_eq_true, decide_eq_true_eq,
    beq_iff_eq] at h
  rcases h with (((h | rfl) | rfl) | rfl) | rfl
  · have hle : c.toNat ≤ 57 := h.2
    omega
  all_goals decide

/-- A numeral without zeros in front is a number of the format, with a sign or without. -/
theorem isNumber_signed (negative : Bool) {cs : List Char} {n : Numeral}
    (hdigit : ∃ c rest, cs = c :: rest ∧ c.isDigit = true) (hall : cs.all numeralPart = true)
    (hpadded : isPadded cs = false) (hread : numeral? cs = some (n, [])) :
    isNumber ((if negative then ['-'] else []) ++ cs) = true := by
  have hunsigned : (if ((if negative then ['-'] else []) ++ cs).head? == some '-' then
      ((if negative then ['-'] else []) ++ cs).tail else (if negative then ['-'] else []) ++ cs) =
        cs := by
    cases negative with
    | true => rfl
    | false =>
      obtain ⟨c, rest, rfl, hc⟩ := hdigit
      have hminus : c ≠ '-' := by
        rintro rfl
        cases hc
      simp [hminus]
  have hcommon : cs.all (fun c => decide (c.toNat < 0x80)) = true :=
    List.all_eq_true.2 fun c hc => decide_eq_true (numeralPart_lt (List.all_eq_true.1 hall c hc))
  rw [isNumber, hunsigned, hcommon, hpadded, hread]
  rfl

/-- The text of an integer is a number of the format. -/
theorem isNumber_intText (n : Int) : isNumber (intText n).toList = true := by
  have hsigned : (intText n).toList =
      (if decide (n < 0) then ['-'] else []) ++ Nat.toDigits 10 n.natAbs := by
    unfold intText natText
    by_cases h : n < 0 <;> simp [h]
  have hread := @Source.numeral_natural n.natAbs [] fun c hc => by cases hc
  rw [List.append_nil] at hread
  rw [hsigned]
  exact isNumber_signed _ (exists_toDigits_cons _) (all_numeralPart (toDigits_all _))
    (isPadded_toDigits _) hread

/-- The text of a double is a number of the format. -/
theorem isNumber_rankText (negative : Bool) (rank : Nat) :
    isNumber ((if negative then ['-'] else []) ++ Double.rankText Number.literalLayout rank) =
      true := by
  obtain ⟨hdigit, n, -, hread⟩ := Source.isDecimal_rankText Number.literalLayout rank
  have hall := hread [] fun c hc => by cases hc
  rw [List.append_nil] at hall
  exact isNumber_signed negative hdigit (Double.rankText_all _ rank) (isPadded_rankText _ rank) hall

/-- The literal of a number is the token of the number. -/
theorem wordToken_literal (n : Number) : wordToken? n.literal.toList = some (.number n.literal) := by
  match n with
  | .int n =>
    rw [Number.literal, wordToken?, if_pos (isNumber_intText n), String.ofList_toList]
  | .double (.finite negative rank) =>
    rw [Number.literal, Double.text, String.toList_ofList, wordToken?,
      if_pos (isNumber_rankText negative rank)]
  | .double (.infinite false) => decide
  | .double (.infinite true) => decide
  | .double .nan => decide

/-! ## Tokens -/

/-- More tokens in front of those of a text. -/
def prependTokens (ts : List JsonToken) (r : Option (List JsonToken)) : Option (List JsonToken) :=
  r.map (ts ++ ·)

theorem prependTokens_nil (r : Option (List JsonToken)) : prependTokens [] r = r := by
  cases r <;> rfl

theorem prependTokens_append (a b : List JsonToken) (r : Option (List JsonToken)) :
    prependTokens (a ++ b) r = prependTokens a (prependTokens b r) := by
  cases r with
  | none => rfl
  | some ts => simp [prependTokens]

theorem tokens_blank {c : Char} (h : isBlank c = true) (rest : List Char) :
    tokens (c :: rest) = tokens rest := by
  rw [tokens, if_pos h]

theorem tokens_mark {c : Char} (h : isMark c = true) (rest : List Char) :
    tokens (c :: rest) = prependTokens [.mark c] (tokens rest) := by
  have hblank : isBlank c = false := by
    by_contra hblank
    simp only [isBlank, isMark, Bool.not_eq_false, Bool.or_eq_true, beq_iff_eq] at hblank h
    rcases hblank with ((rfl | rfl) | rfl) | rfl <;> cases h
  rw [tokens, if_neg (by simp [hblank]), if_pos h]
  rfl

/-- A quoted text is read as one string. -/
theorem tokens_quoted (s : String) (rest : List Char) :
    tokens ((quoted s).toList ++ rest) = prependTokens [.string s] (tokens rest) := by
  rw [Text.toList_quoted, quotedChars, List.cons_append, List.append_assoc, List.singleton_append,
    tokens, if_neg (by decide), if_neg (by decide), if_pos rfl]
  split
  · rename_i h
    rw [stringUnits_quoted] at h
    cases h
  · rename_i h
    rw [stringUnits_quoted] at h
    cases h
    rw [charsOfUnits_flatMap, Option.bind_some, String.ofList_toList]
    rfl

/-- What follows goes on with no word. -/
def Stops (rest : List Char) : Prop :=
  ∀ c ∈ rest.head?, isWordPart c = false

theorem stops_mark {c : Char} (h : isMark c = true) (rest : List Char) : Stops (c :: rest) := by
  intro d hd
  cases hd
  simp [isWordPart, h]

theorem Stops.takeWhile_eq {rest : List Char} (h : Stops rest) :
    rest.takeWhile isWordPart = [] := by
  cases rest with
  | nil => rfl
  | cons c rest => rw [List.takeWhile_cons, if_neg (by simp [h c rfl])]

theorem Stops.dropWhile_eq {rest : List Char} (h : Stops rest) :
    rest.dropWhile isWordPart = rest := by
  cases rest with
  | nil => rfl
  | cons c rest => rw [List.dropWhile_cons, if_neg (by simp [h c rfl])]

/-- A word is read as one token, if no part of a word follows it. -/
theorem tokens_word {c : Char} {word rest : List Char} {t : JsonToken}
    (h : (c :: word).all isWordPart = true) (ht : wordToken? (c :: word) = some t)
    (hrest : Stops rest) : tokens (c :: (word ++ rest)) = prependTokens [t] (tokens rest) := by
  rw [List.all_cons, Bool.and_eq_true] at h
  obtain ⟨hc, hword⟩ := h
  have hall := List.all_eq_true.1 hword
  have htake : (word ++ rest).takeWhile isWordPart = word := by
    rw [List.takeWhile_append_of_pos hall, hrest.takeWhile_eq, List.append_nil]
  have hdrop : (word ++ rest).dropWhile isWordPart = rest := by
    rw [List.dropWhile_append_of_pos hall, hrest.dropWhile_eq]
  simp only [isWordPart, Bool.and_eq_true, Bool.not_eq_true', bne_iff_ne] at hc
  obtain ⟨⟨hblank, hmark⟩, hquote⟩ := hc
  rw [tokens, if_neg (by simp [hblank]), if_neg (by simp [hmark]), if_neg hquote, htake, hdrop, ht]
  rfl

/-! ## Spellings -/

/-- A text is cut into tokens, if no word goes on behind it. -/
def Spells (text : String) (ts : List JsonToken) : Prop :=
  ∀ rest, Stops rest → tokens (text.toList ++ rest) = prependTokens ts (tokens rest)

/-- A text that spells tokens is read as just these. -/
theorem Spells.tokens_eq {text : String} {ts : List JsonToken} (h : Spells text ts) :
    tokens text.toList = some ts := by
  have hall := h [] fun c hc => by cases hc
  rwa [List.append_nil, tokens, prependTokens, Option.map_some, List.append_nil] at hall

/-- A word spells its token. -/
theorem spells_word {word : String} {t : JsonToken} (hall : word.toList.all isWordPart = true)
    (ht : wordToken? word.toList = some t) : Spells word [t] := by
  intro rest hrest
  cases hword : word.toList with
  | nil =>
    rw [hword] at ht
    cases ht
  | cons c cs =>
    rw [hword] at hall ht
    exact tokens_word hall ht hrest

theorem isWordPart_of_literalPart {c : Char} (h : literalPart c = true) : isWordPart c = true := by
  by_contra hpart
  simp only [isWordPart, isBlank, isMark, Bool.and_eq_true, Bool.not_eq_true', bne_iff_ne, not_and_or,
    Bool.not_eq_false, not_not, Bool.or_eq_true, beq_iff_eq, List.contains_iff_mem, List.mem_cons,
    List.not_mem_nil, or_false] at hpart
  rcases hpart with ((((rfl | rfl) | rfl) | rfl) | (rfl | rfl | rfl | rfl | rfl | rfl)) | rfl <;>
    cases h

/-- A number spells one token, its own text. -/
theorem spells_number (n : Number) : Spells n.literal [.number n.literal] :=
  spells_word (List.all_eq_true.2 fun c hc =>
    isWordPart_of_literalPart (List.all_eq_true.1 (literal_all n) c hc)) (wordToken_literal n)

theorem spells_quoted (s : String) : Spells (quoted s) [.string s] :=
  fun rest _ => tokens_quoted s rest

/-- An entry spells its key, a colon and its value. -/
theorem spells_entry (key : String) {value : String} {ts : List JsonToken} (h : Spells value ts) :
    Spells (quoted key ++ ": " ++ value) (.string key :: .mark ':' :: ts) := by
  intro rest hrest
  have hcolon : tokens (": ".toList ++ (value.toList ++ rest)) =
      prependTokens (.mark ':' :: ts) (tokens rest) := by
    show tokens (':' :: ' ' :: (value.toList ++ rest)) = _
    rw [tokens_mark rfl, tokens_blank rfl, h rest hrest, ← prependTokens_append]
    rfl
  rw [String.toList_append, String.toList_append, List.append_assoc, List.append_assoc,
    tokens_quoted, hcolon, ← prependTokens_append]
  rfl

/-- Pieces with a comma and a space between two of them spell their tokens with commas. -/
theorem spells_joined {pieces : List String} {tss : List (List JsonToken)}
    (h : List.Forall₂ Spells pieces tss) :
    Spells (Text.joined ", " pieces) (commaSeparated tss) := by
  induction h with
  | nil =>
    intro rest _
    exact (prependTokens_nil _).symm
  | @cons piece ts pieces tss hpiece hothers ih =>
    cases hothers with
    | nil =>
      rw [commaSeparated, List.flatMap_nil, List.append_nil]
      exact hpiece
    | @cons next nextTokens pieces tss hnext hothers =>
      intro rest hrest
      have hcomma : tokens (", ".toList ++ ((Text.joined ", " (next :: pieces)).toList ++ rest)) =
          prependTokens (.mark ',' :: commaSeparated (nextTokens :: tss)) (tokens rest) := by
        show tokens (',' :: ' ' :: ((Text.joined ", " (next :: pieces)).toList ++ rest)) = _
        rw [tokens_mark rfl, tokens_blank rfl, ih rest hrest, ← prependTokens_append]
        rfl
      have hstops : Stops (", ".toList ++ ((Text.joined ", " (next :: pieces)).toList ++ rest)) :=
        stops_mark rfl _
      rw [Text.joined, String.toList_append, String.toList_append, List.append_assoc,
        List.append_assoc, hpiece _ hstops, hcomma, ← prependTokens_append]
      · rfl
      · simp

/-- Brackets around a text spell marks around its tokens. -/
theorem spells_enclosed {start finish inner : String} {c d : Char} {ts : List JsonToken}
    (hstart : start.toList = [c]) (hfinish : finish.toList = [d]) (hc : isMark c = true)
    (hd : isMark d = true) (h : Spells inner ts) :
    Spells (start ++ inner ++ finish) (.mark c :: (ts ++ [.mark d])) := by
  intro rest hrest
  rw [String.toList_append, String.toList_append, hstart, hfinish, List.append_assoc,
    List.append_assoc, List.singleton_append, tokens_mark hc, List.singleton_append,
    h _ (stops_mark hd rest), tokens_mark hd, ← prependTokens_append, ← prependTokens_append]
  rfl

end JsonText

/-! ## One value at most -/

section

variable {β : Type} {f : β → List JsonToken} {close : Char}

/-- Pieces behind commas, up to a closing mark, are told apart if single pieces are. -/
theorem commaPieces_inj (hclose : close ≠ ',') : ∀ {as bs : List β} {r r' : List JsonToken},
    (∀ a ∈ as, ∀ b r r', f a ++ r = f b ++ r' → a = b ∧ r = r') →
    (as.map f).flatMap (.mark ',' :: ·) ++ .mark close :: r =
      (bs.map f).flatMap (.mark ',' :: ·) ++ .mark close :: r' → as = bs ∧ r = r'
  | [], [], r, r', _, h => ⟨rfl, (List.cons.inj h).2⟩
  | [], b :: bs, r, r', _, h => absurd (JsonToken.mark.inj (List.cons.inj h).1) hclose
  | a :: as, [], r, r', _, h => absurd (JsonToken.mark.inj (List.cons.inj h).1).symm hclose
  | a :: as, b :: bs, r, r', hf, h => by
    simp only [List.map_cons, List.flatMap_cons, List.cons_append, List.append_assoc] at h
    obtain ⟨rfl, hrest⟩ := hf a List.mem_cons_self b _ _ (List.cons.inj h).2
    obtain ⟨rfl, hr⟩ :=
      commaPieces_inj hclose (fun c hc => hf c (List.mem_cons_of_mem a hc)) hrest
    exact ⟨rfl, hr⟩

/-- Pieces between commas, up to a closing mark that starts none of them, are told apart if single
pieces are. -/
theorem commaSeparated_inj (hclose : close ≠ ',') (hhead : ∀ b r r', f b ++ r ≠ .mark close :: r')
    {as bs : List β} {r r' : List JsonToken}
    (hf : ∀ a ∈ as, ∀ b r r', f a ++ r = f b ++ r' → a = b ∧ r = r')
    (h : commaSeparated (as.map f) ++ .mark close :: r =
      commaSeparated (bs.map f) ++ .mark close :: r') : as = bs ∧ r = r' := by
  cases as with
  | nil =>
    cases bs with
    | nil => exact ⟨rfl, (List.cons.inj h).2⟩
    | cons b bs =>
      rw [List.map_cons, commaSeparated, List.append_assoc] at h
      exact absurd h.symm (hhead b _ _)
  | cons a as =>
    cases bs with
    | nil =>
      rw [List.map_cons, commaSeparated, List.append_assoc] at h
      exact absurd h (hhead a _ _)
    | cons b bs =>
      rw [List.map_cons, List.map_cons, commaSeparated, commaSeparated, List.append_assoc,
        List.append_assoc] at h
      obtain ⟨rfl, hrest⟩ := hf a List.mem_cons_self b _ _ h
      obtain ⟨rfl, hr⟩ :=
        commaPieces_inj hclose (fun c hc => hf c (List.mem_cons_of_mem a hc)) hrest
      exact ⟨rfl, hr⟩

end

namespace JsonValue

/-- The tokens of a member of an object. -/
def memberPiece (member : String × JsonValue) : List JsonToken :=
  .string member.1 :: .mark ':' :: member.2.tokens

/-- The pieces of an array are the tokens of its items. -/
theorem itemTokens_eq : ∀ items : List JsonValue, itemTokens items = items.map tokens
  | [] => rfl
  | item :: rest => congrArg (item.tokens :: ·) (itemTokens_eq rest)

/-- The pieces of an object are those of its members. -/
theorem memberTokens_eq : ∀ members : List (String × JsonValue),
    memberTokens members = members.map memberPiece
  | [] => rfl
  | member :: rest => congrArg (memberPiece member :: ·) (memberTokens_eq rest)

/-- No value starts with the mark that closes an array. -/
theorem tokens_ne_close (v : JsonValue) (r r' : List JsonToken) :
    v.tokens ++ r ≠ .mark ']' :: r' := by
  cases v <;> simp [tokens]

/-- A member does not begin with a closing brace. -/
theorem memberPiece_ne_close (member : String × JsonValue) (r r' : List JsonToken) :
    memberPiece member ++ r ≠ .mark '\x7d' :: r' := by
  simp [memberPiece]

/-- The tokens of values are told apart from the front. -/
theorem tokens_inj : ∀ (v w : JsonValue) {r r' : List JsonToken},
    v.tokens ++ r = w.tokens ++ r' → v = w ∧ r = r'
  | null, w, r, r', h => by cases w <;> simp_all [tokens]
  | bool b, w, r, r', h => by cases w <;> simp_all [tokens]
  | number n, w, r, r', h => by cases w <;> simp_all [tokens]
  | string s, w, r, r', h => by cases w <;> simp_all [tokens]
  | array items, w, r, r', h => by
    cases w with
    | array others =>
      simp only [tokens, itemTokens_eq, List.cons_append, List.append_assoc, List.nil_append] at h
      have hpieces : ∀ item ∈ items, ∀ other r r',
          item.tokens ++ r = other.tokens ++ r' → item = other ∧ r = r' :=
        fun item hitem other _ _ => tokens_inj item other
      obtain ⟨rfl, hr⟩ := commaSeparated_inj (by decide) tokens_ne_close hpieces (List.cons.inj h).2
      exact ⟨rfl, hr⟩
    | _ => simp [tokens] at h
  | object members, w, r, r', h => by
    cases w with
    | object others =>
      simp only [tokens, memberTokens_eq, List.cons_append, List.append_assoc,
        List.nil_append] at h
      have hpieces : ∀ member ∈ members, ∀ other r r',
          memberPiece member ++ r = memberPiece other ++ r' → member = other ∧ r = r' := by
        rintro ⟨key, value⟩ hmember ⟨otherKey, other⟩ r r' h
        simp only [memberPiece, List.cons_append, List.cons.injEq, JsonToken.string.injEq,
          true_and] at h
        obtain ⟨rfl, hr⟩ := tokens_inj value other h.2
        exact ⟨by rw [h.1], hr⟩
      obtain ⟨rfl, hr⟩ := commaSeparated_inj (by decide) memberPiece_ne_close hpieces
        (List.cons.inj h).2
      exact ⟨rfl, hr⟩
    | _ => simp [tokens] at h
termination_by v => sizeOf v
decreasing_by
  · have hless := List.sizeOf_lt_of_mem hitem
    simp only [array.sizeOf_spec]
    omega
  · have hless := List.sizeOf_lt_of_mem hmember
    simp only [object.sizeOf_spec, Prod.mk.sizeOf_spec] at hless ⊢
    omega

/-- The value that a text is read as. -/
def IsReadFrom (v : JsonValue) (text : String) : Prop :=
  JsonText.tokens text.toList = some v.tokens

/-- A text is read as one value at most. -/
theorem IsReadFrom.unique {v w : JsonValue} {text : String} (hv : v.IsReadFrom text)
    (hw : w.IsReadFrom text) : v = w := by
  have htokens : v.tokens ++ [] = w.tokens ++ [] := by
    rw [Option.some.inj (hv.symm.trans hw)]
  exact (tokens_inj v w htokens).1

end JsonValue

/-! ## The literals of plain data -/

namespace Datum

mutual

/-- Plain data as a JSON value. -/
def json : Datum → JsonValue
  | null => .null
  | bool b => .bool b
  | number n => .number n.literal
  | text s => .string s
  | list items => .array (jsonItems items)
  | record entries => .object (jsonMembers entries)

/-- The items of a list as JSON values. -/
def jsonItems : List Datum → List JsonValue
  | [] => []
  | item :: rest => item.json :: jsonItems rest

/-- The entries of a record as the members of an object. -/
def jsonMembers : List (String × Datum) → List (String × JsonValue)
  | [] => []
  | (key, value) :: rest => (key, value.json) :: jsonMembers rest

end

theorem jsonMembers_eq : ∀ entries : List (String × Datum),
    jsonMembers entries = entries.map fun e => (e.1, e.2.json)
  | [] => rfl
  | (key, value) :: rest => congrArg ((key, value.json) :: ·) (jsonMembers_eq rest)

open JsonText

mutual

/-- A value spells the tokens of the data it stands for. -/
theorem spells_literal : ∀ d : Datum, Spells d.literal d.json.tokens
  | null => spells_word (by decide) (by decide)
  | bool true => spells_word (by decide) (by decide)
  | bool false => spells_word (by decide) (by decide)
  | number n => spells_number n
  | text s => spells_quoted s
  | list items => spells_enclosed rfl rfl rfl rfl (spells_joined (spells_literals items))
  | record entries => spells_enclosed rfl rfl rfl rfl (spells_joined (spells_literalEntries entries))

/-- The items of an array spell the tokens of their data, one by one. -/
theorem spells_literals : ∀ items : List Datum,
    List.Forall₂ Spells (literals items) (JsonValue.itemTokens (jsonItems items))
  | [] => .nil
  | item :: rest => .cons (spells_literal item) (spells_literals rest)

/-- The entries of an object spell the tokens of their data, one by one. -/
theorem spells_literalEntries : ∀ entries : List (String × Datum),
    List.Forall₂ Spells (literalEntries entries) (JsonValue.memberTokens (jsonMembers entries))
  | [] => .nil
  | (key, value) :: rest => .cons (spells_entry key (spells_literal value)) (spells_literalEntries rest)

end

/-- The literal of plain data is read as the data. -/
theorem literal_isReadFrom (d : Datum) : d.json.IsReadFrom d.literal :=
  (spells_literal d).tokens_eq

end Datum

end FormSchema
