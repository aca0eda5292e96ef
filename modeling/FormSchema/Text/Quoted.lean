import FormSchema.Number.Basic
import FormSchema.Unicode.Printable

/-!
# Quoted texts

`quoted` writes a text as a string literal of printable ASCII: quotes and backslashes are escaped
by a backslash, five controls have a letter of their own, and every other character outside
printable ASCII is written by its UTF-16 units, four hexadecimal digits each.

A name that is an ASCII identifier stands in the generated code as it is; any other is quoted.
`propertyKey` writes a name as the key of an object literal, and `memberAccess` reaches through
the members of a value, with a dot or with brackets.

`shown` quotes a text for a message about the source. Single quotes surround it, unless it holds
one and no double quote. Only the chosen quote, the backslash and what has no glyph are escaped.
-/

namespace FormSchema.Text

/-! ## String literals -/

/-- The hexadecimal digit of a number below sixteen. -/
def hexDigit (n : Nat) : Char :=
  if n < 10 then Char.ofNat (0x30 + n) else Char.ofNat (0x57 + n)

/-- The last `width` hexadecimal digits of a number. -/
def hexDigits : Nat → Nat → List Char
  | 0, _ => []
  | width + 1, n => hexDigits width (n / 16) ++ [hexDigit (n % 16)]

/-- The UTF-16 units of a character. -/
def utf16Units (c : Char) : List Nat :=
  if c.toNat < 0x10000 then [c.toNat]
  else [0xd800 + (c.toNat - 0x10000) / 0x400, 0xdc00 + (c.toNat - 0x10000) % 0x400]

/-- A character by its UTF-16 units. -/
def unitEscape (c : Char) : List Char :=
  (utf16Units c).flatMap fun unit => '\\' :: 'u' :: hexDigits 4 unit

/-- A character inside a string literal. -/
def quotedChar (c : Char) : List Char :=
  match c with
  | '"' => ['\\', '"']
  | '\\' => ['\\', '\\']
  | '\n' => ['\\', 'n']
  | '\r' => ['\\', 'r']
  | '\t' => ['\\', 't']
  | '\x08' => ['\\', 'b']
  | '\x0c' => ['\\', 'f']
  | c => if 0x20 ≤ c.toNat && c.toNat < 0x7f then [c] else unitEscape c

/-- The characters of a string literal, its quotes included. -/
def quotedChars (cs : List Char) : List Char :=
  '"' :: (cs.flatMap quotedChar ++ ['"'])

/-- A text as a string literal. -/
def quoted (s : String) : String :=
  String.ofList (quotedChars s.toList)

@[simp]
theorem toList_quoted (s : String) : (quoted s).toList = quotedChars s.toList := by
  simp [quoted]

/-! ## Names as keys and members -/

/-- A character an identifier may start with. -/
def identifierStart (c : Char) : Bool :=
  c.isAlpha || c == '_' || c == '$'

/-- A character an identifier may go on with. -/
def identifierPart (c : Char) : Bool :=
  identifierStart c || c.isDigit

/-- Whether the characters form an ASCII identifier. -/
def isIdentifier : List Char → Bool
  | [] => false
  | c :: rest => identifierStart c && rest.all identifierPart

/-- A name as the key of an object literal. -/
def propertyKey (name : String) : String :=
  if isIdentifier name.toList then name else quoted name

/-- One member of a value. -/
def memberStep (name : String) : String :=
  if isIdentifier name.toList then "." ++ name else "[" ++ quoted name ++ "]"

/-- The expression that reaches through members, starting from `base`. -/
def memberAccess (base : String) (names : List String) : String :=
  names.foldl (fun reached name => reached ++ memberStep name) base

/-! ## Quoting in messages -/

/-- The quote that needs fewer escapes; single quotes are preferred. -/
def messageQuote (cs : List Char) : Char :=
  if cs.contains '\'' && !cs.contains '"' then '"' else '\''

/-- A character without a glyph by its code point, in two, four or eight digits. -/
def codeEscape (c : Char) : List Char :=
  if c.toNat < 0x100 then '\\' :: 'x' :: hexDigits 2 c.toNat
  else if c.toNat < 0x10000 then '\\' :: 'u' :: hexDigits 4 c.toNat
  else '\\' :: 'U' :: hexDigits 8 c.toNat

/-- A character of a quoted text in a message. -/
def shownChar (quote : Char) (c : Char) : List Char :=
  if c == quote || c == '\\' then ['\\', c]
  else
    match c with
    | '\n' => ['\\', 'n']
    | '\r' => ['\\', 'r']
    | '\t' => ['\\', 't']
    | c => if Unicode.isPrintable c then [c] else codeEscape c

/-- A text quoted for a message. -/
def shown (s : String) : String :=
  let quote := messageQuote s.toList
  String.ofList (quote :: (s.toList.flatMap (shownChar quote) ++ [quote]))

end FormSchema.Text
