/-!
# Escaping for markup

Three places of the generated code take free text, and each has its own escapes: a double-quoted
attribute (`escapeAttribute`), the text between tags (`escapeText`), and the body of a template
literal (`escapeTemplate`). The first two work character by character. In a template a dollar
sign is escaped only where a brace follows, since only together they open a substitution.

A regular expression is written between slashes (`patternLiteral`). A slash that is not escaped yet
gets a backslash, and a line break becomes an escape of its own; all else is kept.
-/

namespace FormSchema.Text

/-- A character inside a double-quoted attribute. -/
def attributeChar (c : Char) : List Char :=
  match c with
  | '\\' => ['\\', '\\']
  | '"' => ['\\', '"']
  | '\n' => ['\\', 'n']
  | c => [c]

/-- Text for a double-quoted attribute. -/
def escapeAttribute (s : String) : String :=
  String.ofList (s.toList.flatMap attributeChar)

/-- A character between tags. What would open a tag, an entity or an expression becomes an
entity. -/
def textChar (c : Char) : List Char :=
  match c with
  | '&' => ['&', 'a', 'm', 'p', ';']
  | '<' => ['&', 'l', 't', ';']
  | '>' => ['&', 'g', 't', ';']
  | '\x7b' => ['&', '#', '1', '2', '3', ';']
  | '\x7d' => ['&', '#', '1', '2', '5', ';']
  | c => [c]

/-- Text to stand between tags. -/
def escapeText (s : String) : String :=
  String.ofList (s.toList.flatMap textChar)

/-- The body of a template literal that stands for the text. -/
def templateChars : List Char → List Char
  | [] => []
  | '\\' :: rest => '\\' :: '\\' :: templateChars rest
  | '\x60' :: rest => '\\' :: '\x60' :: templateChars rest
  | '$' :: '\x7b' :: rest => '\\' :: '$' :: '\x7b' :: templateChars rest
  | c :: rest => c :: templateChars rest

/-- Text for the body of a template literal. -/
def escapeTemplate (s : String) : String :=
  String.ofList (templateChars s.toList)

@[simp]
theorem toList_escapeAttribute (s : String) :
    (escapeAttribute s).toList = s.toList.flatMap attributeChar := by
  simp [escapeAttribute]

@[simp]
theorem toList_escapeText (s : String) :
    (escapeText s).toList = s.toList.flatMap textChar := by
  simp [escapeText]

@[simp]
theorem toList_escapeTemplate (s : String) :
    (escapeTemplate s).toList = templateChars s.toList := by
  simp [escapeTemplate]

/-! ## Pattern literals -/

/-- The body of a pattern literal. The flag says that a backslash has just been written. -/
def patternChars : Bool → List Char → List Char
  | _, [] => []
  | true, c :: rest => c :: patternChars false rest
  | false, '\\' :: rest => '\\' :: patternChars true rest
  | false, '/' :: rest => '\\' :: '/' :: patternChars false rest
  | false, '\n' :: rest => '\\' :: 'n' :: patternChars false rest
  | false, c :: rest => c :: patternChars false rest

/-- A pattern as a literal between slashes. -/
def patternLiteral (pattern : String) : String :=
  String.ofList ('/' :: (patternChars false pattern.toList ++ ['/']))

@[simp]
theorem toList_patternLiteral (pattern : String) :
    (patternLiteral pattern).toList = '/' :: (patternChars false pattern.toList ++ ['/']) := by
  simp [patternLiteral]

end FormSchema.Text
