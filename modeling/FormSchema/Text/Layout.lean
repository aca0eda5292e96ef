import FormSchema.Unicode.Blank

/-!
# Lines and indentation

`splitOn` cuts a text at a separator character and `joined` puts pieces together; `indent` moves
every line of a text that is not blank to the right.
-/

namespace FormSchema.Text

/-- The pieces between the separators; there is always at least one. -/
def splitChars (sep : Char) : List Char → List (List Char)
  | [] => [[]]
  | c :: rest =>
    if c == sep then [] :: splitChars sep rest
    else
      match splitChars sep rest with
      | piece :: pieces => (c :: piece) :: pieces
      | [] => [[c]]

/-- The pieces of a text between the separators. -/
def splitOn (sep : Char) (s : String) : List String :=
  (splitChars sep s.toList).map String.ofList

/-- The texts one after the other, with a separator between two of them. -/
def joined (sep : String) : List String → String
  | [] => ""
  | [s] => s
  | s :: rest => s ++ sep ++ joined sep rest

/-- The lines of a text, joined. -/
def lines (ls : List String) : String :=
  joined "\n" ls

/-- As many spaces. -/
def spaces (n : Nat) : String :=
  String.ofList (List.replicate n ' ')

/-- A line moved to the right, unless it is blank. -/
def indentLine (n : Nat) (line : List Char) : List Char :=
  if line.all Unicode.isBlank then line else List.replicate n ' ' ++ line

/-- The text with every line that is not blank moved to the right. -/
def indent (n : Nat) (s : String) : String :=
  lines ((splitChars '\n' s.toList).map fun line => String.ofList (indentLine n line))

end FormSchema.Text
