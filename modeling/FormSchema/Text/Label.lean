import FormSchema.Unicode.Blank
import FormSchema.Unicode.Sigma

/-!
# Labels and names of types

Readable text from names. `insertMark` puts a character between two neighbours wherever a test on
the two says so. `label` breaks a name in camel case into words in two passes, first where a
capital follows a small letter or a digit, then in front of the last capital of a run that goes on
with a small letter, so that acronyms stay whole. `optionLabel` is the text of one option of a
choice, and `snakeCase` the name with its words joined by underscores.

The type of a schema is named after its export (`typeName`): the word "schema" at the end is
dropped, in either case, and the first letter becomes a capital. A line break at the very end does
not hide the word. A name that is nothing else gives the type `Schema`.
-/

namespace FormSchema.Text

/-- The ASCII capitals. -/
def isCapital (c : Char) : Bool := c.isUpper

/-- The ASCII small letters. -/
def isSmall (c : Char) : Bool := c.isLower

/-- The ASCII small letters and digits. -/
def isSmallOrDigit (c : Char) : Bool := c.isLower || c.isDigit

/-- The text with `mark` between every two neighbours that pass the test. -/
def insertMark (test : Char → Char → Bool) (mark : Char) : List Char → List Char
  | c :: d :: rest =>
    if test c d then c :: mark :: insertMark test mark (d :: rest)
    else c :: insertMark test mark (d :: rest)
  | cs => cs

/-- The text with a space in front of the last capital of every run of two or more that goes on
with a small letter. -/
def splitAcronyms : List Char → List Char
  | [] => []
  | c :: rest =>
    if isCapital c then
      let run := c :: rest.takeWhile isCapital
      let after := rest.dropWhile isCapital
      let goesOn := match after with
        | d :: _ => isSmall d
        | [] => false
      (if 1 < run.length && goesOn then run.dropLast ++ ' ' :: run.drop (run.length - 1) else run)
        ++ splitAcronyms after
    else c :: splitAcronyms rest
termination_by cs => cs.length
decreasing_by
  · have := (List.dropWhile_suffix (l := rest) isCapital).length_le
    simp only [List.length_cons]; omega
  · simp

/-- The text with its first character as a capital. -/
def capitalizeFirst : List Char → List Char
  | [] => []
  | c :: rest => Unicode.upper c ++ rest

/-- The label of a field, read off its name. -/
def label (name : String) : String :=
  let words := insertMark (fun c d => isSmallOrDigit c && isCapital d) ' ' name.toList
  String.ofList (Unicode.trimBlanks (capitalizeFirst (splitAcronyms words)))

/-- The text shown for an option of a choice. -/
def optionLabel (value : String) : String :=
  let words := insertMark (fun c d => isSmall c && isCapital d) ' ' value.toList
  String.ofList (capitalizeFirst (words.map fun c => if c == '_' then ' ' else c))

/-- The name with its words in small letters and joined by underscores. The name `and` gets an
underscore at its end. -/
def snakeCase (name : String) : String :=
  if name == "and" then "and_"
  else
    String.ofList (Unicode.lowerAll
      (insertMark (fun c d => isSmallOrDigit c && isCapital d) '_' name.toList))

/-! ## Names of types -/

/-- The word that ends the name of a schema, last letter first, in both cases. The first letter
has a third form, the long s. -/
def schemaWordReversed : List (List Char) :=
  [['a', 'A'], ['m', 'M'], ['e', 'E'], ['h', 'H'], ['c', 'C'], ['s', 'S', Char.ofNat 0x17f]]

/-- Takes the word off the front of a reversed name. -/
def dropReversedWord : List (List Char) → List Char → Option (List Char)
  | [], cs => some cs
  | forms :: word, c :: rest => if forms.contains c then dropReversedWord word rest else none
  | _ :: _, [] => none

/-- The name without the word "schema" at its end. -/
def dropSchemaWord (name : List Char) : List Char :=
  let reversed := name.reverse
  match dropReversedWord schemaWordReversed reversed with
  | some stem => stem.reverse
  | none =>
    match reversed with
    | '\n' :: rest =>
      match dropReversedWord schemaWordReversed rest with
      | some stem => stem.reverse ++ ['\n']
      | none => name
    | _ => name

/-- The name of the type of a schema. -/
def typeName (exportName : String) : String :=
  match dropSchemaWord exportName.toList with
  | c :: rest =>
    if (c :: rest).all Unicode.isBlank then "Schema" else String.ofList (Unicode.upper c ++ rest)
  | [] => "Schema"

end FormSchema.Text
