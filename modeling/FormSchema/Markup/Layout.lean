import FormSchema.Text.Escape
import FormSchema.Text.Layout

/-!
# Pieces of markup, and places

The generated code is text, put together from lines. This module has the pieces that several
parts of the code share: expressions in braces, attributes, comments and cards.

A field is bound to a place in the state of the form (`Place`). Outside of rows the place is a path
of names. Inside rows the index is known only later, and so the place is the body of a template
literal in which the index, or the key of an entry, is a substitution.
-/

namespace FormSchema.Markup

open Text (lines escapeAttribute escapeTemplate escapeText)

/-- An expression in braces. -/
def braced (expression : String) : String :=
  "\x7b" ++ expression ++ "\x7d"

/-- A template literal in braces. Its body has been escaped before. -/
def templated (body : String) : String :=
  braced ("\x60" ++ body ++ "\x60")

/-- An attribute with a free text. -/
def textAttribute (name value : String) : String :=
  name ++ "=\"" ++ escapeAttribute value ++ "\""

/-- An attribute with an expression. -/
def codeAttribute (name value : String) : String :=
  name ++ "=" ++ braced value

/-- A comment that stands for what is not rendered. -/
def comment (s : String) : String :=
  braced ("/* " ++ s ++ " */")

/-- Pieces with an empty line between two of them, if there are any. -/
def spaced (pieces : List String) : List String :=
  if pieces.isEmpty then [] else [Text.joined "\n\n" pieces]

/-- A card with a title. -/
def card (title : String) (body : List String) : String :=
  lines ([
    "<Card>",
    "  <CardHeader>",
    "    <CardTitle>" ++ escapeText title ++ "</CardTitle>",
    "  </CardHeader>",
    "  <CardContent className=\"flex flex-col gap-3\">"] ++
    body ++ [
    "  </CardContent>",
    "</Card>"])

/-- The button that takes a row away. -/
def removeButton : String :=
  "<Button type=\"button\" variant=\"outline\" size=\"sm\" " ++
    codeAttribute "onClick" "() => arrayField.removeValue(i)" ++ ">Remove</Button>"

/-- The button that adds a row with a value. -/
def addButton (label value : String) : String :=
  "<Button type=\"button\" variant=\"outline\" " ++
    codeAttribute "onClick" ("() => arrayField.pushValue(" ++ value ++ ")") ++ ">Add " ++
    escapeText label ++ "</Button>"

/-- A card with rows and a button for more of them, bound to a list of the form. -/
def rowsCard (title path : String) (rows : List String) (add : String) : String :=
  lines ([
    "<form.Field " ++ textAttribute "name" path ++ " mode=\"array\">",
    "  \x7b(arrayField) => (",
    "    <Card>",
    "      <CardHeader>",
    "        <CardTitle>" ++ escapeText title ++ "</CardTitle>",
    "      </CardHeader>",
    "      <CardContent className=\"flex flex-col gap-3\">"] ++
    rows ++ [
    "        " ++ add,
    "      </CardContent>",
    "    </Card>",
    "  )\x7d",
    "</form.Field>"])

/-- A card for each row of a list, with a title and the content of the row. The rows are called
by a name where the content refers to them. -/
def rowCards (row title : String) (content : List String) : List String :=
  [ "        \x7b(arrayField.state.value ?? []).map((" ++ row ++ ", i) => (",
    "          <Card key=\x7bi\x7d>",
    "            <CardHeader className=\"flex flex-row items-center justify-between\">",
    "              <CardTitle>" ++ title ++ " \x7bi + 1\x7d</CardTitle>",
    "              " ++ removeButton,
    "            </CardHeader>",
    "            <CardContent className=\"flex flex-col gap-3\">"] ++
    content ++ [
    "            </CardContent>",
    "          </Card>",
    "        ))\x7d"]

/-! ## Places in the state of a form -/

/-- Where a field is bound. -/
inductive Place
  | path (names : String)
  | row (template : String)
deriving DecidableEq, Repr

namespace Place

/-- The place of a name below a place. -/
def child : Place → String → Place
  | path names, name => path (names ++ "." ++ name)
  | row template, name => row (template ++ "." ++ escapeTemplate name)

/-- The rows of the list at a path. -/
def rows (names : String) : Place :=
  row (escapeTemplate names ++ "[$" ++ braced "i" ++ "]")

/-- The entries of the record at a path. -/
def entries (names : String) : Place :=
  row (escapeTemplate names ++ ".$" ++ braced "key")

/-- The attribute that binds a field to a place. -/
def nameAttribute : Place → String
  | path names => textAttribute "name" names
  | row template => "name=" ++ templated template

/-- The identifier of one option of a field at a place, with its quotes. -/
def optionId : Place → String → String
  | path names, option => "\"" ++ escapeAttribute (names ++ "-" ++ option) ++ "\""
  | row template, option => templated (template ++ "-" ++ escapeTemplate option)

end Place

end FormSchema.Markup
